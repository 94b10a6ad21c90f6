import PeerMesh.Binary64
import PeerMesh.Events
import PeerMesh.Mapper
import PeerMesh.Registry
import PeerMesh.Store
import PeerMesh.Unicode.Printable

namespace PeerMesh

namespace Inspect

def escapeChar (c : Char) : List Char :=
  if c = '"' then ['\\', '"']
  else if c = '\\' then ['\\', '\\']
  else if c = '\n' then ['\\', 'n']
  else if c = '\r' then ['\\', 'r']
  else if c = '\t' then ['\\', 't']
  else if c = Char.ofNat 0 then ['\\', '0']
  else if Unicode.isPrintable c then [c]
  else '\\' :: 'u' :: '\x7b' :: (Nat.toDigits 16 c.toNat ++ ['\x7d'])

def quoted (s : String) : String :=
  "\"" ++ String.ofList (s.toList.flatMap escapeChar) ++ "\""

def style : Decimal.Style where
  lowest := -3
  highest := 16
  sign := []
  tie := .upper

def float (x : Binary64) : String :=
  if x.isNaN then "NaN"
  else if x.isFinite then String.ofList (x.numeral style).chars
  else if x.negative then "-inf"
  else "inf"

def braced (parts : List String) : String :=
  "\x7b" ++ ", ".intercalate parts ++ "\x7d"

end Inspect

namespace Val

open Inspect

mutual

def inspect : Val → String
  | .unit => "Unit"
  | .bool b => "Bool(" ++ (if b then "true" else "false") ++ ")"
  | .s64 n => "S64(" ++ toString n.toInt ++ ")"
  | .f64 x => "F64(" ++ float x ++ ")"
  | .string s => "String(" ++ quoted s ++ ")"
  | .list items => "List([" ++ ", ".intercalate (inspectItems items) ++ "])"
  | .map fields => "Map(" ++ braced (inspectFields fields) ++ ")"

def inspectItems : List Val → List String
  | [] => []
  | v :: vs => v.inspect :: inspectItems vs

def inspectFields : List (String × Val) → List String
  | [] => []
  | (k, v) :: fs => (quoted k ++ ": " ++ v.inspect) :: inspectFields fs

end

end Val

open Inspect

def Entry.inspect : Entry → String
  | value v => "Value(" ++ v.inspect ++ ")"
  | recipe _ => "Thunk"

def Operation.inspect (op : Operation) : String :=
  "Operation \x7b arity: " ++ toString op.arity ++ ", .. \x7d"

def Registry.inspect (r : Registry) : String :=
  "Registry \x7b ops: " ++
    braced (r.operations.fields.map fun f => quoted f.1 ++ ": " ++ f.2.inspect) ++ " \x7d"

def Mappers.inspect (m : Mappers) : String :=
  braced (m.keys.map quoted)

def Subscription.inspect (s : Subscription) : String :=
  "Subscription \x7b id: " ++ toString s.id ++ " \x7d"

end PeerMesh
