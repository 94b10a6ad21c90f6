import PeerMesh.Json.Compact
import PeerMesh.Val

namespace PeerMesh

namespace Val

mutual

def json : Val → Json
  | unit => .string "Unit"
  | bool b => .object [("Bool", .bool b)]
  | s64 n => .object [("S64", .number (.int n.toInt))]
  | f64 x => .object [("F64", .number (.float x))]
  | string s => .object [("String", .string s)]
  | list items => .object [("List", .array (jsonItems items))]
  | map fields => .object [("Map", .object (jsonFields fields))]

def jsonItems : List Val → List Json
  | [] => []
  | v :: vs => v.json :: jsonItems vs

def jsonFields : List (String × Val) → List (String × Json)
  | [] => []
  | (k, v) :: fs => (k, v.json) :: jsonFields fs

end

mutual

/-- The value that a JSON value stands for. Inside a command, an empty object may stand where `null`
may. Of several members of a map under one name the last one stays, but all have to be values. -/
def ofJson? (inCommand : Bool) : Json → Option Val
  | .string s => if s = "Unit" then some unit else none
  | .object [(name, j)] =>
    match name, j with
    | "Unit", .null => some unit
    | "Unit", .object [] => if inCommand then some unit else none
    | "Bool", .bool b => some (bool b)
    | "S64", .number (.int n) =>
      if Int64.minValue.toInt ≤ n ∧ n ≤ Int64.maxValue.toInt then some (s64 (Int64.ofInt n))
      else none
    | "F64", .number n => some (f64 n.toBinary64)
    | "String", .string s => some (string s)
    | "List", .array items => (itemsOfJson? inCommand items).map list
    | "Map", .object members => (membersOfJson? inCommand members).map ofEntries
    | _, _ => none
  | _ => none

def itemsOfJson? (inCommand : Bool) : List Json → Option (List Val)
  | [] => some []
  | j :: js =>
    match ofJson? inCommand j, itemsOfJson? inCommand js with
    | some v, some vs => some (v :: vs)
    | _, _ => none

def membersOfJson? (inCommand : Bool) : List (String × Json) → Option (List (String × Val))
  | [] => some []
  | (k, j) :: ms =>
    match ofJson? inCommand j, membersOfJson? inCommand ms with
    | some v, some fs => some ((k, v) :: fs)
    | _, _ => none

end

def bytes (v : Val) : Bytes :=
  v.json.bytes

def ofBytes? (bs : Bytes) : Option Val :=
  (Json.ofBytes? bs).bind (ofJson? false)

end Val

end PeerMesh
