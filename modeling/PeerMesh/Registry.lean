import PeerMesh.Command
import PeerMesh.Fields

namespace PeerMesh

/-- How the body of an operation ends. A panic may come without a text. -/
inductive Ending
  | value (v : Val)
  | failure (message : String)
  | panic (text : Option String)

structure Operation where
  arity : Nat
  body : List Val → Ending

/-- Why a call or a custom command was refused before it was sent. -/
inductive ValidationError
  | emptyName
  | emptyKey
  | unknownOperation (name : String)
  | arityMismatch (name : String) (expected found : Nat)
  deriving DecidableEq

def ValidationError.message : ValidationError → String
  | emptyName => "operation name is empty"
  | emptyKey => "store key is empty"
  | unknownOperation name => "unknown operation '" ++ name ++ "'"
  | arityMismatch name expected found =>
    "operation '" ++ name ++ "' expects " ++ toString expected ++ " argument(s), got " ++
      toString found

structure Registry where
  operations : Dict Operation

namespace Registry

def empty : Registry :=
  ⟨.empty⟩

/-- A later registration under a name takes the place of an earlier one. -/
def register (r : Registry) (name : String) (op : Operation) : Registry :=
  ⟨r.operations.insert name op⟩

def ofList (ops : List (String × Operation)) : Registry :=
  ops.foldl (fun r op => r.register op.1 op.2) empty

def operation? (r : Registry) (name : String) : Option Operation :=
  r.operations.get? name

def arity? (r : Registry) (name : String) : Option Nat :=
  (r.operation? name).map (·.arity)

def contains (r : Registry) (name : String) : Bool :=
  r.operations.contains name

def names (r : Registry) : List String :=
  r.operations.keys

def validate (r : Registry) (name : String) (args : List Val) : Except ValidationError Unit :=
  if name = "" then .error .emptyName
  else
    match r.arity? name with
    | none => .error (.unknownOperation name)
    | some expected =>
      if expected = args.length then .ok ()
      else .error (.arityMismatch name expected args.length)

end Registry

/-- A panic without a text is reported by a text of its own. -/
def Ending.outcome : Ending → Outcome
  | value v => .ok v
  | failure message => .error (.operationFailed message)
  | panic text => .error (.panicked (text.getD "non-string panic payload"))

def Registry.invoke (r : Registry) (name : String) (args : List Val) : Outcome :=
  match r.operation? name with
  | none => .error (.methodNotFound name)
  | some op =>
    if op.arity = args.length then (op.body args).outcome
    else .error (.badArgumentCount op.arity args.length)

end PeerMesh
