import PeerMesh.Binary64
import PeerMesh.Fields

namespace PeerMesh

inductive Val
  | unit
  | bool (b : Bool)
  | s64 (n : Int64)
  | f64 (x : Binary64)
  | string (s : String)
  | list (items : List Val)
  | map (fields : List (String × Val))

namespace Val

instance : Inhabited Val :=
  ⟨unit⟩

mutual

/-- Every map inside holds its names in ascending order, each once. -/
def Canonical : Val → Prop
  | list items => allCanonical items
  | map fields => Fields.Ascending fields ∧ fieldsCanonical fields
  | _ => True

def allCanonical : List Val → Prop
  | [] => True
  | v :: vs => v.Canonical ∧ allCanonical vs

def fieldsCanonical : List (String × Val) → Prop
  | [] => True
  | (_, v) :: fs => v.Canonical ∧ fieldsCanonical fs

end

mutual

def isFinite : Val → Bool
  | f64 x => x.isFinite
  | list items => allFinite items
  | map fields => fieldsFinite fields
  | _ => true

def allFinite : List Val → Bool
  | [] => true
  | v :: vs => v.isFinite && allFinite vs

def fieldsFinite : List (String × Val) → Bool
  | [] => true
  | (_, v) :: fs => v.isFinite && fieldsFinite fs

end

mutual

/-- Equality of values, in which floats are compared by value and not by pattern. -/
def eqv : Val → Val → Bool
  | unit, unit => true
  | bool a, bool b => a == b
  | s64 a, s64 b => a == b
  | f64 a, f64 b => a.eqv b
  | string a, string b => a == b
  | list a, list b => allEqv a b
  | map a, map b => fieldsEqv a b
  | _, _ => false

def allEqv : List Val → List Val → Bool
  | [], [] => true
  | a :: as, b :: bs => a.eqv b && allEqv as bs
  | _, _ => false

def fieldsEqv : List (String × Val) → List (String × Val) → Bool
  | [], [] => true
  | (k, a) :: as, (l, b) :: bs => k == l && a.eqv b && fieldsEqv as bs
  | _, _ => false

end

def desc : Val → String
  | unit => "unit"
  | bool _ => "bool"
  | s64 _ => "s64"
  | f64 _ => "f64"
  | string _ => "string"
  | list _ => "list"
  | map _ => "map"

def bool? : Val → Option Bool
  | bool b => some b
  | _ => none

def s64? : Val → Option Int64
  | s64 n => some n
  | _ => none

/-- Integers widen to the nearest float; nothing else converts. -/
def f64? : Val → Option Binary64
  | f64 x => some x
  | s64 n => some (Binary64.ofInt n.toInt)
  | _ => none

def string? : Val → Option String
  | string s => some s
  | _ => none

def list? : Val → Option (List Val)
  | list items => some items
  | _ => none

def map? : Val → Option (Fields Val)
  | map fields => some fields
  | _ => none

def ofEntries (entries : List (String × Val)) : Val :=
  map (Fields.ofList entries)

end Val

class ToVal (α : Type) where
  toVal : α → Val

export ToVal (toVal)

instance : ToVal Unit :=
  ⟨fun _ => .unit⟩

instance : ToVal Bool :=
  ⟨.bool⟩

instance : ToVal Int64 :=
  ⟨.s64⟩

instance : ToVal Int32 :=
  ⟨fun n => .s64 n.toInt64⟩

instance : ToVal Binary64 :=
  ⟨.f64⟩

instance : ToVal String :=
  ⟨.string⟩

instance {α : Type} [ToVal α] : ToVal (List α) :=
  ⟨fun items => .list (items.map toVal)⟩

end PeerMesh
