import PeerMesh.Binary64
import PeerMesh.Fields

namespace PeerMesh

namespace Json

/-- Whole numbers that fit a signed or an unsigned word of 64 bits stay whole. -/
inductive Number
  | int (n : Int)
  | float (x : Binary64)

def Number.toBinary64 : Number → Binary64
  | int n => Binary64.ofInt n
  | float x => x

end Json

inductive Json
  | null
  | bool (b : Bool)
  | number (n : Json.Number)
  | string (s : String)
  | array (items : List Json)
  | object (members : List (String × Json))

namespace Json

mutual

def depth : Json → Nat
  | array items => depthItems items + 1
  | object members => depthMembers members + 1
  | _ => 0

def depthItems : List Json → Nat
  | [] => 0
  | j :: js => max j.depth (depthItems js)

def depthMembers : List (String × Json) → Nat
  | [] => 0
  | (_, j) :: ms => max j.depth (depthMembers ms)

end

mutual

/-- The value in which every object keeps only the last member of each name. -/
def lastWins : Json → Json
  | array items => array (lastWinsItems items)
  | object members => object (Fields.ofList (lastWinsMembers members))
  | j => j

def lastWinsItems : List Json → List Json
  | [] => []
  | j :: js => j.lastWins :: lastWinsItems js

def lastWinsMembers : List (String × Json) → List (String × Json)
  | [] => []
  | (k, j) :: ms => (k, j.lastWins) :: lastWinsMembers ms

end

def string? : Json → Option String
  | string s => some s
  | _ => none

def array? : Json → Option (List Json)
  | array items => some items
  | _ => none

def object? : Json → Option (List (String × Json))
  | object members => some members
  | _ => none

def below? (bound : Nat) : Json → Option Nat
  | number (.int n) => if 0 ≤ n ∧ n < bound then some n.toNat else none
  | _ => none

def only? {α : Type} (name : String) (members : List (String × α)) : Option α :=
  match members.filter fun m => m.1 == name with
  | [m] => some m.2
  | _ => none

end Json

end PeerMesh
