import PeerMesh.Basic
import PeerMesh.Fields
import PeerMesh.Val

namespace PeerMesh

/-- What a stored computation does, step by step. It may use the store it is in, look at the
neighbours of a peer, and keep values of its own in cells that all copies of it share. -/
inductive Recipe
  | done (v : Val)
  | panic (text : String)
  | resolve (key : String) (next : Option Val → Recipe)
  | insert (key : String) (v : Val) (next : Recipe)
  | insertRecipe (key : String) (r : Recipe) (next : Recipe)
  | remove (key : String) (next : Recipe)
  | load (cell : Nat) (next : Val → Recipe)
  | save (cell : Nat) (v : Val) (next : Recipe)
  | neighbours (of : PeerId) (next : List PeerId → Recipe)

inductive Entry
  | value (v : Val)
  | recipe (r : Recipe)

/-- Whose neighbours are shown under the key of the neighbour view. -/
inductive Membership
  | fixed (peers : List PeerId)
  | mesh (peer : PeerId)

abbrev View :=
  PeerId → List PeerId

/-- Inside of a recipe others may be nested `depth` deep. -/
structure Store where
  entries : Dict Entry
  cells : List Val
  depth : Nat

namespace Store

def viewsKey : String :=
  "views"

def jobsKey : String :=
  "jobs"

/-- Recipes may be nested as deep as one likes; the default is for programs that do not ask. -/
def empty (depth : Nat := 999) : Store :=
  ⟨.empty, [], depth⟩

instance : Inhabited Store :=
  ⟨empty⟩

def get? (s : Store) (key : String) : Option Entry :=
  s.entries.get? key

def insert (s : Store) (key : String) (e : Entry) : Store :=
  { s with entries := s.entries.insert key e }

def remove (s : Store) (key : String) : Store :=
  { s with entries := s.entries.erase key }

def size (s : Store) : Nat :=
  s.entries.size

def allocate (s : Store) (v : Val) : Nat × Store :=
  (s.cells.length, { s with cells := s.cells ++ [v] })

def load (s : Store) (cell : Nat) : Val :=
  s.cells[cell]?.getD .unit

def save (s : Store) (cell : Nat) (v : Val) : Store :=
  { s with cells := s.cells.set cell v }

def insertIfAbsent (s : Store) (key : String) (e : Entry) : Store :=
  match s.get? key with
  | none => s.insert key e
  | some _ => s

end Store

def peersVal (peers : List PeerId) : Val :=
  .list (peers.map fun p => .string p.id)

def Membership.recipe : Option Membership → Recipe
  | none => .done (peersVal [])
  | some (fixed peers) => .done (peersVal peers)
  | some (mesh peer) => .neighbours peer fun peers => .done (peersVal peers)

namespace Store

/-- Adds the neighbour view and the empty list of jobs where there is nothing under their keys. -/
def installDefaults (s : Store) (membership : Option Membership) : Store :=
  (s.insertIfAbsent viewsKey (.recipe (Membership.recipe membership))).insertIfAbsent jobsKey
    (.value (.map []))

def withDefaults (membership : Option Membership) (depth : Nat := 999) : Store :=
  (empty depth).installDefaults membership

/-- Notes that `job` was issued for `key`. Whatever is not a map of jobs is left alone. -/
def recordJob (s : Store) (job : JobId) (key : String) : Store :=
  match s.get? jobsKey with
  | none => s.insert jobsKey (.value (.map [(job.id, .string key)]))
  | some (.value (.map jobs)) =>
    s.insert jobsKey (.value (.map (Fields.insert job.id (.string key) jobs)))
  | some _ => s

end Store

/-- Runs a recipe on the store. Keys that it asks for are resolved by `resolve`; a panic in there is
its own. -/
def Recipe.run (view : View) (resolve : String → Store → Except String (Option Val) × Store) :
    Recipe → Store → Except String Val × Store
  | done v, s => (.ok v, s)
  | panic text, s => (.error text, s)
  | .resolve key next, s =>
    match resolve key s with
    | (.ok v, s) => (next v).run view resolve s
    | (.error text, s) => (.error text, s)
  | insert key v next, s => next.run view resolve (s.insert key (.value v))
  | insertRecipe key r next, s => next.run view resolve (s.insert key (.recipe r))
  | remove key next, s => next.run view resolve (s.remove key)
  | load cell next, s => (next (s.load cell)).run view resolve s
  | save cell v next, s => next.run view resolve (s.save cell v)
  | neighbours of next, s => (next (view of)).run view resolve s

/-- The value of an entry at this time. Recipes that resolve keys of recipes may be nested `depth`
deep; beyond that they panic. -/
def Entry.resolveWithin (view : View) : Nat → Entry → Store → Except String Val × Store
  | _, value v, s => (.ok v, s)
  | 0, recipe _, s => (.error "recipes nested too deep", s)
  | depth + 1, recipe r, s =>
    r.run view
      (fun key s =>
        match s.get? key with
        | none => (.ok none, s)
        | some e =>
          match e.resolveWithin view depth s with
          | (.ok v, s) => (.ok (some v), s)
          | (.error text, s) => (.error text, s))
      s

def Entry.resolve (view : View) (e : Entry) (s : Store) : Except String Val × Store :=
  e.resolveWithin view (s.depth + 1) s

/-- The value under a key at this time; an error is the text of a panic. -/
def Store.resolve (view : View) (s : Store) (key : String) :
    Except String (Option Val) × Store :=
  match s.get? key with
  | none => (.ok none, s)
  | some e =>
    match e.resolve view s with
    | (.ok v, s) => (.ok (some v), s)
    | (.error text, s) => (.error text, s)

end PeerMesh
