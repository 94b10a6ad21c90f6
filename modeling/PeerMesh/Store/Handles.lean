import PeerMesh.Store

namespace PeerMesh

/-- Stores by their places, and the handles by name, each on the store at a place. -/
structure Stores where
  stores : List Store
  handles : Dict Nat

namespace Stores

def single (handle : String) : Stores :=
  ⟨[.empty], Dict.empty.insert handle 0⟩

def store? (s : Stores) (handle : String) : Option Store :=
  (s.handles.get? handle).bind fun place => s.stores[place]?

def add (s : Stores) (handle : String) (store : Store) : Stores :=
  { s with stores := s.stores ++ [store], handles := s.handles.insert handle s.stores.length }

def clone (s : Stores) (handle new : String) : Stores :=
  match s.handles.get? handle with
  | none => s
  | some place => { s with handles := s.handles.insert new place }

def modify (s : Stores) (handle : String) (f : Store → Store) : Stores :=
  match s.handles.get? handle with
  | none => s
  | some place => { s with stores := s.stores.modify place f }

end Stores

end PeerMesh
