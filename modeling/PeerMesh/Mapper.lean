import PeerMesh.Command
import PeerMesh.Registry
import PeerMesh.Store

namespace PeerMesh

/-- What a mapper does, step by step. It may emit responses, for its own job or another one, use the
store of its peer, and keep its emitter under a name for later. -/
inductive Script
  | done
  | fail (message : String)
  | panic
  | emit (job : JobId) (key : String) (v : Val) (next : Bool → Script)
  | resolve (key : String) (next : Option Val → Script)
  | insert (key : String) (v : Val) (next : Script)
  | insertRecipe (key : String) (r : Recipe) (next : Script)
  | remove (key : String) (next : Script)
  | retain (slot : String) (next : Script)

structure Context where
  peer : PeerId
  registry : Registry

abbrev Mapper :=
  JobId → Context → Val → Script

/-- A later mapper under a name takes the place of an earlier one. -/
abbrev Mappers :=
  Dict Mapper

end PeerMesh
