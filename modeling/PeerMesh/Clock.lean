import PeerMesh.Basic
import PeerMesh.Fields

namespace PeerMesh

structure VersionVector where
  owner : PeerId
  entries : Dict UInt64

namespace VersionVector

def ofOwner (owner : PeerId) : VersionVector :=
  ⟨owner, .empty⟩

/-- Zero stands for an origin that was never seen. -/
def get (c : VersionVector) (p : PeerId) : UInt64 :=
  (c.entries.get? p.id).getD 0

def observe (c : VersionVector) (t : Token) : VersionVector :=
  { c with entries := c.entries.insert t.origin.id (max t.counter (c.get t.origin)) }

def peek (c : VersionVector) : Token :=
  ⟨c.owner, c.get c.owner + 1⟩

def commit (c : VersionVector) (t : Token) : VersionVector :=
  c.observe t

def increment (c : VersionVector) : Token × VersionVector :=
  (c.peek, c.commit c.peek)

end VersionVector

end PeerMesh
