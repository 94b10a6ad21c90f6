namespace PeerMesh

abbrev Bytes :=
  List UInt8

def utf8 (s : String) : Bytes :=
  s.toUTF8.data.toList

def utf8? (bs : Bytes) : Option String :=
  String.fromUTF8? ⟨bs.toArray⟩

structure PeerId where
  id : String
  deriving DecidableEq, Inhabited

def PeerId.text (p : PeerId) : String :=
  "peer-" ++ p.id

structure JobId where
  id : String
  deriving DecidableEq, Inhabited

def JobId.text (j : JobId) : String :=
  "job-" ++ j.id

/-- The place of one broadcast among those of its origin. -/
structure Token where
  origin : PeerId
  counter : UInt64
  deriving DecidableEq

structure JobIds where
  stem : String
  seq : UInt64

namespace JobIds

def ofStem (stem : String) : JobIds :=
  ⟨stem, 1⟩

/-- The stem of a generator that is not given one is a number in sixteen hexadecimal digits. -/
def ofSeed (seed : UInt64) : JobIds :=
  let digits := Nat.toDigits 16 seed.toNat
  ofStem (String.ofList (List.replicate (16 - digits.length) '0' ++ digits))

def next (g : JobIds) : JobId × JobIds :=
  (⟨g.stem ++ "-" ++ toString g.seq.toNat⟩, { g with seq := g.seq + 1 })

def take (g : JobIds) : Nat → List JobId
  | 0 => []
  | n + 1 => g.next.1 :: g.next.2.take n

end JobIds

end PeerMesh
