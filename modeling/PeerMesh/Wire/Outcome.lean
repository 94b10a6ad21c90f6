import PeerMesh.Command
import PeerMesh.Wire.Command

namespace PeerMesh

open Json (Written only?)

/-- The two values of a record with the fields `first` and `second`: an object that has each of them
once, or an array of the two. -/
def pairOf? (first second : String) : Written → Option (Written × Written)
  | .object members => do
    let members ← Written.named? members
    return (← only? first members, ← only? second members)
  | .array [a, b] => some (a, b)
  | _ => none

def variant? : Written → Option (String × Written)
  | .object [(name, w)] => (Json.stringOfBody? name).map (·, w)
  | _ => none

namespace FailureReason

def json : FailureReason → Json
  | operationFailed m => .object [("operation-failed", .string m)]
  | panicked m => .object [("panicked", .string m)]
  | methodNotFound name => .object [("method-not-found", .string name)]
  | badArgumentCount expected found =>
    .object [("bad-argument-count",
      .object [("expected", .number (.int expected)), ("found", .number (.int found))])]
  | notFound key => .object [("not-found", .string key)]
  | unknownMapper name => .object [("unknown-mapper", .string name)]

def ofText? (name text : String) : Option FailureReason :=
  if name = "operation-failed" then some (operationFailed text)
  else if name = "panicked" then some (panicked text)
  else if name = "method-not-found" then some (methodNotFound text)
  else if name = "not-found" then some (notFound text)
  else if name = "unknown-mapper" then some (unknownMapper text)
  else none

def ofWritten? (w : Written) : Option FailureReason := do
  let (name, w) ← variant? w
  if name = "bad-argument-count" then
    let (expected, found) ← pairOf? "expected" "found" w
    return badArgumentCount (← (← expected.read 0).below? UInt64.size)
      (← (← found.read 0).below? UInt64.size)
  else
    ofText? name (← (← w.read 0).string?)

def bytes (r : FailureReason) : Bytes :=
  r.json.bytes

def ofBytes? (bs : Bytes) : Option FailureReason :=
  (Written.ofBytes? bs).bind ofWritten?

end FailureReason

namespace Outcome

def json : Outcome → Json
  | .ok v => .object [("Ok", v.json)]
  | .error r => .object [("Err", r.json)]

/-- The container of the outcome itself counts as one of those that may be nested. -/
def ofWritten? (w : Written) : Option Outcome := do
  let (name, w) ← variant? w
  if name = "Ok" then
    return .ok (← Val.ofJson? false (← w.read (Written.depthLimit - 1)))
  else if name = "Err" then
    return .error (← FailureReason.ofWritten? w)
  else none

def bytes (o : Outcome) : Bytes :=
  (json o).bytes

def ofBytes? (bs : Bytes) : Option Outcome :=
  (Written.ofBytes? bs).bind ofWritten?

end Outcome

namespace Token

def json (t : Token) : Json :=
  .object [("origin", .string t.origin.id), ("counter", .number (.int t.counter.toNat))]

def ofWritten? (w : Written) : Option Token := do
  let (origin, counter) ← pairOf? "origin" "counter" w
  return ⟨⟨← (← origin.read 0).string?⟩, UInt64.ofNat (← (← counter.read 0).below? UInt64.size)⟩

def bytes (t : Token) : Bytes :=
  t.json.bytes

def ofBytes? (bs : Bytes) : Option Token :=
  (Written.ofBytes? bs).bind ofWritten?

end Token

def PeerId.bytes (p : PeerId) : Bytes :=
  (Json.string p.id).bytes

def PeerId.ofBytes? (bs : Bytes) : Option PeerId :=
  ((Json.ofBytes? bs).bind Json.string?).map PeerId.mk

def JobId.bytes (j : JobId) : Bytes :=
  (Json.string j.id).bytes

def JobId.ofBytes? (bs : Bytes) : Option JobId :=
  ((Json.ofBytes? bs).bind Json.string?).map JobId.mk

end PeerMesh
