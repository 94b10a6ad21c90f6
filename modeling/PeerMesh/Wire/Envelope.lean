import PeerMesh.Wire.Outcome

namespace PeerMesh

open Json (Written)

inductive Stage
  | envelope
  | command
  deriving DecidableEq

inductive CodecError
  | malformed (stage : Stage) (detail : String)
  | serialization (detail : String)
  | unsupportedVersion (expected found : UInt16)
  | payloadTooLarge (limit found : Nat)
  deriving DecidableEq

namespace CodecError

def message : CodecError → String
  | malformed _ detail => "Malformed envelope: " ++ detail
  | serialization detail => "Serialization failed: " ++ detail
  | unsupportedVersion expected found =>
    "Unsupported protocol version: expected " ++ toString expected.toNat ++ ", found " ++
      toString found.toNat
  | payloadTooLarge limit found =>
    "Payload of " ++ toString found ++ " bytes exceeds limit of " ++ toString limit ++ " bytes"

def notAnEnvelope : CodecError :=
  malformed .envelope "not an envelope"

def notACommand : CodecError :=
  malformed .command "not a command"

end CodecError

def protocolVersion : UInt16 :=
  1

structure Envelope where
  version : UInt16
  command : Command

namespace Envelope

def json (e : Envelope) : Json :=
  .object [("version", .number (.int e.version.toNat)), ("command", e.command.json)]

def bytes (e : Envelope) : Bytes :=
  e.json.bytes

end Envelope

/-- The version and the command of an envelope, whether or not the latter is one. The container of
the envelope counts as one of those that may be nested. -/
def openEnvelope? (bs : Bytes) : Option (UInt16 × Json) := do
  let (version, command) ← pairOf? "version" "command" (← Written.ofBytes? bs)
  return (UInt16.ofNat (← (← version.read 0).below? UInt16.size),
    ← command.read (Written.depthLimit - 1))

/-- Every member of the command that it knows has to stand alone. -/
def Envelope.ofBytes? (bs : Bytes) : Option Envelope := do
  let (version, command) ← openEnvelope? bs
  return ⟨version, ← Command.ofJson? command⟩

def encode (c : Command) : Except CodecError Bytes :=
  if c.isFinite then .ok (Envelope.bytes ⟨protocolVersion, c⟩)
  else .error (.serialization (c.kind.name ++ " command carries a non-finite float"))

/-- The version is checked before the command is looked at, in which the last one counts of several
members of a name. -/
def decode (bs : Bytes) : Except CodecError Command :=
  match openEnvelope? bs with
  | none => .error .notAnEnvelope
  | some (version, command) =>
    if version ≠ protocolVersion then .error (.unsupportedVersion protocolVersion version)
    else
      match Command.ofJson? command.lastWins with
      | none => .error .notACommand
      | some c => .ok c

def decodeBounded (limit : Nat) (bs : Bytes) : Except CodecError Command :=
  if limit < bs.length then .error (.payloadTooLarge limit bs.length) else decode bs

end PeerMesh
