import PeerMesh.Basic
import PeerMesh.Clock
import PeerMesh.Events
import PeerMesh.Mapper
import PeerMesh.Transport
import PeerMesh.Wire.Envelope

namespace PeerMesh

/-- The pump serves both channels until each of them has closed or failed. -/
inductive Pump
  | idle
  | running (broadcast unicast : Bool)
  | ended
  deriving DecidableEq

/-- The emitter of one received custom command, which all copies of it share. -/
structure Emitter where
  shape : ResponseShape
  fired : Bool

/-- Responses wait in the outbox, oldest first, for the pump to broadcast them. -/
structure Interpreter where
  peer : PeerId
  protocol : String
  registry : Registry
  mappers : Mappers
  maxPayload : Nat
  clock : VersionVector
  jobIds : JobIds
  pump : Pump
  outbox : List Command
  emitters : List Emitter

inductive CallError
  | validation (e : ValidationError)
  | transport (e : TransportError)
  | codec (e : CodecError)
  | missingTransport (which : String)
  | alreadyRunning
  deriving DecidableEq

def CallError.message : CallError → String
  | validation e => "Validation error: " ++ e.message
  | transport e => "Transport error: " ++ e.message
  | codec e => "Codec error: " ++ e.message
  | missingTransport which => "Missing " ++ which ++ " transport"
  | alreadyRunning => "Interpreter pump already running"

inductive DispatchError
  | codec (e : CodecError)
  | custom (job : JobId) (reason : FailureReason)
  | unsupported (kind : CommandKind)
  deriving DecidableEq

namespace DispatchError

def undecodable (detail : String) : String :=
  "Undecodable payload: " ++ detail

def message : DispatchError → String
  | codec e => undecodable e.message
  | custom job reason => "Custom " ++ job.text ++ " not served: " ++ reason.message
  | unsupported kind => "Unsupported command kind on this channel: " ++ kind.name

end DispatchError

/-- What an interpreter is assembled from. A clock that is not given starts at nothing seen. -/
structure Settings where
  peer : PeerId
  jobIds : JobIds
  protocol : String := "interpreter"
  maxPayload : Nat := 1048576
  registry : Registry := .empty
  mappers : Mappers := .empty
  membership : Option Membership := none
  clock : Option VersionVector := none
  hasBroadcast : Bool := true
  hasUnicast : Bool := true

namespace Interpreter

/-- Both transports are needed. The store gets its default entries unless it has them. -/
def build (s : Settings) (store : Store) : Except CallError (Interpreter × Store) :=
  if !s.hasBroadcast then .error (.missingTransport "broadcast")
  else if !s.hasUnicast then .error (.missingTransport "unicast")
  else
    .ok (
      { peer := s.peer
        protocol := s.protocol
        registry := s.registry
        mappers := s.mappers
        maxPayload := s.maxPayload
        clock := s.clock.getD (.ofOwner s.peer)
        jobIds := s.jobIds
        pump := .idle
        outbox := []
        emitters := [] },
      store.installDefaults s.membership)

def isOpen (i : Interpreter) : Bool :=
  i.pump ≠ .ended

def newEmitter (i : Interpreter) (shape : ResponseShape) : Nat × Interpreter :=
  (i.emitters.length, { i with emitters := i.emitters ++ [⟨shape, false⟩] })

/-- Queues a response, unless the emitter is for one response only and was used before, or the
outbox is gone. Tells whether it did. -/
def emit (i : Interpreter) (emitter : Nat) (job : JobId) (key : String) (v : Val) :
    Bool × Interpreter :=
  match i.emitters[emitter]? with
  | none => (false, i)
  | some e =>
    if e.shape = .once && e.fired then (false, i)
    else
      let i := { i with emitters := i.emitters.set emitter { e with fired := true } }
      if i.isOpen then (true, { i with outbox := i.outbox ++ [Command.response job key v] })
      else (false, i)

def stop (i : Interpreter) : Interpreter :=
  { i with pump := .ended, outbox := [] }

end Interpreter

/-- An interpreter with the store and the hub that it works on, which others may share. -/
structure Site (ν : Type) where
  interpreter : Interpreter
  store : Store
  hub : Hub ν

end PeerMesh
