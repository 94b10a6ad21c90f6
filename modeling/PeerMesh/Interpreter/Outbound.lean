import PeerMesh.Interpreter

namespace PeerMesh

structure Sent where
  command : Command
  token : Option Token
  target : Option PeerId

namespace Interpreter

def payload (i : Interpreter) (c : Command) : Except CallError Bytes :=
  match encode c with
  | .error e => .error (.codec e)
  | .ok bs =>
    if i.maxPayload < bs.length then .error (.codec (.payloadTooLarge i.maxPayload bs.length))
    else .ok bs

variable {σ : Type} (link : Link σ)

def sendBroadcast (i : Interpreter) (c : Command) (w : σ) :
    Except CallError Sent × Interpreter × σ :=
  match i.payload c with
  | .error e => (.error e, i, w)
  | .ok bs =>
    let token := i.clock.peek
    match link.broadcast bs token w with
    | (.error e, w) => (.error (.transport e), i, w)
    | (.ok (), w) => (.ok ⟨c, some token, none⟩, { i with clock := i.clock.commit token }, w)

def sendUnicast (i : Interpreter) (c : Command) (target : PeerId) (w : σ) :
    Except CallError Sent × σ :=
  match i.payload c with
  | .error e => (.error e, w)
  | .ok bs =>
    match link.unicast bs target w with
    | (.error e, w) => (.error (.transport e), w)
    | (.ok (), w) => (.ok ⟨c, none, some target⟩, w)

/-- Broadcasts a call that the own registry would accept. -/
def executeBroadcast (i : Interpreter) (name : String) (args : List Val) (w : σ) :
    Except CallError Sent × Interpreter × σ :=
  match i.registry.validate name args with
  | .error e => (.error (.validation e), i, w)
  | .ok () => i.sendBroadcast link (.rpc name args) w

def executeUnicast (i : Interpreter) (name : String) (args : List Val) (target : PeerId) (w : σ) :
    Except CallError Sent × σ :=
  match i.registry.validate name args with
  | .error e => (.error (.validation e), w)
  | .ok () => i.sendUnicast link (.rpc name args) target w

end Interpreter

namespace Site

variable {ν σ : Type} (link : Link σ)

/-- Broadcasts a custom command, and records its job once it was sent. -/
def sendCustom (s : Site ν) (job : JobId) (key mapper : String) (shape : ResponseShape) (w : σ) :
    Except CallError Sent × Site ν × σ :=
  if key = "" then (.error (.validation .emptyKey), s, w)
  else if mapper = "" then (.error (.validation .emptyName), s, w)
  else
    match s.interpreter.sendBroadcast link (.custom job key mapper shape) w with
    | (.error e, i, w) => (.error e, { s with interpreter := i }, w)
    | (.ok sent, i, w) =>
      (.ok sent, { s with interpreter := i, store := s.store.recordJob job key }, w)

/-- Takes the next job identifier, whether or not anything comes of it. -/
def nextJob (s : Site ν) : JobId × Site ν :=
  let (job, ids) := s.interpreter.jobIds.next
  (job, { s with interpreter := { s.interpreter with jobIds := ids } })

def executeCustom (s : Site ν) (key mapper : String) (shape : ResponseShape) (w : σ) :
    Except CallError JobId × Site ν × σ :=
  let (job, s) := s.nextJob
  match s.sendCustom link job key mapper shape w with
  | (.error e, s, w) => (.error e, s, w)
  | (.ok _, s, w) => (.ok job, s, w)

end Site

abbrev Reducer (ν : Type) :=
  Fields Val → Command → Reaction ν

structure MapReduce where
  job : JobId
  subscription : Subscription

namespace Site

variable {ν σ : Type} (link : Link σ)

def reducing (job : JobId) (reducer : Reducer ν) : Listener ν
  | .broadcastCustomResult value command =>
    if command.job? = some job then reducer value command else .done
  | _ => .done

/-- Sends a custom command whose responses go to a reducer. The reducer is subscribed before the
command is sent, so that no response comes too early for it. -/
def mapReduce (s : Site ν) (key mapper : String) (shape : ResponseShape) (reducer : Reducer ν)
    (w : σ) : Except CallError MapReduce × Site ν × σ :=
  let (job, s) := s.nextJob
  let (subscription, hub) := s.hub.on .broadcastCustomResult (reducing job reducer)
  match { s with hub := hub }.sendCustom link job key mapper shape w with
  | (.error e, s, w) => (.error e, { s with hub := s.hub.cancel subscription }, w)
  | (.ok _, s, w) => (.ok ⟨job, subscription⟩, s, w)

end Site

/-- Ends a map-reduce. Late responses still are events; its reducer no longer sees them. -/
def MapReduce.cancel {ν : Type} (m : MapReduce) (h : Hub ν) : Hub ν :=
  h.cancel m.subscription

end PeerMesh
