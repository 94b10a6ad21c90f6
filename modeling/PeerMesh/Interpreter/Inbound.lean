import PeerMesh.Interpreter

namespace PeerMesh

/-- What can be seen of serving a payload: that a mapper was called and with which emitter, the
responses that it emitted and whether they were queued, the emitters that it kept, and what happened
in the hub. -/
inductive Remark (ν : Type)
  | mapping (emitter : Nat) (job : JobId) (shape : ResponseShape)
  | emitted (emitter : Nat) (job : JobId) (key : String) (v : Val) (queued : Bool)
  | kept (slot : String) (emitter : Nat) (job : JobId)
  | moment (m : Moment ν)

inductive ScriptEnding
  | done
  | fail (message : String)
  | panic

/-- Runs the script of a mapper that was called for `job` and given `emitter`. A panic of a recipe
that it asks for is its own. -/
def Script.run {ν : Type} (view : View) (emitter : Nat) (job : JobId) :
    Script → Site ν → ScriptEnding × Site ν × List (Remark ν)
  | done, s => (.done, s, [])
  | fail message, s => (.fail message, s, [])
  | panic, s => (.panic, s, [])
  | emit target key v next, s =>
    let (queued, i) := s.interpreter.emit emitter target key v
    let (ending, s, log) := (next queued).run view emitter job { s with interpreter := i }
    (ending, s, .emitted emitter target key v queued :: log)
  | resolve key next, s =>
    match s.store.resolve view key with
    | (.error _, store) => (.panic, { s with store := store }, [])
    | (.ok v, store) => (next v).run view emitter job { s with store := store }
  | insert key v next, s =>
    next.run view emitter job { s with store := s.store.insert key (.value v) }
  | insertRecipe key r next, s =>
    next.run view emitter job { s with store := s.store.insert key (.recipe r) }
  | remove key next, s =>
    next.run view emitter job { s with store := s.store.remove key }
  | retain slot next, s =>
    let (ending, s, log) := next.run view emitter job s
    (ending, s, .kept slot emitter job :: log)

namespace Site

variable {ν : Type} (view : View)

def decode (s : Site ν) (payload : Bytes) : Except DispatchError Command :=
  match decodeBounded s.interpreter.maxPayload payload with
  | .error e => .error (.codec e)
  | .ok c => .ok c

def emit (s : Site ν) (event : Event) : Site ν × List (Remark ν) :=
  let (hub, log) := s.hub.emit event
  ({ s with hub := hub }, log.map .moment)

/-- Runs the mapper of that name on the value under the key. What it emitted before it failed stays
queued. -/
def receiveCustom (s : Site ν) (job : JobId) (key mapper : String) (shape : ResponseShape) :
    Except FailureReason Unit × Site ν × List (Remark ν) :=
  match s.interpreter.mappers.get? mapper with
  | none => (.error (.unknownMapper mapper), s, [])
  | some f =>
    match s.store.resolve view key with
    | (.error _, store) =>
      (.error (.panicked ("store key '" ++ key ++ "'")), { s with store := store }, [])
    | (.ok none, store) => (.error (.notFound key), { s with store := store }, [])
    | (.ok (some v), store) =>
      let (emitter, i) := s.interpreter.newEmitter shape
      let script := f job ⟨i.peer, i.registry⟩ v
      match script.run view emitter job { s with store := store, interpreter := i } with
      | (.done, s, log) => (.ok (), s, .mapping emitter job shape :: log)
      | (.fail message, s, log) =>
        (.error (.operationFailed message), s, .mapping emitter job shape :: log)
      | (.panic, s, log) =>
        (.error (.panicked ("mapper '" ++ mapper ++ "'")), s, .mapping emitter job shape :: log)

def receiveBroadcast (s : Site ν) (payload : Bytes) :
    Except DispatchError Unit × Site ν × List (Remark ν) :=
  match s.decode payload with
  | .error e => (.error e, s, [])
  | .ok (.custom job key mapper shape) =>
    match s.receiveCustom view job key mapper shape with
    | (.error reason, s, log) => (.error (.custom job reason), s, log)
    | (.ok (), s, log) => (.ok (), s, log)
  | .ok (.customResponse job value) =>
    let (s, log) := s.emit (.broadcastCustomResult value (.customResponse job value))
    (.ok (), s, log)
  | .ok (.rpc name args) =>
    let result := s.interpreter.registry.invoke name args
    let (s, log) := s.emit (.broadcastResult result (.rpc name args))
    (.ok (), s, log)

/-- Serves a payload that `sender` sent to this peer alone, which has to be a call. -/
def receiveUnicast (s : Site ν) (sender : PeerId) (payload : Bytes) :
    Except DispatchError Unit × Site ν × List (Remark ν) :=
  match s.decode payload with
  | .error e => (.error e, s, [])
  | .ok (.rpc name args) =>
    let result := s.interpreter.registry.invoke name args
    let (s, log) := s.emit (.unicastResult result sender (.rpc name args))
    (.ok (), s, log)
  | .ok c => (.error (.unsupported c.kind), s, [])

end Site

end PeerMesh
