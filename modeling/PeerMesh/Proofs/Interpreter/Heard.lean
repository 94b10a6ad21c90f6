import PeerMesh.Proofs.Interpreter.Reductions

namespace PeerMesh

/-- One listener to each kind notes the events, and does nothing else. -/
def Hub.recording : Hub Event where
  listeners := [⟨0, .broadcastResult, fun e => .note e .done⟩,
    ⟨1, .broadcastCustomResult, fun e => .note e .done⟩,
    ⟨2, .unicastResult, fun e => .note e .done⟩]
  next := 3
  held := .empty
  mailboxes := []
  depth := 0

def Moment.noted? {ν : Type} : Moment ν → Option ν
  | noted what => some what
  | called .. => none

theorem Hub.noted_recording (e : Event) :
    (moments ((recording.emit e).2.map .moment)).filterMap Moment.noted? = [e] := by
  rw [moments_map]
  cases e <;> rfl

def Registry.broadcastEvent? (r : Registry) : Command → Option Event
  | .rpc name args => some (.broadcastResult (r.invoke name args) (.rpc name args))
  | .customResponse job value =>
    some (.broadcastCustomResult value (.customResponse job value))
  | .custom .. => none

def Registry.unicastEvent? (r : Registry) (sender : PeerId) : Command → Option Event
  | .rpc name args => some (.unicastResult (r.invoke name args) sender (.rpc name args))
  | _ => none

namespace Site

variable {ν : Type} (s : Site ν)

def recorded : Site Event :=
  ⟨s.interpreter, s.store, .recording⟩

/-- The events that the site emits, whatever hub it has. -/
def broadcastEvents (view : View) (payload : Bytes) : List Event :=
  (moments (s.recorded.receiveBroadcast view payload).2.2).filterMap Moment.noted?

def unicastEvents (sender : PeerId) (payload : Bytes) : List Event :=
  (moments (s.recorded.receiveUnicast sender payload).2.2).filterMap Moment.noted?

def reads (payload : Bytes) : Option Command :=
  readWithin s.interpreter.maxPayload payload

theorem decode_of_reads_none {payload : Bytes} (h : s.reads payload = none) :
    ∃ e, s.decode payload = .error e := by
  cases hd : s.decode payload with
  | error e => exact ⟨e, rfl⟩
  | ok c =>
    rw [reads, decode_eq_ok.mp hd] at h
    cases h

theorem broadcastEvents_eq (view : View) (payload : Bytes) :
    s.broadcastEvents view payload =
      ((s.reads payload).bind s.interpreter.registry.broadcastEvent?).toList := by
  rw [broadcastEvents]
  cases hr : s.reads payload with
  | none =>
    obtain ⟨e, he⟩ := s.recorded.decode_of_reads_none hr
    rw [receiveBroadcast, he]
    rfl
  | some c =>
    have hd : s.recorded.decode payload = .ok c := decode_eq_ok.mpr hr
    cases c with
    | custom job key mapper shape =>
      rw [receiveBroadcast_custom view hd, (s.recorded.receiveCustom_hub view _ _ _ _).2]
      rfl
    | rpc name args =>
      rw [receiveBroadcast, hd]
      exact Hub.noted_recording (.broadcastResult _ (.rpc name args))
    | customResponse job value =>
      rw [receiveBroadcast, hd]
      exact Hub.noted_recording (.broadcastCustomResult value (.customResponse job value))

theorem unicastEvents_eq (sender : PeerId) (payload : Bytes) :
    s.unicastEvents sender payload =
      ((s.reads payload).bind (s.interpreter.registry.unicastEvent? sender)).toList := by
  rw [unicastEvents]
  cases hr : s.reads payload with
  | none =>
    obtain ⟨e, he⟩ := s.recorded.decode_of_reads_none hr
    rw [receiveUnicast, he]
    rfl
  | some c =>
    have hd : s.recorded.decode payload = .ok c := decode_eq_ok.mpr hr
    rw [receiveUnicast, hd]
    cases c with
    | rpc name args => exact Hub.noted_recording (.unicastResult _ sender (.rpc name args))
    | custom | customResponse => rfl

theorem receiveBroadcast_emits (view : View) (payload : Bytes) :
    (s.receiveBroadcast view payload).2.1.hub =
      (s.broadcastEvents view payload).foldl (fun h e => (h.emit e).1) s.hub := by
  rw [broadcastEvents_eq]
  cases hr : s.reads payload with
  | none =>
    obtain ⟨e, he⟩ := s.decode_of_reads_none hr
    rw [receiveBroadcast, he]
    rfl
  | some c =>
    have hd : s.decode payload = .ok c := decode_eq_ok.mpr hr
    cases c with
    | custom job key mapper shape =>
      rw [receiveBroadcast_custom view hd, (s.receiveCustom_hub view _ _ _ _).1]
      rfl
    | rpc name args | customResponse job value =>
      rw [receiveBroadcast, hd]
      rfl

theorem receiveUnicast_emits (sender : PeerId) (payload : Bytes) :
    (s.receiveUnicast sender payload).2.1.hub =
      (s.unicastEvents sender payload).foldl (fun h e => (h.emit e).1) s.hub := by
  rw [unicastEvents_eq]
  cases hr : s.reads payload with
  | none =>
    obtain ⟨e, he⟩ := s.decode_of_reads_none hr
    rw [receiveUnicast, he]
    rfl
  | some c =>
    have hd : s.decode payload = .ok c := decode_eq_ok.mpr hr
    rw [receiveUnicast, hd]
    cases c with
    | rpc | custom | customResponse => rfl

end Site

end PeerMesh
