import PeerMesh.Proofs.Interpreter.Traceless

namespace PeerMesh

variable {ν : Type}

/-- Serving comes to the emission of that event at most: no recipe and no mapper is called, and
nothing is changed or queued but by the listeners of the event. -/
structure Service.Emits (v : Service ν) (s : Site ν) (event? : Option Event) : Prop where
  events : v.events = event?.toList
  invocations : v.invocations = []
  effect : (v.after, v.remarks) = event?.elim (s, []) s.emit

namespace Site

variable (s : Site ν) {payload : Bytes}

theorem decode_eq_of_le {c : Command} (hlen : payload.length ≤ s.interpreter.maxPayload)
    (h : PeerMesh.decode payload = .ok c) : s.decode payload = .ok c := by
  simp [decode, decodeBounded, Nat.not_lt.mpr hlen, h]

theorem decode_refused
    (h : s.interpreter.maxPayload < payload.length ∨ ∃ e, PeerMesh.decode payload = .error e) :
    ∃ e, decodeBounded s.interpreter.maxPayload payload = .error e ∧
      s.decode payload = .error (.codec e) := by
  by_cases hlen : s.interpreter.maxPayload < payload.length
  · simp [decode, decodeBounded, hlen]
  · obtain ⟨e, he⟩ := h.resolve_left hlen
    simp [decode, decodeBounded, hlen, he]

theorem reads_of_refused {e : DispatchError} (h : s.decode payload = .error e) :
    s.reads payload = none := by
  cases hr : s.reads payload with
  | none => rfl
  | some c =>
    have hd : s.decode payload = .ok c := decode_eq_ok.mpr hr
    rw [h] at hd
    cases hd

/-- Through the broadcast channel, only a custom command does more than to emit an event. -/
theorem broadcast_emits (view : View) (payload : Bytes)
    (h : ∀ c, s.reads payload = some c → c.kind ≠ .custom) :
    (s.serve (.broadcast view payload)).Emits s
      ((s.reads payload).bind s.interpreter.registry.broadcastEvent?) := by
  have hevents := s.broadcastEvents_eq view payload
  cases hr : s.reads payload with
  | none =>
    obtain ⟨e, he⟩ := s.decode_of_reads_none hr
    rw [hr] at hevents
    refine ⟨hevents, ?_, ?_⟩
    · simp [serve, broadcastInvocations, he]
    · simp [serve, receiveBroadcast, he]
  | some c =>
    have hd : s.decode payload = .ok c := decode_eq_ok.mpr hr
    rw [hr] at hevents
    cases c with
    | custom => exact absurd rfl (h _ hr)
    | rpc | customResponse =>
      refine ⟨hevents, ?_, ?_⟩
      · simp [serve, broadcastInvocations, hd]
      · simp [serve, receiveBroadcast, hd, Registry.broadcastEvent?]

theorem unicast_emits (sender : PeerId) (payload : Bytes) :
    (s.serve (.unicast sender payload)).Emits s
      ((s.reads payload).bind (s.interpreter.registry.unicastEvent? sender)) := by
  refine ⟨s.unicastEvents_eq sender payload, s.unicastInvocations_eq_nil sender payload, ?_⟩
  cases hr : s.reads payload with
  | none =>
    obtain ⟨e, he⟩ := s.decode_of_reads_none hr
    simp [serve, receiveUnicast, he]
  | some c =>
    have hd : s.decode payload = .ok c := decode_eq_ok.mpr hr
    cases c with
    | rpc | custom | customResponse =>
      simp [serve, receiveUnicast, hd, Registry.unicastEvent?]

theorem refused_alike (view : View) (sender : PeerId) {e : DispatchError}
    (h : s.decode payload = .error e) :
    (s.serve (.broadcast view payload)).result = .error e ∧
    (s.serve (.unicast sender payload)).result = .error e ∧
    (s.serve (.broadcast view payload)).Emits s none ∧
    (s.serve (.unicast sender payload)).Emits s none := by
  have hr : s.reads payload = none := s.reads_of_refused h
  have hbroadcast := s.broadcast_emits view payload (by simp [hr])
  have hunicast := s.unicast_emits sender payload
  rw [hr] at hbroadcast hunicast
  refine ⟨?_, ?_, hbroadcast, hunicast⟩
  · simp [serve, receiveBroadcast, h]
  · simp [serve, receiveUnicast, h]

theorem call_alike (view : View) (sender : PeerId) {name : String} {args : List Val}
    (h : s.decode payload = .ok (.rpc name args)) :
    let result := s.interpreter.registry.invoke name args
    (s.serve (.broadcast view payload)).result = .ok () ∧
    (s.serve (.unicast sender payload)).result = .ok () ∧
    (s.serve (.broadcast view payload)).Emits s
      (some (.broadcastResult result (.rpc name args))) ∧
    (s.serve (.unicast sender payload)).Emits s
      (some (.unicastResult result sender (.rpc name args))) := by
  have hr : s.reads payload = some (.rpc name args) := decode_eq_ok.mp h
  have hbroadcast := s.broadcast_emits view payload (by simp [hr, Command.kind])
  have hunicast := s.unicast_emits sender payload
  rw [hr] at hbroadcast hunicast
  refine ⟨?_, ?_, hbroadcast, hunicast⟩
  · simp [serve, receiveBroadcast, h]
  · simp [serve, receiveUnicast, h]

theorem custom_broadcast (view : View) {job : JobId} {key mapper : String} {shape : ResponseShape}
    (h : s.decode payload = .ok (.custom job key mapper shape)) :
    (s.serve (.broadcast view payload)).events = [] ∧
    ∀ e, (s.serve (.broadcast view payload)).result ≠ .error (.codec e) := by
  have hr : s.reads payload = some (.custom job key mapper shape) := decode_eq_ok.mp h
  refine ⟨?_, fun e he => ?_⟩
  · simp [serve, broadcastEvents_eq, hr, Registry.broadcastEvent?]
  · simp only [serve, receiveBroadcast, h] at he
    split at he <;> cases he

theorem response_broadcast (view : View) {job : JobId} {value : Fields Val}
    (h : s.decode payload = .ok (.customResponse job value)) :
    (s.serve (.broadcast view payload)).result = .ok () ∧
    (s.serve (.broadcast view payload)).Emits s
      (some (.broadcastCustomResult value (.customResponse job value))) := by
  have hr : s.reads payload = some (.customResponse job value) := decode_eq_ok.mp h
  have hbroadcast := s.broadcast_emits view payload (by simp [hr, Command.kind])
  rw [hr] at hbroadcast
  refine ⟨?_, hbroadcast⟩
  simp [serve, receiveBroadcast, h]

theorem unicast_unsupported (sender : PeerId) {c : Command} (h : s.decode payload = .ok c)
    (hc : c.kind ≠ .rpc) :
    (s.serve (.unicast sender payload)).result = .error (.unsupported c.kind) ∧
    (s.serve (.unicast sender payload)).Emits s none := by
  have hr : s.reads payload = some c := decode_eq_ok.mp h
  have hunicast := s.unicast_emits sender payload
  rw [hr] at hunicast
  cases c with
  | rpc name args => exact absurd rfl hc
  | custom | customResponse =>
    refine ⟨?_, hunicast⟩
    simp [serve, receiveUnicast, h]

/-- The two channels agree on every payload: on what they refuse and why, and on calls, whose
results they make known in events of their own. Of the other commands, which come by broadcast
only, a response makes its values known, whatever job it is for, and a custom command makes nothing
known. -/
theorem dispatch_agrees (view : View) (sender : PeerId) (payload : Bytes) :
    let limit := s.interpreter.maxPayload
    let broadcast := s.serve (.broadcast view payload)
    let unicast := s.serve (.unicast sender payload)
    (limit < payload.length ∨ (∃ e, PeerMesh.decode payload = .error e) →
      (∃ e, decodeBounded limit payload = .error e ∧ broadcast.result = .error (.codec e) ∧
        unicast.result = .error (.codec e)) ∧
      broadcast.Emits s none ∧ unicast.Emits s none) ∧
    (payload.length ≤ limit → ∀ c, PeerMesh.decode payload = .ok c →
      match c with
      | .rpc name args =>
        let result := s.interpreter.registry.invoke name args
        broadcast.result = .ok () ∧ unicast.result = .ok () ∧
        broadcast.Emits s (some (.broadcastResult result c)) ∧
        unicast.Emits s (some (.unicastResult result sender c))
      | .custom .. =>
        broadcast.events = [] ∧ (∀ e, broadcast.result ≠ .error (.codec e)) ∧
        unicast.result = .error (.unsupported .custom) ∧ unicast.Emits s none
      | .customResponse _ value =>
        broadcast.result = .ok () ∧ broadcast.Emits s (some (.broadcastCustomResult value c)) ∧
        unicast.result = .error (.unsupported .customResponse) ∧ unicast.Emits s none) := by
  refine ⟨fun hrefused => ?_, fun hlen c hc => ?_⟩
  · obtain ⟨e, he, hd⟩ := s.decode_refused hrefused
    obtain ⟨hbroadcast, hunicast, hemits⟩ := s.refused_alike view sender hd
    exact ⟨⟨e, he, hbroadcast, hunicast⟩, hemits⟩
  · have hd : s.decode payload = .ok c := s.decode_eq_of_le hlen hc
    cases c with
    | rpc name args => exact s.call_alike view sender hd
    | custom job key mapper shape =>
      obtain ⟨hevents, hreadable⟩ := s.custom_broadcast view hd
      exact ⟨hevents, hreadable, s.unicast_unsupported sender hd (by simp [Command.kind])⟩
    | customResponse job value =>
      obtain ⟨hresult, hemits⟩ := s.response_broadcast view hd
      exact ⟨hresult, hemits, s.unicast_unsupported sender hd (by simp [Command.kind])⟩

/-- A call with too many arguments is answered through both channels, and text that is no envelope
through neither. -/
theorem dispatch_agrees_ping :
    let ping : Command := .rpc "ping" [.unit]
    let wrong : Outcome := .error (.badArgumentCount 0 1)
    (counting.serve (.broadcast (fun _ => []) ping.enveloped)).events =
      [.broadcastResult wrong ping] ∧
    (counting.serve (.unicast ⟨"b"⟩ ping.enveloped)).events =
      [.unicastResult wrong ⟨"b"⟩ ping] ∧
    (counting.serve (.unicast ⟨"b"⟩ (utf8 "ping"))).result =
      .error (.codec .notAnEnvelope) ∧
    (counting.serve (.broadcast (fun _ => []) (utf8 "ping"))).result =
      .error (.codec .notAnEnvelope) := by
  intro ping wrong
  have hping : PeerMesh.decode ping.enveloped = .ok ping :=
    decode_bytes_of_le (by decide) (by simp [ping, Command.Canonical, Val.Canonical]) (by decide)
  have hnone : openEnvelope? (utf8 "ping") = none :=
    Option.isNone_iff_eq_none.mp (by decide +kernel)
  have hwrong : PeerMesh.decode (utf8 "ping") = .error .notAnEnvelope := by
    simp [PeerMesh.decode, hnone]
  obtain ⟨-, hcall⟩ := counting.dispatch_agrees (fun _ => []) ⟨"b"⟩ ping.enveloped
  obtain ⟨-, -, hbroadcast, hunicast⟩ := hcall (by decide +kernel) ping hping
  obtain ⟨hrefuse, -⟩ := counting.dispatch_agrees (fun _ => []) ⟨"b"⟩ (utf8 "ping")
  obtain ⟨⟨e, he, hb, hu⟩, -⟩ := hrefuse (.inr ⟨_, hwrong⟩)
  have hsame : e = .notAnEnvelope := by
    rw [decodeBounded, if_neg (by decide +kernel), hwrong] at he
    exact (Except.error.inj he).symm
  rw [hsame] at hb hu
  exact ⟨hbroadcast.events, hunicast.events, hu, hb⟩

end Site

end PeerMesh
