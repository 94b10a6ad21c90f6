import PeerMesh.Proofs.Interpreter.Calls

namespace PeerMesh

open Json (Written)

variable {ν σ : Type}

namespace Site

theorem decode_of_le {t : Site ν} {c : Command} (hc : c.Canonical)
    (hfit : c.unfit? t.interpreter.maxPayload = none) (hle : c.nesting ≤ Written.depthLimit) :
    t.decode c.enveloped = .ok c := by
  obtain ⟨hf, hlen⟩ := Command.unfit?_eq_none.mp hfit
  rw [decode, decodeBounded, if_neg (Nat.not_lt.mpr hlen), Command.enveloped,
    decode_bytes_of_le hf hc hle]

theorem decode_of_lt {t : Site ν} {c : Command}
    (hfit : c.unfit? t.interpreter.maxPayload = none) (hlt : Written.depthLimit < c.nesting) :
    t.decode c.enveloped = .error (.codec .notAnEnvelope) := by
  obtain ⟨hf, hlen⟩ := Command.unfit?_eq_none.mp hfit
  rw [decode, decodeBounded, if_neg (Nat.not_lt.mpr hlen), Command.enveloped,
    decode_bytes_of_lt hf hlt]

theorem receiveBroadcast_eq_codec {t : Site ν} {view : View} {payload : Bytes} {e : CodecError} :
    (t.receiveBroadcast view payload).1 = .error (.codec e) ↔
      t.decode payload = .error (.codec e) := by
  rw [receiveBroadcast]
  cases t.decode payload with
  | error e' => simp
  | ok c =>
    cases c with
    | custom job key mapper shape =>
      dsimp only
      split
      · simp
      · simp
    | rpc | customResponse => simp

theorem receiveUnicast_eq_codec {t : Site ν} {sender : PeerId} {payload : Bytes}
    {e : CodecError} :
    (t.receiveUnicast sender payload).1 = .error (.codec e) ↔
      t.decode payload = .error (.codec e) := by
  rw [receiveUnicast]
  cases t.decode payload with
  | error e' => simp
  | ok c => cases c <;> simp

end Site

namespace Interpreter

variable {i j : Interpreter} {link : Link σ} {w : σ} {log : List Handover} {sent : Sent}
  {v : σ × List Handover} {name : String} {args : List Val}

theorem executeBroadcast_ok
    (h : i.executeBroadcast link.observed name args (w, log) = (.ok sent, j, v)) :
    sent.command = .rpc name args ∧ sent.command.unfit? i.maxPayload = none ∧
      v.2 = log ++ [⟨sent.command.enveloped, .broadcast i.clock.peek, .ok ()⟩] := by
  rw [executeBroadcast] at h
  split at h
  · cases h
  · obtain ⟨e, -, hs⟩ | ⟨e, v', -, -, hs⟩ | ⟨v', hu, hb, hs⟩ :=
      i.sendBroadcast_handed link.observed (.rpc name args) (w, log)
    · rw [hs] at h
      cases h
    · rw [hs] at h
      cases h
    · rw [hs] at h
      cases h
      exact ⟨rfl, hu, Link.log_of_hand hb⟩

theorem executeUnicast_ok {target : PeerId}
    (h : i.executeUnicast link.observed name args target (w, log) = (.ok sent, v)) :
    sent.command = .rpc name args ∧ sent.command.unfit? i.maxPayload = none ∧
      v.2 = log ++ [⟨sent.command.enveloped, .unicast target, .ok ()⟩] := by
  rw [executeUnicast] at h
  split at h
  · cases h
  · obtain ⟨e, -, hs⟩ | ⟨e, v', -, -, hs⟩ | ⟨v', hu, hb, hs⟩ :=
      i.sendUnicast_handed link.observed (.rpc name args) (w, log) target
    · rw [hs] at h
      cases h
    · rw [hs] at h
      cases h
    · rw [hs] at h
      cases h
      exact ⟨rfl, hu, Link.log_of_hand hb⟩

/-- Of the calls that are acknowledged, a receiver with the same limit cannot read those whose
containers nest more than 127 deep, and only those. -/
theorem acknowledged_readable {t : Site ν} (hlimit : t.interpreter.maxPayload = i.maxPayload)
    (hargs : ∀ v ∈ args, v.Canonical) (link : Link σ) (w : σ) (log : List Handover) :
    (∀ sent j v, i.executeBroadcast link.observed name args (w, log) = (.ok sent, j, v) →
      ∃ h, v.2 = log ++ [h] ∧ encode sent.command = .ok h.payload ∧
        (sent.command.nesting ≤ 127 → t.decode h.payload = .ok sent.command) ∧
        ∀ view, (∃ e, (t.receiveBroadcast view h.payload).1 = .error (.codec e)) ↔
          127 < sent.command.nesting) ∧
    (∀ target sent v,
      i.executeUnicast link.observed name args target (w, log) = (.ok sent, v) →
      ∃ h, v.2 = log ++ [h] ∧ encode sent.command = .ok h.payload ∧
        (sent.command.nesting ≤ 127 → t.decode h.payload = .ok sent.command) ∧
        ∀ sender, (∃ e, (t.receiveUnicast sender h.payload).1 = .error (.codec e)) ↔
          127 < sent.command.nesting) := by
  have hread : ∀ c : Command, c = .rpc name args → c.unfit? i.maxPayload = none →
      encode c = .ok c.enveloped ∧ (c.nesting ≤ 127 → t.decode c.enveloped = .ok c) ∧
        ((∃ e, t.decode c.enveloped = .error (.codec e)) ↔ 127 < c.nesting) := by
    rintro c rfl hfit
    rw [← hlimit] at hfit
    have hc : (Command.rpc name args).Canonical := hargs
    refine ⟨encode_of_isFinite (Command.unfit?_eq_none.mp hfit).1, ?_, ?_⟩
    · exact fun hle => Site.decode_of_le hc hfit hle
    · constructor
      · rintro ⟨e, he⟩
        by_contra hle
        rw [Site.decode_of_le hc hfit (Nat.not_lt.mp hle)] at he
        cases he
      · exact fun hlt => ⟨_, Site.decode_of_lt hfit hlt⟩
  constructor
  · intro sent j v h
    obtain ⟨hcommand, hfit, hlog⟩ := executeBroadcast_ok h
    obtain ⟨henc, hle, herr⟩ := hread _ hcommand hfit
    refine ⟨_, hlog, henc, hle, fun view => ?_⟩
    simpa only [Site.receiveBroadcast_eq_codec] using herr
  · intro target sent v h
    obtain ⟨hcommand, hfit, hlog⟩ := executeUnicast_ok h
    obtain ⟨henc, hle, herr⟩ := hread _ hcommand hfit
    refine ⟨_, hlog, henc, hle, fun sender => ?_⟩
    simpa only [Site.receiveUnicast_eq_codec] using herr

def nested : Nat → Val
  | 0 => .unit
  | n + 1 => .list [nested n]

theorem nesting_nested (n : Nat) : (nested n).nesting = 2 * n := by
  induction n with
  | zero => rfl
  | succ n ih =>
    rw [nested, Val.nesting, Val.nestingItems, Val.nestingItems, ih, Nat.max_zero, Nat.mul_succ]

theorem nesting_put (n : Nat) : (Command.rpc "put" [nested n]).nesting = 2 * n + 3 := by
  rw [Command.nesting, Val.nestingItems, Val.nestingItems, nesting_nested, Nat.max_zero]

theorem canonical_nested (n : Nat) : (nested n).Canonical := by
  induction n with
  | zero => trivial
  | succ n ih => exact ⟨ih, trivial⟩

def storing (peer : PeerId) : Interpreter where
  peer := peer
  protocol := "interpreter"
  registry := Registry.empty.register "put" ⟨1, fun _ => .value .unit⟩
  mappers := .empty
  maxPayload := 1048576
  clock := .ofOwner peer
  jobIds := .ofStem peer.id
  pump := .idle
  outbox := []
  emitters := []

def accepting : Link Unit where
  broadcast _ _ w := (.ok (), w)
  unicast _ _ w := (.ok (), w)

variable (i log name args) in
theorem executeBroadcast_accepting (hvalid : i.registry.validate name args = .ok ())
    (hfit : (Command.rpc name args).unfit? i.maxPayload = none) :
    i.executeBroadcast accepting.observed name args ((), log) =
      (.ok ⟨.rpc name args, some i.clock.peek, none⟩,
        { i with clock := i.clock.commit i.clock.peek }, (),
        log ++ [⟨(Command.rpc name args).enveloped, .broadcast i.clock.peek, .ok ()⟩]) := by
  rw [executeBroadcast, hvalid]
  obtain ⟨e, hu, -⟩ | ⟨e, v, -, hb, -⟩ | ⟨v, -, hb, h⟩ :=
    i.sendBroadcast_handed accepting.observed (.rpc name args) ((), log)
  · rw [hfit] at hu
    cases hu
  · cases hb
  · cases hb
    exact h

/-- A peer puts the unit in a list, and the other one reads it. -/
theorem acknowledged_readable_put :
    (∀ v ∈ [nested 1], v.Canonical) ∧ ∃ sent j v h,
      (storing ⟨"a"⟩).executeBroadcast accepting.observed "put" [nested 1] ((), []) =
        (.ok sent, j, v) ∧ v.2 = [h] ∧
      (⟨storing ⟨"b"⟩, .empty, .empty⟩ : Site Unit).decode h.payload = .ok sent.command := by
  have hargs : ∀ v ∈ [nested 1], v.Canonical := by
    simpa using canonical_nested 1
  have hsent := executeBroadcast_accepting (storing ⟨"a"⟩) [] "put" [nested 1] rfl
    (by decide +kernel)
  obtain ⟨hb, -⟩ := acknowledged_readable (i := storing ⟨"a"⟩)
    (t := ⟨storing ⟨"b"⟩, .empty, (.empty : Hub Unit)⟩) rfl hargs accepting () []
  obtain ⟨h, hlog, -, hread, -⟩ := hb _ _ _ hsent
  exact ⟨hargs, _, _, _, h, hsent, hlog, hread (by rw [nesting_put]; decide)⟩

/-- Inside of 63 lists the unit is sent, and the other peer makes nothing of it. -/
theorem unreadable_put :
    ∃ sent j h, (storing ⟨"a"⟩).executeBroadcast accepting.observed "put" [nested 63] ((), []) =
        (.ok sent, j, (), [h]) ∧ encode sent.command = .ok h.payload ∧
      (storing ⟨"b"⟩).maxPayload = (storing ⟨"a"⟩).maxPayload ∧
      ∀ view, ((⟨storing ⟨"b"⟩, .empty, .empty⟩ : Site Unit).receiveBroadcast view h.payload).1 =
        .error (.codec .notAnEnvelope) := by
  have hfit : (Command.rpc "put" [nested 63]).unfit? 1048576 = none := by decide +kernel
  have hsent := executeBroadcast_accepting (storing ⟨"a"⟩) [] "put" [nested 63] rfl hfit
  refine ⟨_, _, _, hsent, encode_of_isFinite (Command.unfit?_eq_none.mp hfit).1, rfl,
    fun view => ?_⟩
  refine Site.receiveBroadcast_eq_codec.mpr (Site.decode_of_lt hfit ?_)
  rw [nesting_put]
  decide

end Interpreter

end PeerMesh
