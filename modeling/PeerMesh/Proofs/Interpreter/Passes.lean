import PeerMesh.Proofs.Interpreter.Loop
import PeerMesh.Proofs.Interpreter.Named

namespace PeerMesh

def VersionVector.advanced (c : VersionVector) : Nat → VersionVector
  | 0 => c
  | n + 1 => (c.advanced n).commit (c.advanced n).peek

namespace Advances

theorem isPrefix {start : VersionVector × List Attempt} {c : VersionVector} {log : List Attempt}
    (h : Advances start c log) : start.2 <+: log := by
  induction h with
  | here => exact List.prefix_rfl
  | accepted _ payload ih | refused _ payload e ih => exact ih.trans (List.prefix_append _ _)

variable {start c : VersionVector} {log : List Attempt}

theorem clock (h : Advances (start, []) c log) : c = start.advanced (acceptedCount log) := by
  induction h with
  | here => rfl
  | accepted _ payload ih =>
    rw [acceptedCount_append_accepted, VersionVector.advanced, ← ih]
  | refused _ payload e ih => rw [acceptedCount_append_refused, ← ih]

theorem token_append (h : Advances (start, []) c log) (payload : Bytes)
    (r : Except TransportError Unit) {before after : List Attempt} {a : Attempt}
    (hbefore : ∀ after, log = before ++ a :: after →
      a.token = (start.advanced (acceptedCount before)).peek)
    (ha : log ++ [⟨payload, c.peek, r⟩] = before ++ a :: after) :
    a.token = (start.advanced (acceptedCount before)).peek := by
  obtain rfl | ⟨init, b, rfl⟩ := List.eq_nil_or_concat after
  · obtain ⟨rfl, hlast⟩ := List.append_inj' ha rfl
    cases hlast
    exact congrArg VersionVector.peek h.clock
  · rw [List.concat_eq_append, ← List.cons_append, ← List.append_assoc] at ha
    exact hbefore init (List.append_inj' ha rfl).1

/-- The token of an attempt depends on those that were accepted before it, and on nothing else. -/
theorem token (h : Advances (start, []) c log) {before after : List Attempt} {a : Attempt}
    (hlog : log = before ++ a :: after) :
    a.token = (start.advanced (acceptedCount before)).peek := by
  induction h generalizing after with
  | here => simp at hlog
  | accepted h payload ih => exact h.token_append payload _ (fun _ => ih) hlog
  | refused h payload e ih => exact h.token_append payload _ (fun _ => ih) hlog

end Advances

theorem Pump.close_ne_idle {p : Pump} (h : p ≠ idle) (c : Channel) : p.close c ≠ idle := by
  cases p with
  | idle => exact absurd rfl h
  | ended => cases c <;> exact Pump.noConfusion
  | running broadcast unicast =>
    cases broadcast <;> cases unicast <;> cases c <;> exact Pump.noConfusion

namespace Interpreter

variable {i : Interpreter}

theorem emit_of_le {n : Nat} (h : i.emitters.length ≤ n) (job : JobId) (key : String) (v : Val) :
    i.emit n job key v = (false, i) := by
  rw [emit, List.getElem?_eq_none h]

theorem emit_of_ended (h : i.pump = .ended) (n : Nat) (job : JobId) (key : String) (v : Val) :
    (i.emit n job key v).1 = false := by
  rw [emit]
  split
  · rfl
  · split
    · rfl
    · simp [isOpen, h]

end Interpreter

variable {ν σ : Type}

theorem Script.run_of_ended (view : View) (emitter : Nat) (job : JobId) (script : Script)
    {s : Site ν} (h : s.interpreter.pump = .ended) :
    queuedIn (script.run view emitter job s).2.2 = [] := by
  induction script generalizing s with
  | done | fail message | panic => rfl
  | emit target key v next ih =>
    have hstill : (s.interpreter.emit emitter target key v).2.pump = .ended :=
      (Interpreter.Resembles.emit s.interpreter emitter target key v).pump.trans h
    have hnone := ih (s.interpreter.emit emitter target key v).1
      (s := { s with interpreter := (s.interpreter.emit emitter target key v).2 }) hstill
    rw [run]
    dsimp only
    rw [queuedIn_cons, Interpreter.emit_of_ended h]
    rw [Interpreter.emit_of_ended h] at hnone
    exact hnone
  | resolve key next ih =>
    rw [run]
    split
    · rfl
    · exact ih _ h
  | insert key v next ih | insertRecipe key r next ih | remove key next ih => exact ih h
  | retain slot next ih => exact ih h

namespace Site

variable {s : Site ν}

theorem serve_outbox (s : Site ν) (x : Intake) :
    (s.serve x).after.interpreter.outbox =
      s.interpreter.outbox ++ queuedIn (s.serve x).remarks := by
  cases x with
  | broadcast view payload => exact receiveBroadcast_outbox view payload
  | unicast sender payload =>
    rw [serve]
    dsimp only
    rw [s.receiveUnicast_interpreter sender payload,
      queuedIn_of_isInert (s.isInert_receiveUnicast sender payload), List.append_nil]

theorem serve_of_ended (h : s.interpreter.pump = .ended) (x : Intake) :
    queuedIn (s.serve x).remarks = [] := by
  cases x with
  | broadcast view payload =>
    obtain ⟨job, key, mapper, shape, hd⟩ | hd := s.decode_cases payload
    · have hremarks := congrArg (fun p => queuedIn p.2) (receiveBroadcast_custom view hd)
      refine hremarks.trans ?_
      obtain ⟨-, store, hc⟩ | ⟨-, script, store, hc⟩ :=
        s.receiveCustom_cases view job key mapper shape
      · rw [hc]
        rfl
      · rw [hc]
        exact script.run_of_ended view _ job h
    · exact queuedIn_of_isInert (isInert_receiveBroadcast view hd).2
  | unicast sender payload => exact queuedIn_of_isInert (s.isInert_receiveUnicast sender payload)

end Site

/-- The responses that left were attempted, in their order, but for those that do not fit. What was
there before or was queued since, and did not leave, is still there. -/
structure Interpreter.Passes (i : Interpreter) (queued left : List Command) (sent : List Attempt)
    (j : Interpreter) : Prop where
  limit : j.maxPayload = i.maxPayload
  kept : i.outbox ++ queued = left ++ j.outbox
  sent : sent.map Attempt.payload =
    (left.filter (Command.fits i.maxPayload)).map Command.enveloped

namespace Interpreter

namespace Passes

variable {i j k : Interpreter} {queued queued' left left' : List Command}
  {sent sent' : List Attempt}

theorem queue (ho : j.outbox = i.outbox ++ queued) (hl : j.maxPayload = i.maxPayload) :
    Passes i queued [] [] j :=
  ⟨hl, ho.symm, rfl⟩

theorem still (ho : j.outbox = i.outbox) (hl : j.maxPayload = i.maxPayload) :
    Passes i [] [] [] j :=
  queue (ho.trans (List.append_nil _).symm) hl

theorem trans (h : Passes i queued left sent j) (h' : Passes j queued' left' sent' k) :
    Passes i (queued ++ queued') (left ++ left') (sent ++ sent') k where
  limit := h'.limit.trans h.limit
  kept := by
    rw [← List.append_assoc, h.kept, List.append_assoc, h'.kept, List.append_assoc]
  sent := by
    rw [List.map_append, h.sent, h'.sent, h.limit, List.filter_append, List.map_append]

theorem sent_of_nil (h : Passes i queued left sent j) (hi : i.outbox = []) (hj : j.outbox = []) :
    sent.map Attempt.payload =
      (queued.filter (Command.fits i.maxPayload)).map Command.enveloped := by
  have hkept := h.kept
  rw [hi, hj, List.nil_append, List.append_nil] at hkept
  rw [h.sent, hkept]

end Passes

variable (link : Link σ) (i : Interpreter) (w : σ × List Attempt)

theorem outbox_settle (link : Link σ) (w : σ) (h : i.pump ≠ .idle)
    (hended : i.pump = .ended → i.outbox = []) : (i.settle link w).1.outbox = [] := by
  rw [settle]
  cases hp : i.pump with
  | idle => exact absurd hp h
  | ended => exact hended hp
  | running broadcast unicast =>
    obtain ⟨clock, hframe⟩ := i.flush_frame link w
    dsimp only
    rw [hframe]

theorem sendBroadcast_sent (c : Command) :
    ∃ sent, (i.sendBroadcast link.recorded c w).2.2.2 = w.2 ++ sent ∧
      sent.map Attempt.payload =
        ([c].filter (Command.fits i.maxPayload)).map Command.enveloped := by
  obtain ⟨e, hp, h⟩ | ⟨bs, e, v, hp, hb, h⟩ | ⟨bs, v, hp, hb, h⟩ :=
    i.sendBroadcast_cases link.recorded c w
  · refine ⟨[], by rw [h, List.append_nil], ?_⟩
    rw [List.filter_cons_of_neg (by simp [fits_eq_false hp])]
    rfl
  · obtain ⟨hfits, rfl⟩ := payload_eq_ok.mp hp
    refine ⟨_, by rw [h, Link.log_of_broadcast hb], ?_⟩
    rw [List.filter_cons_of_pos hfits]
    rfl
  · obtain ⟨hfits, rfl⟩ := payload_eq_ok.mp hp
    refine ⟨_, by rw [h, Link.log_of_broadcast hb], ?_⟩
    rw [List.filter_cons_of_pos hfits]
    rfl

theorem forward_passes :
    ∃ left sent, (i.forward link.recorded w).2.2 = w.2 ++ sent ∧
      i.Passes [] left sent (i.forward link.recorded w).1 := by
  obtain ⟨clock, hframe⟩ := i.forward_frame link.recorded w
  rw [hframe, forward]
  cases h : i.outbox with
  | nil => exact ⟨[], [], (List.append_nil _).symm, .still h.symm rfl⟩
  | cons c rest =>
    obtain ⟨sent, hlog, hsent⟩ := { i with outbox := rest }.sendBroadcast_sent link w c
    exact ⟨[c], sent, hlog, rfl, by rw [h]; exact List.append_nil _, hsent⟩

theorem flush_passes :
    ∃ sent, (i.flush link.recorded w).2.2 = w.2 ++ sent ∧
      i.Passes [] i.outbox sent (i.flush link.recorded w).1 := by
  obtain ⟨n, hn⟩ : ∃ n, i.outbox.length = n := ⟨_, rfl⟩
  induction n generalizing i w with
  | zero =>
    have hnil := List.eq_nil_of_length_eq_zero hn
    rw [i.flush_of_nil link.recorded w hnil, hnil]
    exact ⟨[], (List.append_nil _).symm, .still rfl rfl⟩
  | succ n ih =>
    obtain ⟨c, rest, h⟩ := List.exists_cons_of_length_eq_add_one hn
    obtain ⟨left, sent, hlog, hpass⟩ := i.forward_passes link w
    have hlen : (i.forward link.recorded w).1.outbox.length = n := by
      rw [outbox_forward, List.length_tail, hn, Nat.add_sub_cancel]
    obtain ⟨sent', hlog', hpass'⟩ := ih _ (i.forward link.recorded w).2 hlen
    rw [i.flush_of_cons link.recorded w h]
    refine ⟨sent ++ sent', by rw [hlog', hlog, List.append_assoc], ?_⟩
    have hall : i.outbox = left ++ (i.forward link.recorded w).1.outbox := by
      rw [← hpass.kept, List.append_nil]
    rw [hall]
    exact hpass.trans hpass'

theorem settle_passes :
    ∃ left sent, (i.settle link.recorded w).2.2 = w.2 ++ sent ∧
      i.Passes [] left sent (i.settle link.recorded w).1 ∧ (i.pump = .idle → left = []) := by
  rw [settle]
  cases h : i.pump with
  | idle | ended => exact ⟨[], [], (List.append_nil _).symm, .still rfl rfl, fun _ => rfl⟩
  | running broadcast unicast =>
    obtain ⟨sent, hlog, hpass⟩ := i.flush_passes link w
    exact ⟨i.outbox, sent, hlog, hpass, Pump.noConfusion⟩

theorem run_passes :
    ∃ left sent, (i.run link.recorded w).2.2.2 = w.2 ++ sent ∧
      i.Passes [] left sent (i.run link.recorded w).2.1 := by
  rw [run]
  split
  · obtain ⟨sent, hlog, hpass⟩ := { i with pump := .running true true }.flush_passes link w
    exact ⟨i.outbox, sent, hlog, hpass.limit, hpass.kept, hpass.sent⟩
  · exact ⟨[], [], (List.append_nil _).symm, .still rfl rfl⟩

theorem setPump_passes (p : Pump) (h : p = .ended → i.outbox = []) :
    i.Passes [] [] [] (i.setPump p) := by
  cases p with
  | idle | running => exact .still rfl rfl
  | ended => exact .still (h rfl).symm rfl

end Interpreter

end PeerMesh
