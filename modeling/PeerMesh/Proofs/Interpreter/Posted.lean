import PeerMesh.Proofs.Interpreter.Passes

namespace PeerMesh

variable {ν σ : Type}

namespace Site

def Move.remarks (link : Link σ) : Move ν σ → Site ν → σ × List Attempt → List (Remark ν)
  | receiveBroadcast view payload, s, _ => (s.receiveBroadcast view payload).2.2
  | receiveUnicast sender payload, s, _ => (s.receiveUnicast sender payload).2.2
  | emit emitter job key v, s, _ =>
    if emitter < s.interpreter.emitters.length then
      [.emitted emitter job key v (s.interpreter.emit emitter job key v).1]
    else []
  | deliver view d, s, w => (s.pump link.recorded view d w).2.1
  | _, _, _ => []

def Move.posted (link : Link σ) (m : Move ν σ) (s : Site ν) (w : σ × List Attempt) :
    List Attempt :=
  if m.call?.isSome then [] else (m.perform link s w).2.2.2.drop w.2.length

def Move.concernsPump : Move ν σ → Bool
  | run => true
  | forward => true
  | stop => true
  | _ => false

variable (link : Link σ) (s : Site ν) (w : σ × List Attempt)

theorem Move.posted_of_call {m : Move ν σ} {call : Call ν} (h : m.call? = some call) :
    m.posted link s w = [] := by
  rw [posted, h]
  rfl

theorem Move.posted_of_append {m : Move ν σ} (h : m.call? = none) {sent : List Attempt}
    (hlog : (m.perform link s w).2.2.2 = w.2 ++ sent) : m.posted link s w = sent := by
  rw [posted, h, hlog, List.drop_left]
  rfl

theorem pump_passes (view : View) (d : Delivery)
    (hkept : (s.pump link.recorded view d w).1.interpreter.pump = .ended →
      s.interpreter.outbox = []) :
    ∃ left sent, (s.pump link.recorded view d w).2.2.2 = w.2 ++ sent ∧
      s.interpreter.Passes (queuedIn (s.pump link.recorded view d w).2.1) left sent
        (s.pump link.recorded view d w).1.interpreter ∧
      (s.interpreter.pump = .idle → left = []) := by
  rw [pump_eq] at hkept ⊢
  split
  · next hserves =>
    have hrunning : s.interpreter.pump ≠ .idle := by
      intro hidle
      rw [hidle] at hserves
      cases d <;> cases hserves
    rw [if_pos hserves] at hkept
    cases hitem : (d.arrival view).item? with
    | some x =>
      obtain ⟨left, sent, hlog, hpass, -⟩ := (s.serve x).after.interpreter.settle_passes link w
      have hserve := Interpreter.Passes.queue (s.serve_outbox x) (s.serve_resembles x).maxPayload
      have hboth := hserve.trans hpass
      rw [List.append_nil] at hboth
      exact ⟨_, sent, hlog, hboth, fun hidle => absurd hidle hrunning⟩
    | none =>
      rw [hitem] at hkept
      have hend := hkept ∘ (s.interpreter.pump_setPump _).trans
      exact ⟨[], [], (List.append_nil _).symm, s.interpreter.setPump_passes _ hend, fun _ => rfl⟩
  · exact ⟨[], [], (List.append_nil _).symm, .still rfl rfl, fun _ => rfl⟩

/-- A move passes responses on, unless it loses them as the pump ends. Before the pump is started,
none leaves. -/
theorem Move.perform_passes (m : Move ν σ)
    (hkept : (m.perform link s w).2.1.interpreter.pump = .ended → s.interpreter.outbox = []) :
    ∃ left, s.interpreter.Passes (queuedIn (m.remarks link s w)) left (m.posted link s w)
        (m.perform link s w).2.1.interpreter ∧
      (s.interpreter.pump = .idle → m.concernsPump = false → left = []) := by
  cases m with
  | broadcast | unicast | custom | mapReduce =>
    obtain ⟨clock, ids, hframe⟩ := Call.perform_frame link.recorded _ s w
    rw [posted_of_call link s w rfl, perform_of_call link rfl, hframe]
    exact ⟨[], .still rfl rfl, fun _ _ => rfl⟩
  | receiveBroadcast view payload =>
    rw [posted_of_append link s w rfl (List.append_nil _).symm]
    exact ⟨[], .queue (receiveBroadcast_outbox view payload)
      (s.receiveBroadcast_resembles view payload).maxPayload, fun _ _ => rfl⟩
  | receiveUnicast sender payload =>
    have hsame := s.receiveUnicast_interpreter sender payload
    rw [posted_of_append link s w rfl (List.append_nil _).symm, remarks,
      queuedIn_of_isInert (s.isInert_receiveUnicast sender payload)]
    exact ⟨[], .still (congrArg (·.outbox) hsame) (congrArg (·.maxPayload) hsame),
      fun _ _ => rfl⟩
  | emit emitter job key v =>
    rw [posted_of_append link s w rfl (List.append_nil _).symm, remarks, perform]
    split
    · exact ⟨[], .queue (s.interpreter.outbox_emit emitter job key v)
        (Interpreter.Resembles.emit s.interpreter emitter job key v).maxPayload, fun _ _ => rfl⟩
    · next hn =>
      rw [Interpreter.emit_of_le (Nat.not_lt.mp hn)]
      exact ⟨[], .still rfl rfl, fun _ _ => rfl⟩
  | run =>
    obtain ⟨left, sent, hlog, hpass⟩ := s.interpreter.run_passes link w
    rw [posted_of_append link s w (m := .run) rfl hlog]
    exact ⟨left, hpass, fun _ h => by cases h⟩
  | deliver view d =>
    obtain ⟨left, sent, hlog, hpass, hleft⟩ := s.pump_passes link w view d hkept
    rw [posted_of_append link s w (m := .deliver view d) rfl hlog]
    exact ⟨left, hpass, fun h _ => hleft h⟩
  | forward =>
    obtain ⟨left, sent, hlog, hpass⟩ := s.interpreter.forward_passes link w
    rw [posted_of_append link s w (m := .forward) rfl hlog]
    exact ⟨left, hpass, fun _ h => by cases h⟩
  | settle =>
    obtain ⟨left, sent, hlog, hpass, hleft⟩ := s.interpreter.settle_passes link w
    rw [posted_of_append link s w (m := .settle) rfl hlog]
    exact ⟨left, hpass, fun h _ => hleft h⟩
  | stop =>
    rw [posted_of_append link s w rfl (List.append_nil _).symm]
    exact ⟨[], .still (hkept rfl).symm rfl, fun _ _ => rfl⟩
  | disturb store hub world =>
    rw [posted_of_append link s w rfl (List.append_nil _).symm]
    exact ⟨[], .still rfl rfl, fun _ _ => rfl⟩

theorem Turn.drive_ne_idle (t : Turn ν σ) {p : Pump} (h : p ≠ .idle) : t.drive p ≠ .idle := by
  rw [drive]
  split
  · exact h
  · split
    · exact Pump.noConfusion
    · split
      · exact h
      · split
        · exact Pump.close_ne_idle h _
        · exact h

theorem Turn.drive_idle_ne_ended {t : Turn ν σ} (h : t.isStop = false) :
    t.drive .idle ≠ .ended := by
  cases hrun : t.isRun with
  | true =>
    cases eq_run_of_isRun hrun
    exact Pump.noConfusion
  | false =>
    rw [(drive_idle hrun h).1]
    exact Pump.noConfusion

theorem Move.isRun_of_concernsPump {m : Move ν σ} (h : m.concernsPump = false) :
    (Turn.move m).isRun = false ∧ (Turn.move m).isStop = false := by
  cases m with
  | run | stop => cases h
  | _ => exact ⟨rfl, rfl⟩

theorem Turn.drive_ended (t : Turn ν σ) : t.drive .ended = .ended := by
  have h := t.drive_serving fun _ => false
  have hended : Pump.serving (fun _ => false) = .ended := rfl
  rw [hended] at h
  rw [h]
  exact (Pump.serving_eq_ended _).mpr fun _ => Bool.false_and _

theorem Move.remarks_of_ended (m : Move ν σ) (h : s.interpreter.pump = .ended) :
    queuedIn (m.remarks link s w) = [] := by
  cases m with
  | broadcast | unicast | custom | mapReduce | run | forward | settle | stop | disturb => rfl
  | receiveBroadcast view payload => exact serve_of_ended h (.broadcast view payload)
  | receiveUnicast sender payload => exact serve_of_ended h (.unicast sender payload)
  | emit emitter job key v =>
    rw [remarks, Interpreter.emit_of_ended h]
    split
    · rfl
    · rfl
  | deliver view d =>
    rw [remarks, pump_eq, h, if_neg (by cases d <;> exact Bool.false_ne_true)]
    rfl

variable {s}

theorem Move.perform_of_ended (m : Move ν σ) (h : s.interpreter.pump = .ended)
    (ho : s.interpreter.outbox = []) :
    (m.perform link s w).2.1.interpreter.pump = .ended ∧
      (m.perform link s w).2.1.interpreter.outbox = [] ∧ m.posted link s w = [] := by
  have hpump : (m.perform link s w).2.1.interpreter.pump = (Turn.move m).drive _ :=
    (Turn.move m).perform_pump link s w
  obtain ⟨left, hpass, -⟩ := m.perform_passes link s w fun _ => ho
  have hkept := hpass.kept
  rw [ho, m.remarks_of_ended link s w h, List.append_nil, eq_comm, List.append_eq_nil_iff] at hkept
  obtain ⟨rfl, houtbox⟩ := hkept
  exact ⟨hpump.trans (by rw [h, Turn.drive_ended]), houtbox, List.map_eq_nil_iff.mp hpass.sent⟩

theorem outbox_of_pump {view : View} {d : Delivery} (hbefore : s.interpreter.pump ≠ .ended)
    (h : (s.pump link.recorded view d w).1.interpreter.pump = .ended) :
    (s.pump link.recorded view d w).1.interpreter.outbox = [] := by
  rw [pump_eq] at h ⊢
  split at h
  · next hserves =>
    rw [if_pos hserves]
    cases hitem : (d.arrival view).item? with
    | some x =>
      rw [hitem] at h
      have hsame := (Interpreter.pump_settle _ link.recorded w).trans (s.serve_resembles x).pump
      exact absurd (hsame.symm.trans h) hbefore
    | none =>
      rw [hitem] at h
      dsimp only at h ⊢
      rw [Interpreter.pump_setPump] at h
      rw [h]
      rfl
  · exact absurd h hbefore

theorem Move.outbox_of_ended (m : Move ν σ)
    (hdrained : s.interpreter.pump = .ended → s.interpreter.outbox = [])
    (h : (m.perform link s w).2.1.interpreter.pump = .ended) :
    (m.perform link s w).2.1.interpreter.outbox = [] := by
  by_cases hended : s.interpreter.pump = .ended
  · exact (m.perform_of_ended link w hended (hdrained hended)).2.1
  · have hpump : (m.perform link s w).2.1.interpreter.pump = (Turn.move m).drive _ :=
      (Turn.move m).perform_pump link s w
    cases m with
    | broadcast | unicast | custom | mapReduce | receiveBroadcast | receiveUnicast | emit | forward
      | settle | disturb => exact absurd (hpump.symm.trans h) hended
    | run =>
      have hrun := (s.interpreter.pump_run link.recorded w).symm.trans h
      split at hrun
      · cases hrun
      · exact absurd hrun hended
    | deliver view d => exact outbox_of_pump link w hended h
    | stop => rfl

end Site

end PeerMesh
