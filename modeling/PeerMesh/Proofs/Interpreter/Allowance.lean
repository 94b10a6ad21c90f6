import PeerMesh.Proofs.Interpreter.Uses

namespace PeerMesh

variable {ν σ : Type}

open Interpreter (Uses)

theorem Script.run_uses (view : View) {emitter : Nat} (job : JobId) (script : Script) {s : Site ν}
    (ho : s.interpreter.isOpen) (hn : emitter < s.interpreter.emitters.length) :
    Uses s.interpreter (script.run view emitter job s).2.2 []
      (script.run view emitter job s).2.1.interpreter := by
  induction script generalizing s with
  | done | fail message | panic => exact .here
  | emit target key v next ih =>
    have hrest := ih (s.interpreter.emit emitter target key v).1
      (s := { s with interpreter := (s.interpreter.emit emitter target key v).2 })
      ((Interpreter.Resembles.emit s.interpreter emitter target key v).isOpen.trans ho)
      (by rw [Interpreter.length_emitters_emit]; exact hn)
    exact (Uses.here.called hn target key v).trans hrest
  | resolve key next ih =>
    rw [run]
    split
    · exact .here
    · next v store _ => exact ih v (s := { s with store := store }) ho hn
  | insert key v next ih =>
    exact ih (s := { s with store := s.store.insert key (.value v) }) ho hn
  | insertRecipe key r next ih =>
    exact ih (s := { s with store := s.store.insert key (.recipe r) }) ho hn
  | remove key next ih => exact ih (s := { s with store := s.store.remove key }) ho hn
  | retain slot next ih =>
    have hkept : ∀ r ∈ [Remark.kept slot emitter job], Remark.isInert (ν := ν) r := by
      intro r hr
      cases List.mem_singleton.mp hr
      rfl
    exact (Uses.inert hkept ho).trans (ih ho hn)

namespace Interpreter

variable {i : Interpreter} (link : Link σ) (w : σ)

theorem forward_uses (ho : i.isOpen) :
    ∃ gone, Uses (ν := ν) i [] gone (i.forward link w).1 := by
  obtain ⟨clock, hframe⟩ := i.forward_frame link w
  rw [hframe]
  cases h : i.outbox with
  | nil => exact ⟨[], .still ho rfl h.symm⟩
  | cons c rest => exact ⟨[c], (Uses.here.left h).trans (.still ho rfl rfl)⟩

theorem flush_uses (ho : i.isOpen) : ∃ gone, Uses (ν := ν) i [] gone (i.flush link w).1 := by
  obtain ⟨n, hn⟩ : ∃ n, i.outbox.length = n := ⟨_, rfl⟩
  induction n generalizing i w with
  | zero =>
    rw [i.flush_of_nil link w (List.eq_nil_of_length_eq_zero hn)]
    exact ⟨[], .here⟩
  | succ n ih =>
    obtain ⟨c, rest, h⟩ := List.exists_cons_of_length_eq_add_one hn
    obtain ⟨gone, hforward⟩ := forward_uses (ν := ν) link w ho
    have hlen : (i.forward link w).1.outbox.length = n := by
      rw [outbox_forward, List.length_tail, hn, Nat.add_sub_cancel]
    obtain ⟨gone', hrest⟩ := ih (i.forward link w).2 (hforward.isOpen ho) hlen
    rw [i.flush_of_cons link w h]
    exact ⟨gone ++ gone', hforward.trans hrest⟩

theorem settle_uses (ho : i.isOpen) : ∃ gone, Uses (ν := ν) i [] gone (i.settle link w).1 := by
  rw [settle]
  split
  · exact flush_uses link w ho
  · exact ⟨[], .here⟩

theorem run_uses : ∃ gone, Uses (ν := ν) i [] gone (i.run link w).2.1 := by
  rw [run]
  split
  · have hstart : Uses (ν := ν) i [] [] { i with pump := .running true true } :=
      .still rfl rfl rfl
    obtain ⟨gone, hflush⟩ :=
      flush_uses (ν := ν) (i := { i with pump := .running true true }) link w rfl
    exact ⟨gone, hstart.trans hflush⟩
  · exact ⟨[], .here⟩

theorem setPump_uses {p : Pump} (hp : p ≠ .ended) : Uses (ν := ν) i [] [] (i.setPump p) := by
  have hopen : ({ i with pump := p } : Interpreter).isOpen := by
    rw [isOpen]
    exact decide_eq_true hp
  cases p with
  | idle | running => exact .still hopen rfl rfl
  | ended => exact absurd rfl hp

end Interpreter

namespace Site

variable {s : Site ν}

theorem receiveCustom_uses (view : View) (ho : s.interpreter.isOpen) (job : JobId)
    (key mapper : String) (shape : ResponseShape) :
    Uses s.interpreter (s.receiveCustom view job key mapper shape).2.2 []
      (s.receiveCustom view job key mapper shape).2.1.interpreter := by
  obtain ⟨-, store, h⟩ | ⟨-, script, store, h⟩ := s.receiveCustom_cases view job key mapper shape
  · rw [h]
    exact .here
  · have hrun := script.run_uses view job
      (s := ⟨(s.interpreter.newEmitter shape).2, store, s.hub⟩) ho
      (s.interpreter.newEmitter_lt shape)
    rw [h]
    exact (Uses.here.received job shape).trans hrun

theorem serve_uses (ho : s.interpreter.isOpen) (x : Intake) :
    Uses s.interpreter (s.serve x).remarks [] (s.serve x).after.interpreter := by
  cases x with
  | broadcast view payload =>
    dsimp only [serve]
    obtain ⟨job, key, mapper, shape, hd⟩ | hd := s.decode_cases payload
    · have hsame := receiveBroadcast_custom view hd
      rw [congrArg Prod.fst hsame, congrArg Prod.snd hsame]
      exact receiveCustom_uses view ho job key mapper shape
    · obtain ⟨hsame, hinert⟩ := isInert_receiveBroadcast view hd
      rw [hsame]
      exact .inert hinert ho
  | unicast sender payload =>
    rw [serve]
    dsimp only
    rw [s.receiveUnicast_interpreter sender payload]
    exact .inert (s.isInert_receiveUnicast sender payload) ho

variable (link : Link σ)

theorem pump_uses (view : View) (d : Delivery) (w : σ) (ho : s.interpreter.isOpen)
    (hend : (s.pump link view d w).1.interpreter.pump ≠ .ended) :
    ∃ gone, Uses s.interpreter (s.pump link view d w).2.1 gone
      (s.pump link view d w).1.interpreter := by
  rw [pump_eq] at hend ⊢
  split at hend
  · next hserves =>
    rw [if_pos hserves]
    cases hitem : (d.arrival view).item? with
    | some x =>
      have hserve := serve_uses ho x
      obtain ⟨gone, hsettle⟩ := Interpreter.settle_uses (ν := ν) link w (hserve.isOpen ho)
      have hboth := hserve.trans hsettle
      rw [List.append_nil] at hboth
      exact ⟨_, hboth⟩
    | none =>
      rw [hitem] at hend
      dsimp only at hend
      rw [Interpreter.pump_setPump] at hend
      exact ⟨[], Interpreter.setPump_uses hend⟩
  · next hserves =>
    rw [if_neg hserves]
    exact ⟨[], .here⟩

theorem Move.perform_uses (m : Move ν σ) (w : σ × List Attempt) (ho : s.interpreter.isOpen)
    (hend : (m.perform link s w).2.1.interpreter.pump ≠ .ended) :
    ∃ gone, Uses s.interpreter (m.remarks link s w) gone
      (m.perform link s w).2.1.interpreter := by
  cases m with
  | broadcast | unicast | custom | mapReduce =>
    obtain ⟨clock, ids, hframe⟩ := Call.perform_frame link.recorded _ s w
    rw [perform_of_call link rfl, hframe]
    exact ⟨[], .still ho rfl rfl⟩
  | receiveBroadcast view payload => exact ⟨[], serve_uses ho (.broadcast view payload)⟩
  | receiveUnicast sender payload => exact ⟨[], serve_uses ho (.unicast sender payload)⟩
  | emit emitter job key v =>
    rw [remarks, perform]
    split
    · next hn => exact ⟨[], Uses.here.called hn job key v⟩
    · next hn =>
      rw [Interpreter.emit_of_le (Nat.not_lt.mp hn)]
      exact ⟨[], .here⟩
  | run => exact Interpreter.run_uses link.recorded w
  | deliver view d => exact pump_uses link.recorded view d w ho hend
  | forward => exact Interpreter.forward_uses link.recorded w ho
  | settle => exact Interpreter.settle_uses link.recorded w ho
  | stop => exact absurd rfl hend
  | disturb store hub world => exact ⟨[], .here⟩

theorem runMoves_ended (moves : List (Move ν σ)) (w : σ × List Attempt)
    (h : s.interpreter.pump = .ended) :
    (runMoves link moves s w).1.interpreter.pump = .ended := by
  induction moves generalizing s w with
  | nil => exact h
  | cons m moves ih =>
    refine ih _ (((Turn.move m).perform_pump link s w).trans ?_)
    rw [h, Turn.drive_ended]

/-- As long as the pump has not ended, all that a site does is to use emitters. -/
theorem runMoves_uses (moves : List (Move ν σ)) (w : σ × List Attempt)
    (ho : s.interpreter.isOpen) (hend : (runMoves link moves s w).1.interpreter.isOpen) :
    ∃ gone, Uses s.interpreter (remarksIn link moves s w) gone
      (runMoves link moves s w).1.interpreter := by
  induction moves generalizing s w with
  | nil => exact ⟨[], .here⟩
  | cons m moves ih =>
    have hnot : (m.perform link s w).2.1.interpreter.pump ≠ .ended := fun h =>
      of_decide_eq_true hend (runMoves_ended link moves (m.perform link s w).2.2 h)
    obtain ⟨gone, hfirst⟩ := m.perform_uses link w ho hnot
    obtain ⟨gone', hrest⟩ := ih (m.perform link s w).2.2 (hfirst.isOpen ho) hend
    exact ⟨gone ++ gone', hfirst.trans hrest⟩

end Site

/-- While the outbox is open, all calls of the emitter of a stream are let through and queue the
response that they are made with, and of the calls of any other emitter the first is. A command that
is received gets an emitter that nobody has called. This holds for all interleavings, and what a
site does in a run is one of them. -/
theorem emissions_allowed {settings : Settings} {store store' : Store} {i : Interpreter}
    (hbuild : Interpreter.build settings store = .ok (i, store')) :
    (∀ (log : List (Remark ν)) gone j, i.Uses log gone j →
      (∀ n shape, shapeOf? n log = some shape → ∀ job key v,
        (j.emit n job key v).1 = (shape = .stream || !log.any (Remark.isEmission n)) ∧
        (j.emit n job key v).2.outbox = j.outbox ++
          if shape = .stream || !log.any (Remark.isEmission n) then [Command.response job key v]
          else []) ∧
      (∀ n shape, shapeOf? n log = some shape → shape.Allows (outcomes n log)) ∧
      (∀ shape, shapeOf? (j.newEmitter shape).1 log = none ∧
        log.any (Remark.isEmission (j.newEmitter shape).1) = false) ∧
      queuedIn log = gone ++ j.outbox) ∧
    (∀ (link : Link σ) (hub : Hub ν) moves world,
      let start : Site ν := ⟨i, store', hub⟩
      let here := Site.runMoves link moves start (world, [])
      here.1.interpreter.isOpen → ∃ gone,
        i.Uses (Site.remarksIn link moves start (world, [])) gone here.1.interpreter) := by
  obtain ⟨hidle, hempty, hnone, -⟩ := Interpreter.of_build hbuild
  have hopen : i.isOpen := by
    rw [Interpreter.isOpen, hidle]
    rfl
  constructor
  · intro log gone j h
    have hbooks := h.books hopen hnone hempty
    refine ⟨fun n shape hshape => hbooks.emit_eq (h.isOpen hopen) hshape,
      fun n shape hshape => h.allows hopen hnone hempty hshape, fun shape => ?_, ?_⟩
    · have hnew : shapeOf? (j.newEmitter shape).1 log = none := by
        rw [← hbooks.shapes, Interpreter.newEmitter, List.getElem?_eq_none (Nat.le_refl _)]
        rfl
      exact ⟨hnew, hbooks.inTurn.any_isEmission hnew⟩
    · have hqueued := h.queued
      rw [hempty, List.nil_append] at hqueued
      exact hqueued
  · intro link hub moves world start here hend
    exact Site.runMoves_uses link moves (world, []) hopen hend

/-- Two commands are received, and their emitters are called in turns. -/
theorem emissions_allowed_turns :
    ∃ i store, Interpreter.build Site.repeating .empty = .ok (i, store) ∧
      ∃ (log : List (Remark Unit)) (j : Interpreter), i.Uses log [] j ∧
        outcomes 0 log = [true, true] ∧ outcomes 1 log = [true, false] ∧
        (∀ job key v, (j.emit 0 job key v).2.outbox = j.outbox ++ [Command.response job key v]) ∧
        ∀ job key v, (j.emit 1 job key v).1 = false := by
  obtain ⟨i, store, hbuild⟩ : ∃ i store,
      Interpreter.build Site.repeating .empty = .ok (i, store) := ⟨_, _, rfl⟩
  have hnone : i.emitters = [] := (Interpreter.of_build hbuild).2.2.1
  have hmade := ((Uses.here (ν := Unit) (i := i)).received ⟨"j"⟩ .stream).received ⟨"k"⟩ .once
  have hlength : ((i.newEmitter .stream).2.newEmitter .once).2.emitters.length = 2 := by
    simp [Interpreter.newEmitter, hnone]
  have h := hmade.called (n := 1) (by omega) ⟨"k"⟩ "value" .unit
    |>.called (n := 0) (by rw [Interpreter.length_emitters_emit]; omega) ⟨"j"⟩ "value" .unit
    |>.called (n := 1) (by simp only [Interpreter.length_emitters_emit]; omega) ⟨"j"⟩ "other" .unit
    |>.called (n := 0) (by simp only [Interpreter.length_emitters_emit]; omega) ⟨"k"⟩ "other" .unit
  obtain ⟨hallowed, -, -, -⟩ := (emissions_allowed (σ := Unit) hbuild).1 _ _ _ h
  cases hbuild
  refine ⟨_, _, rfl, _, _, h, by decide, by decide, fun job key v => ?_, fun job key v => ?_⟩
  · exact (hallowed 0 .stream rfl job key v).2
  · exact (hallowed 1 .once rfl job key v).1

end PeerMesh
