import PeerMesh.Proofs.Interpreter.Pump

namespace PeerMesh

namespace Site

/-- What a site can be made to do, by its owner, by its pump, by what arrives, and by the emitters
that mappers kept. In between, others may change its store, its hub and what is behind the link. -/
inductive Move (ν σ : Type)
  | broadcast (name : String) (args : List Val)
  | unicast (target : PeerId) (name : String) (args : List Val)
  | custom (key mapper : String) (shape : ResponseShape)
  | mapReduce (key mapper : String) (shape : ResponseShape) (reducer : Reducer ν)
  | receiveBroadcast (view : View) (payload : Bytes)
  | receiveUnicast (sender : PeerId) (payload : Bytes)
  | emit (emitter : Nat) (job : JobId) (key : String) (v : Val)
  | run
  | deliver (view : View) (delivery : Delivery)
  | forward
  | settle
  | stop
  | disturb (store : Store) (hub : Hub ν) (world : σ)

def refusal {α : Type} : Except CallError α → Option CallError
  | .error e => some e
  | .ok _ => none

variable {ν σ : Type} (link : Link σ)

/-- Also tells the error that a call came back with. -/
def Move.perform : Move ν σ → Site ν → σ × List Attempt →
    Option CallError × Site ν × σ × List Attempt
  | broadcast name args, s, w =>
    let (r, i, w) := s.interpreter.executeBroadcast link.recorded name args w
    (refusal r, { s with interpreter := i }, w)
  | unicast target name args, s, w =>
    let (r, w) := s.interpreter.executeUnicast link.recorded name args target w
    (refusal r, s, w)
  | custom key mapper shape, s, w =>
    let (r, s, w) := s.executeCustom link.recorded key mapper shape w
    (refusal r, s, w)
  | mapReduce key mapper shape reducer, s, w =>
    let (r, s, w) := s.mapReduce link.recorded key mapper shape reducer w
    (refusal r, s, w)
  | receiveBroadcast view payload, s, w =>
    let (_, s, _) := s.receiveBroadcast view payload
    (none, s, w)
  | receiveUnicast sender payload, s, w =>
    let (_, s, _) := s.receiveUnicast sender payload
    (none, s, w)
  | emit emitter job key v, s, w =>
    (none, { s with interpreter := (s.interpreter.emit emitter job key v).2 }, w)
  | run, s, w =>
    let (r, i, w) := s.interpreter.run link.recorded w
    (refusal r, { s with interpreter := i }, w)
  | deliver view delivery, s, w =>
    let (s, _, w) := s.pump link.recorded view delivery w
    (none, s, w)
  | forward, s, w =>
    let (i, w) := s.interpreter.forward link.recorded w
    (none, { s with interpreter := i }, w)
  | settle, s, w =>
    let (i, w) := s.interpreter.settle link.recorded w
    (none, { s with interpreter := i }, w)
  | stop, s, w => (none, { s with interpreter := s.interpreter.stop }, w)
  | disturb store hub world, s, w => (none, { s with store := store, hub := hub }, world, w.2)

/-- The moves that have nothing to do with broadcasts: unicasts, and what comes from other peers. -/
def Move.isQuiet : Move ν σ → Bool
  | unicast .. => true
  | receiveBroadcast .. => true
  | receiveUnicast .. => true
  | emit .. => true
  | stop => true
  | disturb .. => true
  | _ => false

def runMoves (moves : List (Move ν σ)) (s : Site ν) (w : σ × List Attempt) :
    Site ν × σ × List Attempt :=
  moves.foldl (fun p m => (m.perform link p.1 p.2).2) (s, w)

theorem runMoves_cons (m : Move ν σ) (moves : List (Move ν σ)) (s : Site ν)
    (w : σ × List Attempt) :
    runMoves link (m :: moves) s w =
      runMoves link moves (m.perform link s w).2.1 (m.perform link s w).2.2 :=
  rfl

theorem Move.perform_advances (m : Move ν σ) (s : Site ν) (w : σ × List Attempt) :
    Advances (s.interpreter.clock, w.2) (m.perform link s w).2.1.interpreter.clock
      (m.perform link s w).2.2.2 := by
  cases m with
  | broadcast name args => exact s.interpreter.executeBroadcast_advances link w name args
  | unicast target name args =>
    have h := s.interpreter.executeUnicast_log link w name args target
    rw [perform]
    dsimp only
    rw [h]
    exact .here
  | custom key mapper shape => exact s.executeCustom_advances key mapper shape link w
  | mapReduce key mapper shape reducer =>
    exact s.mapReduce_advances key mapper shape reducer link w
  | receiveBroadcast view payload =>
    rw [perform]
    dsimp only
    rw [(s.receiveBroadcast_resembles view payload).clock]
    exact .here
  | receiveUnicast sender payload =>
    rw [perform]
    dsimp only
    rw [s.receiveUnicast_interpreter sender payload]
    exact .here
  | emit emitter job key v =>
    rw [perform]
    dsimp only
    rw [(Interpreter.Resembles.emit s.interpreter emitter job key v).clock]
    exact .here
  | run => exact s.interpreter.run_advances link w
  | deliver view delivery => exact s.pump_advances link view w delivery
  | forward => exact s.interpreter.forward_advances link w
  | settle => exact s.interpreter.settle_advances link w
  | stop => exact .here
  | disturb store hub world => exact .here

def Move.isIdle (m : Move ν σ) (s : Site ν) (w : σ × List Attempt) : Prop :=
  m.isQuiet ∨ ∃ e, (m.perform link s w).1 = some e ∧ e.isEarly

theorem refusal_eq_some {α : Type} {r : Except CallError α} {e : CallError}
    (h : refusal r = some e) : r = .error e := by
  cases r with
  | error e' =>
    cases h
    rfl
  | ok a => cases h

theorem Move.perform_of_isQuiet {m : Move ν σ} (h : m.isQuiet) (s : Site ν)
    (w : σ × List Attempt) :
    (m.perform link s w).2.1.interpreter.clock = s.interpreter.clock ∧
      (m.perform link s w).2.2.2 = w.2 := by
  cases m with
  | unicast target name args =>
    exact ⟨rfl, s.interpreter.executeUnicast_log link w name args target⟩
  | receiveBroadcast view payload => exact ⟨(s.receiveBroadcast_resembles view payload).clock, rfl⟩
  | receiveUnicast sender payload =>
    exact ⟨congrArg Interpreter.clock (s.receiveUnicast_interpreter sender payload), rfl⟩
  | emit emitter job key v =>
    exact ⟨(Interpreter.Resembles.emit s.interpreter emitter job key v).clock, rfl⟩
  | stop | disturb store hub world => exact ⟨rfl, rfl⟩
  | broadcast | custom | mapReduce | run | deliver | forward | settle => cases h

theorem Move.perform_of_early (m : Move ν σ) (s : Site ν) (w : σ × List Attempt) {e : CallError}
    (h : (m.perform link s w).1 = some e) (he : e.isEarly) :
    (m.perform link s w).2.1.interpreter.clock = s.interpreter.clock ∧
      (m.perform link s w).2.2.2 = w.2 := by
  cases m with
  | broadcast name args =>
    have hsend := s.interpreter.executeBroadcast_of_early link.recorded name args w
      (refusal_eq_some h) he
    exact ⟨congrArg (fun p => p.1.clock) hsend, congrArg (fun p => p.2.2) hsend⟩
  | custom key mapper shape =>
    have hsend := s.executeCustom_of_early key mapper shape link.recorded w
      (refusal_eq_some h) he
    exact ⟨congrArg (fun p => p.1.interpreter.clock) hsend, congrArg (fun p => p.2.2) hsend⟩
  | mapReduce key mapper shape reducer =>
    obtain ⟨hi, hw⟩ := s.mapReduce_of_early key mapper shape reducer link.recorded w
      (refusal_eq_some h) he
    exact ⟨congrArg (fun i => i.clock) hi, congrArg Prod.snd hw⟩
  | run =>
    have hrun : (s.interpreter.run link.recorded w).1 = .error e := refusal_eq_some h
    rw [Interpreter.run] at hrun
    split at hrun
    · cases hrun
    · cases hrun
      cases he
  | unicast target name args => exact perform_of_isQuiet link rfl s w
  | receiveBroadcast | receiveUnicast | emit | deliver | forward | settle | stop | disturb =>
    cases h

theorem Move.perform_of_isIdle {m : Move ν σ} {s : Site ν} {w : σ × List Attempt}
    (h : m.isIdle link s w) :
    (m.perform link s w).2.1.interpreter.clock = s.interpreter.clock ∧
      (m.perform link s w).2.2.2 = w.2 := by
  obtain hq | ⟨e, h, he⟩ := h
  · exact perform_of_isQuiet link hq s w
  · exact m.perform_of_early link s w h he

theorem runMoves_advances (moves : List (Move ν σ)) (s : Site ν) (w : σ × List Attempt) :
    Advances (s.interpreter.clock, w.2) (runMoves link moves s w).1.interpreter.clock
      (runMoves link moves s w).2.2 := by
  induction moves generalizing s w with
  | nil => exact .here
  | cons m moves ih =>
    rw [runMoves_cons]
    exact (m.perform_advances link s w).trans (ih _ _)

/-- Every attempt to broadcast carries the token that follows the accepted ones. -/
theorem tokens_consecutive {settings : Settings} (hclock : settings.clock = none)
    {store store' : Store} {i : Interpreter}
    (hbuild : Interpreter.build settings store = .ok (i, store')) (hub : Hub ν)
    (moves : List (Move ν σ)) (world : σ) {s : Site ν} {v : σ} {log : List Attempt}
    (hrun : runMoves link moves ⟨i, store', hub⟩ (world, []) = (s, v, log))
    (hn : acceptedCount log < 2 ^ 64 - 1) :
    (∀ before a after, log = before ++ a :: after →
      a.token.origin = settings.peer ∧ a.token.counter.toNat = 1 + acceptedCount before) ∧
    (log.filter Attempt.accepted).map (fun a => (a.token.origin, a.token.counter.toNat)) =
      (List.range' 1 (acceptedCount log)).map (fun k => (settings.peer, k)) ∧
    (∀ before a b after, log = before ++ a :: b :: after → a.accepted = false →
      b.token = a.token) ∧
    (s.interpreter.clock.get settings.peer).toNat = acceptedCount log ∧
    (∀ done m rest, moves = done ++ m :: rest →
      ∀ s₁ w₁, runMoves link done ⟨i, store', hub⟩ (world, []) = (s₁, w₁) →
      m.isIdle link s₁ w₁ →
      (m.perform link s₁ w₁).2.1.interpreter.clock = s₁.interpreter.clock ∧
        (m.perform link s₁ w₁).2.2.2 = w₁.2) := by
  have hstart : i.clock = .ofOwner settings.peer := by
    rw [Interpreter.build] at hbuild
    split at hbuild
    · cases hbuild
    · split at hbuild
      · cases hbuild
      · cases hbuild
        rw [hclock]
        rfl
  have hadv := runMoves_advances link moves ⟨i, store', hub⟩ (world, [])
  rw [hrun, hstart] at hadv
  have h : Numbered settings.peer s.interpreter.clock log := hadv.numbered hn
  refine ⟨?_, ?_, ?_, h.entry, fun _ _ _ _ _ _ _ hi => Move.perform_of_isIdle link hi⟩
  · intro before a after hlog
    have hlt : acceptedCount before + 1 < 2 ^ 64 := by
      have hle : acceptedCount before ≤ acceptedCount log := by
        rw [hlog, acceptedCount, acceptedCount, List.countP_append]
        exact Nat.le_add_right _ _
      omega
    rw [h.tokens before a after hlog]
    exact ⟨rfl, (UInt64.toNat_ofNat_of_lt' hlt).trans (Nat.add_comm _ _)⟩
  · have hmap := congrArg (List.map fun t : Token => (t.origin, t.counter.toNat)) h.accepted
    rw [List.map_map, List.map_map] at hmap
    rw [List.range'_eq_map_range, List.map_map]
    refine hmap.trans (List.map_congr_left fun k hk => ?_)
    have hlt : k + 1 < 2 ^ 64 := by
      have hk := List.mem_range.mp hk
      omega
    exact congrArg (settings.peer, ·) ((UInt64.toNat_ofNat_of_lt' hlt).trans (Nat.add_comm _ _))
  · intro before a b after hlog ha
    exact h.token_of_refused hlog ha

def refusingSecond : Link Nat where
  broadcast _ _ n := (if n = 1 then .error (.connectionLost "down") else .ok (), n + 1)
  unicast _ _ n := (.ok (), n)

def pinging : Settings where
  peer := ⟨"a"⟩
  jobIds := .ofStem "s"
  registry := Registry.empty.register "ping" ⟨0, fun _ => .value .unit⟩

def pings : List (Move Unit Nat) :=
  [.broadcast "ping" [], .broadcast "ping" [.unit], .broadcast "ping" [], .broadcast "ping" []]

theorem tokens_consecutive_refusingSecond :
    ∃ i store, Interpreter.build pinging .empty = .ok (i, store) ∧
      ∃ s v log, runMoves refusingSecond pings ⟨i, store, .empty⟩ (0, []) = (s, v, log) ∧
        log.map (fun a => (a.token.counter, a.accepted)) = [(1, true), (2, false), (2, true)] ∧
        (s.interpreter.clock.get ⟨"a"⟩).toNat = 2 := by
  obtain ⟨i, store, hbuild⟩ : ∃ i store, Interpreter.build pinging .empty = .ok (i, store) :=
    ⟨_, _, rfl⟩
  refine ⟨i, store, hbuild, ?_⟩
  rcases hrun : runMoves refusingSecond pings ⟨i, store, .empty⟩ (0, []) with ⟨s, v, log⟩
  have hlog : log.map (fun a => (a.token.counter, a.accepted)) =
      [(1, true), (2, false), (2, true)] := by
    cases hbuild
    cases hrun
    decide
  have hcount : acceptedCount log = 2 := by
    cases hbuild
    cases hrun
    decide
  obtain ⟨-, -, -, hentry, -⟩ :=
    tokens_consecutive refusingSecond rfl hbuild .empty pings 0 hrun (by rw [hcount]; decide)
  exact ⟨s, v, log, rfl, hlog, hentry.trans hcount⟩

end Site

end PeerMesh
