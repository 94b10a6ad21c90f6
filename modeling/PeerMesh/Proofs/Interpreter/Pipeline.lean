import PeerMesh.Proofs.Interpreter.Posted

namespace PeerMesh

variable {ν σ : Type}

namespace Site

variable (link : Link σ) (s : Site ν) (w : σ × List Attempt)
variable {s}

/-- A run each of whose moves is finished before the next one: the pump has then broadcast what
waits. -/
def finished (moves : List (Move ν σ)) : List (Move ν σ) :=
  moves.flatMap fun m => [m, .settle]

def remarksIn : List (Move ν σ) → Site ν → σ × List Attempt → List (Remark ν)
  | [], _, _ => []
  | m :: moves, s, w =>
    m.remarks link s w ++ remarksIn moves (m.perform link s w).2.1 (m.perform link s w).2.2

/-- What the pump attempts in a run. -/
def postedIn : List (Move ν σ) → Site ν → σ × List Attempt → List Attempt
  | [], _, _ => []
  | m :: moves, s, w =>
    m.posted link s w ++ postedIn moves (m.perform link s w).2.1 (m.perform link s w).2.2

theorem remarksIn_append (moves more : List (Move ν σ)) :
    remarksIn link (moves ++ more) s w = remarksIn link moves s w ++
      remarksIn link more (runMoves link moves s w).1 (runMoves link moves s w).2 := by
  induction moves generalizing s w with
  | nil => rfl
  | cons m moves ih =>
    rw [List.cons_append, remarksIn, remarksIn, ih, List.append_assoc]
    rfl

theorem postedIn_append (moves more : List (Move ν σ)) :
    postedIn link (moves ++ more) s w = postedIn link moves s w ++
      postedIn link more (runMoves link moves s w).1 (runMoves link moves s w).2 := by
  induction moves generalizing s w with
  | nil => rfl
  | cons m moves ih =>
    rw [List.cons_append, postedIn, postedIn, ih, List.append_assoc]
    rfl

theorem Move.posted_sublist (m : Move ν σ) :
    (w.2 ++ m.posted link s w).Sublist (m.perform link s w).2.2.2 := by
  obtain ⟨more, hlog⟩ := (m.perform_advances link s w).isPrefix
  rw [posted, ← hlog, List.drop_left]
  split
  · exact (List.append_nil _).symm ▸ List.sublist_append_left _ _
  · exact .refl _

theorem postedIn_sublist (moves : List (Move ν σ)) :
    (w.2 ++ postedIn link moves s w).Sublist (runMoves link moves s w).2.2 := by
  induction moves generalizing s w with
  | nil =>
    rw [postedIn, List.append_nil]
    exact .refl _
  | cons m moves ih =>
    rw [postedIn, ← List.append_assoc]
    exact ((m.posted_sublist link w).append_right _).trans (ih _)

/-- What was queued until a move was finished has left, unless the pump was not started yet. -/
theorem Move.finished_passes (m : Move ν σ)
    (hstop : s.interpreter.pump = .idle → (Turn.move m).isStop = false)
    (hkept : s.interpreter.pump ≠ .idle → s.interpreter.outbox = []) :
    let t := m.perform link s w
    let u := (settle (ν := ν)).perform link t.2.1 t.2.2
    (∃ left, s.interpreter.Passes (queuedIn (m.remarks link s w)) left
      (m.posted link s w ++ (settle (ν := ν)).posted link t.2.1 t.2.2) u.2.1.interpreter) ∧
    (s.interpreter.pump ≠ .idle → u.2.1.interpreter.pump ≠ .idle) ∧
    (u.2.1.interpreter.pump ≠ .idle → u.2.1.interpreter.outbox = []) := by
  intro t u
  have hpump : t.2.1.interpreter.pump = (Turn.move m).drive s.interpreter.pump :=
    (Turn.move m).perform_pump link s w
  have hsame : u.2.1.interpreter.pump = t.2.1.interpreter.pump :=
    Interpreter.pump_settle _ link.recorded _
  have hdrained : t.2.1.interpreter.pump = .ended → t.2.1.interpreter.outbox = [] :=
    m.outbox_of_ended link w fun h => hkept (by rw [h]; exact Pump.noConfusion)
  obtain ⟨left, hpass, -⟩ := m.perform_passes link s w fun hended => by
    refine hkept fun hidle => ?_
    rw [hpump, hidle] at hended
    exact Turn.drive_idle_ne_ended (hstop hidle) hended
  obtain ⟨left', hpass', -⟩ := (settle (ν := ν)).perform_passes link t.2.1 t.2.2
    fun hended => hdrained (hsame.symm.trans hended)
  have hboth := hpass.trans hpass'
  have hnothing : queuedIn ((settle (ν := ν)).remarks link t.2.1 t.2.2) = [] := rfl
  rw [hnothing, List.append_nil] at hboth
  refine ⟨⟨left ++ left', hboth⟩, fun hne => ?_, fun hne => ?_⟩
  · rw [hsame, hpump]
    exact Turn.drive_ne_idle _ hne
  · exact t.2.1.interpreter.outbox_settle link.recorded t.2.2 (hsame ▸ hne) hdrained

theorem runMoves_passes (moves : List (Move ν σ))
    (hstop : s.interpreter.pump = .idle → ∀ m ∈ moves, (Turn.move m).isStop = false)
    (hkept : s.interpreter.pump ≠ .idle → s.interpreter.outbox = []) :
    let here := runMoves link (finished moves) s w
    (∃ left, s.interpreter.Passes (queuedIn (remarksIn link (finished moves) s w)) left
      (postedIn link (finished moves) s w) here.1.interpreter) ∧
    (s.interpreter.pump ≠ .idle → here.1.interpreter.pump ≠ .idle) ∧
    (here.1.interpreter.pump ≠ .idle → here.1.interpreter.outbox = []) := by
  induction moves generalizing s w with
  | nil => exact ⟨⟨[], .still rfl rfl⟩, id, hkept⟩
  | cons m moves ih =>
    obtain ⟨⟨left, hpass⟩, hstarted, hkept'⟩ :=
      m.finished_passes link w (fun h => hstop h m List.mem_cons_self) hkept
    obtain ⟨⟨left', hpass'⟩, hstarted', hlast⟩ := ih _ (fun h m' hm' =>
      hstop (not_imp_not.mp hstarted h) m' (List.mem_cons_of_mem _ hm')) hkept'
    have hboth := hpass.trans hpass'
    rw [← queuedIn_append, List.append_assoc] at hboth
    exact ⟨⟨left ++ left', hboth⟩, hstarted' ∘ hstarted, hlast⟩

theorem runMoves_of_idle {moves : List (Move ν σ)} (h : s.interpreter.pump = .idle)
    (hmoves : ∀ m ∈ moves, m.concernsPump = false) :
    (runMoves link moves s w).1.interpreter.pump = .idle ∧
      s.interpreter.Passes (queuedIn (remarksIn link moves s w)) [] (postedIn link moves s w)
        (runMoves link moves s w).1.interpreter := by
  induction moves generalizing s w with
  | nil => exact ⟨h, .still rfl rfl⟩
  | cons m moves ih =>
    obtain ⟨hm, hrest⟩ := List.forall_mem_cons.mp hmoves
    have hpump : (m.perform link s w).2.1.interpreter.pump = .idle := by
      refine ((Turn.move m).perform_pump link s w).trans ?_
      rw [h]
      obtain ⟨hrun, hstop⟩ := Move.isRun_of_concernsPump hm
      exact (Turn.drive_idle hrun hstop).1
    obtain ⟨left, hpass, hnone⟩ := m.perform_passes link s w fun hended => by
      rw [hpump] at hended
      cases hended
    cases hnone h hm
    obtain ⟨hidle, hpass'⟩ := ih (m.perform link s w).2.2 hpump hrest
    have hboth := hpass.trans hpass'
    rw [← queuedIn_append] at hboth
    exact ⟨hidle, hboth⟩

theorem runMoves_of_ended (moves : List (Move ν σ)) (h : s.interpreter.pump = .ended)
    (ho : s.interpreter.outbox = []) :
    (runMoves link moves s w).1.interpreter.pump = .ended ∧
      (runMoves link moves s w).1.interpreter.outbox = [] ∧
      queuedIn (remarksIn link moves s w) = [] ∧ postedIn link moves s w = [] := by
  induction moves generalizing s w with
  | nil => exact ⟨h, ho, rfl, rfl⟩
  | cons m moves ih =>
    obtain ⟨hpump, houtbox, hnone⟩ := m.perform_of_ended link w h ho
    obtain ⟨hpump', houtbox', hqueued, hposted⟩ := ih (m.perform link s w).2.2 hpump houtbox
    refine ⟨hpump', houtbox', ?_, ?_⟩
    · rw [remarksIn, queuedIn_append, m.remarks_of_ended link s w h, hqueued]
      rfl
    · rw [postedIn, hnone, hposted]
      rfl

theorem finished_append (moves more : List (Move ν σ)) :
    finished (moves ++ more) = finished moves ++ finished more :=
  List.flatMap_append

theorem runMoves_append (moves more : List (Move ν σ)) :
    runMoves link (moves ++ more) s w =
      runMoves link more (runMoves link moves s w).1 (runMoves link moves s w).2 :=
  List.foldl_append

theorem runMoves_run (h : s.interpreter.pump = .idle) :
    (runMoves link (finished [.run]) s w).1.interpreter.pump ≠ .idle := by
  have hrun := s.interpreter.pump_run link.recorded w
  rw [if_pos h] at hrun
  have hsettle := (Interpreter.pump_settle _ link.recorded
    (s.interpreter.run link.recorded w).2.2).trans hrun
  exact fun hidle => Pump.noConfusion (hsettle.symm.trans hidle)

/-- If every step is finished before the next one, then the pump attempts to broadcast the responses
that were queued, also before it was started, each once and in the order of the emissions, except
for those that do not fit. All tokens follow from the attempts that were accepted, so the other ones
use none. Once the pump has ended, no emission is queued any more. -/
theorem responses_posted (link : Link σ) {settings : Settings} {store store' : Store}
    {i : Interpreter} (hbuild : Interpreter.build settings store = .ok (i, store')) (hub : Hub ν)
    {before : List (Move ν σ)} (hbefore : ∀ m ∈ before, m.concernsPump = false)
    (after : List (Move ν σ)) (world : σ) :
    let start : Site ν := ⟨i, store', hub⟩
    let early := finished before
    let moves := finished (before ++ .run :: after)
    let here := runMoves link moves start (world, [])
    (postedIn link early start (world, []) = [] ∧
      (runMoves link early start (world, [])).1.interpreter.outbox =
        queuedIn (remarksIn link early start (world, []))) ∧
    (postedIn link moves start (world, [])).map Attempt.payload =
      ((queuedIn (remarksIn link moves start (world, []))).filter
        (Command.fits settings.maxPayload)).map Command.enveloped ∧
    (postedIn link moves start (world, [])).Sublist here.2.2 ∧
    (∀ done a rest, here.2.2 = done ++ a :: rest →
      a.token = (i.clock.advanced (acceptedCount done)).peek) ∧
    here.1.interpreter.clock = i.clock.advanced (acceptedCount here.2.2) ∧
    (here.1.interpreter.pump = .ended → ∀ more,
      let later := runMoves link more here.1 here.2
      later.1.interpreter.pump = .ended ∧ later.1.interpreter.outbox = [] ∧
      postedIn link more here.1 here.2 = [] ∧
      ∀ emitter job key v queued,
        .emitted emitter job key v queued ∈ remarksIn link more here.1 here.2 →
          queued = false) := by
  intro start early moves here
  obtain ⟨hpump, hempty, -, hlimit⟩ := Interpreter.of_build hbuild
  have hidle : start.interpreter.pump = .idle := hpump
  have hearly : ∀ m ∈ early, m.concernsPump = false := by
    intro m hm
    obtain ⟨m', hm', hpair⟩ := List.mem_flatMap.mp hm
    obtain rfl | hsettle := List.mem_cons.mp hpair
    · exact hbefore m hm'
    · cases List.mem_singleton.mp hsettle
      rfl
  obtain ⟨hstill, hwaits⟩ := runMoves_of_idle link (world, []) hidle hearly
  have hnone : postedIn link early start (world, []) = [] := List.map_eq_nil_iff.mp hwaits.sent
  -- The run is one to the start of the pump, after which nothing waits, and one from there on.
  have hsplit : moves = finished (before ++ [.run]) ++ finished after := by
    rw [← finished_append, List.append_assoc, List.singleton_append]
  have hnostop : ∀ m ∈ before ++ [Move.run], (Turn.move m).isStop = false := by
    intro m hm
    obtain hm | hm := List.mem_append.mp hm
    · exact (Move.isRun_of_concernsPump (hbefore m hm)).2
    · cases List.mem_singleton.mp hm
      rfl
  obtain ⟨⟨left, hfirst⟩, -, hkept⟩ :=
    runMoves_passes link (world, []) _ (fun _ => hnostop) fun h => absurd hidle h
  have hstarted : (runMoves link (finished (before ++ [.run])) start
      (world, [])).1.interpreter.pump ≠ .idle := by
    rw [finished_append, runMoves_append]
    exact runMoves_run link _ hstill
  obtain ⟨⟨left', hrest⟩, hlast, hnothing⟩ :=
    runMoves_passes link (runMoves link (finished (before ++ [.run])) start (world, [])).2 after
      (fun h => absurd h hstarted) hkept
  rw [← runMoves_append, ← hsplit] at hlast hnothing
  have hnil : here.1.interpreter.outbox = [] := hnothing (hlast hstarted)
  have hall := hfirst.trans hrest
  rw [← queuedIn_append, ← remarksIn_append, ← postedIn_append, ← runMoves_append, ← hsplit] at hall
  have hadv := runMoves_advances link moves start (world, [])
  refine ⟨⟨hnone, ?_⟩, ?_, ?_, fun done a rest hlog => hadv.token hlog, hadv.clock, ?_⟩
  · have hkeeps := hwaits.kept
    rw [hempty] at hkeeps
    exact hkeeps.symm
  · rw [← hlimit]
    exact hall.sent_of_nil hempty hnil
  · exact postedIn_sublist link (world, []) moves
  · intro hended more later
    obtain ⟨hpump, houtbox, hqueued, hposted⟩ := runMoves_of_ended link here.2 more hended hnil
    refine ⟨hpump, houtbox, hposted, fun emitter job key v queued hmem => ?_⟩
    cases queued with
    | false => rfl
    | true =>
      have hin : Command.response job key v ∈ queuedIn (remarksIn link more here.1 here.2) :=
        mem_queuedIn.mpr ⟨emitter, job, key, v, hmem, rfl⟩
      rw [hqueued] at hin
      cases hin

def waiting (view : View) : List (Move Unit Nat) :=
  [.receiveBroadcast view (Command.custom ⟨"j"⟩ "key" "repeat" .stream).enveloped]

/-- An emission that does not fit, another command, a late emission, and the end of both
channels. -/
def relay (view : View) : List (Move Unit Nat) :=
  [.emit 0 ⟨"j"⟩ "value" (.f64 ⟨0x7FF0000000000000⟩),
    .deliver view (.broadcast (.item (Command.custom ⟨"k"⟩ "key" "repeat" .stream).enveloped)),
    .emit 0 ⟨"j"⟩ "late" .unit,
    .deliver view (.unicast .closed),
    .deliver view (.broadcast (.failed (.io "reset")))]

theorem waiting_quiet (view : View) : ∀ m ∈ waiting view, m.concernsPump = false := by
  intro m hm
  cases List.mem_singleton.mp hm
  rfl

/-- The first of these responses waits when the pump is started, and the second one is refused. -/
theorem responses_posted_relay :
    ∃ i store, Interpreter.build repeating (Store.empty.insert "key" (.value .unit)) =
        .ok (i, store) ∧
      ∃ s v log, runMoves refusingSecond
          (finished (waiting (fun _ => []) ++ .run :: relay fun _ => []))
          ⟨i, store, .empty⟩ (0, []) = (s, v, log) ∧
        (postedIn refusingSecond (finished (waiting (fun _ => []) ++ .run :: relay fun _ => []))
            ⟨i, store, .empty⟩ (0, [])).map Attempt.payload =
          [Command.response ⟨"j"⟩ "value" .unit, Command.response ⟨"k"⟩ "value" .unit,
            Command.response ⟨"j"⟩ "late" .unit].map Command.enveloped ∧
        log.map Attempt.accepted = [true, false, true] ∧
        s.interpreter.clock = i.clock.advanced 2 ∧
        ∀ more emitter job key v' queued,
          .emitted emitter job key v' queued ∈ remarksIn refusingSecond more s (v, log) →
            queued = false := by
  obtain ⟨i, store, hbuild⟩ : ∃ i store,
      Interpreter.build repeating (Store.empty.insert "key" (.value .unit)) = .ok (i, store) :=
    ⟨_, _, rfl⟩
  have hresults : (runMoves refusingSecond
      (finished (waiting (fun _ => []) ++ .run :: relay fun _ => []))
      ⟨i, store, .empty⟩ (0, [])).2.2.map Attempt.accepted = [true, false, true] := by
    cases hbuild
    decide +kernel
  have hend : (runMoves refusingSecond
      (finished (waiting (fun _ => []) ++ .run :: relay fun _ => []))
      ⟨i, store, .empty⟩ (0, [])).1.interpreter.pump = .ended := by
    cases hbuild
    decide +kernel
  obtain ⟨-, hposted, -, -, hclock, hended⟩ :=
    responses_posted refusingSecond hbuild .empty (waiting_quiet fun _ => []) (relay fun _ => []) 0
  rcases hrun : runMoves refusingSecond
    (finished (waiting (fun _ => []) ++ .run :: relay fun _ => []))
    ⟨i, store, .empty⟩ (0, []) with ⟨s, v, log⟩
  rw [hrun] at hresults hend hclock hended
  have hcount : acceptedCount log = 2 := by
    have hmap := List.countP_map (p := id) (f := Attempt.accepted) (l := log)
    rw [hresults] at hmap
    exact hmap.symm
  rw [hcount] at hclock
  refine ⟨i, store, hbuild, s, v, log, hrun, hposted.trans ?_, hresults, hclock, fun more => ?_⟩
  · cases hbuild
    decide +kernel
  · exact (hended hend more).2.2.2

end Site

end PeerMesh
