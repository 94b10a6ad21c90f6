import PeerMesh.Proofs.Interpreter.Turns

namespace PeerMesh

namespace Site

variable {ν σ : Type}
variable (link : Link σ) (s : Site ν)

namespace Turn

def play (turns : List (Turn ν σ)) (s : Site ν) (w : σ × List Attempt) :
    Site ν × σ × List Attempt :=
  turns.foldl (fun p t => (t.perform link p.1 p.2).2) (s, w)

/-- The payloads that the pump serves in the turns. -/
def dispatched : List (Turn ν σ) → Site ν → σ × List Attempt → List Intake
  | [], _, _ => []
  | t :: turns, s, w =>
    (t.served? s.interpreter.pump).toList ++
      dispatched turns (t.perform link s w).2.1 (t.perform link s w).2.2

/-- The errors with which the calls to start the pump came back. -/
def answers : List (Turn ν σ) → Site ν → σ × List Attempt → List (Option CallError)
  | [], _, _ => []
  | t :: turns, s, w =>
    (if t.isRun then [(t.perform link s w).1] else []) ++
      answers turns (t.perform link s w).2.1 (t.perform link s w).2.2

theorem play_append (before turns : List (Turn ν σ)) (w : σ × List Attempt) :
    play link (before ++ turns) s w =
      play link turns (play link before s w).1 (play link before s w).2 :=
  List.foldl_append

theorem dispatched_append (before turns : List (Turn ν σ)) (w : σ × List Attempt) :
    dispatched link (before ++ turns) s w = dispatched link before s w ++
      dispatched link turns (play link before s w).1 (play link before s w).2 := by
  induction before generalizing s w with
  | nil => rfl
  | cons t before ih =>
    rw [List.cons_append, dispatched, dispatched, ih, List.append_assoc]
    rfl

theorem answers_append (before turns : List (Turn ν σ)) (w : σ × List Attempt) :
    answers link (before ++ turns) s w = answers link before s w ++
      answers link turns (play link before s w).1 (play link before s w).2 := by
  induction before generalizing s w with
  | nil => rfl
  | cons t before ih =>
    rw [List.cons_append, answers, answers, ih, List.append_assoc]
    rfl

theorem eq_run_of_isRun {t : Turn ν σ} (h : t.isRun) : t = .move .run := by
  cases t with
  | take => cases h
  | move m =>
    cases m with
    | run => rfl
    | _ => cases h

theorem eq_stop_of_isStop {t : Turn ν σ} (h : t.isStop) : t = .move .stop := by
  cases t with
  | take => cases h
  | move m =>
    cases m with
    | stop => rfl
    | _ => cases h

theorem on_of_delivery? {t : Turn ν σ} {view : View} {d : Delivery}
    (h : t.delivery? = some (view, d)) (c : Channel) :
    t.on c = if d.channel = c then some (d.arrival view) else none := by
  cases hstop : t.isStop with
  | true =>
    cases eq_stop_of_isStop hstop
    cases h
  | false => rw [on, hstop, if_neg Bool.false_ne_true, h, Option.bind_some]

theorem drive_idle {t : Turn ν σ} (hrun : t.isRun = false) (hstop : t.isStop = false) :
    t.drive .idle = .idle ∧ t.served? .idle = none := by
  have hserves : ∀ c, Pump.idle.serves c = false := by
    intro c
    cases c <;> rfl
  rw [drive, hrun, hstop, served?]
  cases t.delivery? with
  | none => exact ⟨rfl, rfl⟩
  | some d =>
    simp [hserves]

theorem drive_serving (t : Turn ν σ) (isOpen : Channel → Bool) :
    t.drive (.serving isOpen) =
      .serving fun c => isOpen c && (t.on c).all fun a => a.item?.isSome := by
  rw [drive]
  cases hrun : t.isRun with
  | true =>
    cases eq_run_of_isRun hrun
    rw [if_pos rfl, if_neg (Pump.serving_ne_idle isOpen)]
    simp [on, isStop, delivery?]
  | false =>
    rw [if_neg Bool.false_ne_true]
    cases hstop : t.isStop with
    | true =>
      rw [if_pos rfl, eq_comm, Pump.serving_eq_ended]
      simp [on, hstop, Arrival.item?]
    | false =>
      rw [if_neg Bool.false_ne_true]
      cases hd : t.delivery? with
      | none => simp [on, hstop, hd]
      | some p =>
        obtain ⟨view, d⟩ := p
        dsimp only
        rw [Pump.serves_serving]
        cases hitem : (d.arrival view).item? with
        | some x =>
          rw [Option.isNone_some, Bool.and_false, if_neg Bool.false_ne_true]
          refine congrArg _ (funext fun c => ?_)
          by_cases hc : d.channel = c <;> simp [on_of_delivery? hd, hc, hitem]
        | none =>
          rw [Option.isNone_none, Bool.and_true]
          by_cases ho : isOpen d.channel
          · rw [if_pos ho, Pump.close_serving isOpen ho]
            refine congrArg _ (funext fun c => ?_)
            by_cases hc : d.channel = c
            · simp [on_of_delivery? hd, hc, hitem]
            · simp [on_of_delivery? hd, hc, Ne.symm hc]
          · rw [if_neg ho]
            refine congrArg _ (funext fun c => ?_)
            by_cases hc : d.channel = c
            · subst hc
              simp [ho]
            · simp [on_of_delivery? hd, hc]

theorem served?_serving (t : Turn ν σ) (isOpen : Channel → Bool) (c : Channel) :
    (t.served? (.serving isOpen)).toList.filter (fun x => x.channel = c) =
      if isOpen c then ((t.on c).bind Arrival.item?).toList else [] := by
  rw [served?]
  cases hd : t.delivery? with
  | none =>
    have hnone : (t.on c).bind Arrival.item? = none := by
      rw [on, hd]
      split
      · rfl
      · rfl
    rw [hnone, Option.toList_none, ite_self]
    rfl
  | some p =>
    obtain ⟨view, d⟩ := p
    rw [on_of_delivery? hd, Option.bind_some, Pump.serves_serving]
    by_cases hc : d.channel = c
    · subst hc
      rw [if_pos rfl, Option.bind_some]
      split
      · cases harrival : d.arrival view with
        | item x => simp [Arrival.item?, Delivery.channel_of_arrival harrival]
        | closed | failed => rfl
      · rfl
    · rw [if_neg hc, Option.bind_none, Option.toList_none, ite_self]
      split
      · cases harrival : d.arrival view with
        | item x => simp [Arrival.item?, Delivery.channel_of_arrival harrival, hc]
        | closed | failed => rfl
      · rfl

variable {s}

theorem perform_of_serving {isOpen : Channel → Bool} (h : s.interpreter.pump = .serving isOpen)
    (t : Turn ν σ) (w : σ × List Attempt) :
    (t.perform link s w).2.1.interpreter.pump =
      .serving fun c => isOpen c && (t.on c).all fun a => a.item?.isSome := by
  rw [perform_pump, h, drive_serving]

theorem pump_play {isOpen : Channel → Bool} (h : s.interpreter.pump = .serving isOpen)
    (turns : List (Turn ν σ)) (w : σ × List Attempt) :
    (play link turns s w).1.interpreter.pump =
      .serving fun c => isOpen c && Arrival.stayOpen (turns.filterMap (on c)) := by
  induction turns generalizing s w isOpen with
  | nil => simpa [play, Arrival.stayOpen] using h
  | cons t turns ih =>
    have hpump := t.perform_of_serving link h w
    refine (ih hpump (t.perform link s w).2.2).trans (congrArg _ (funext fun c => ?_))
    rw [List.filterMap_cons, Bool.and_assoc]
    cases t.on c with
    | none => rfl
    | some a => rfl

/-- Each channel that is open has what it brings until its end served. -/
theorem dispatched_of_serving {isOpen : Channel → Bool} (h : s.interpreter.pump = .serving isOpen)
    (turns : List (Turn ν σ)) (w : σ × List Attempt) (c : Channel) :
    (dispatched link turns s w).filter (fun x => x.channel = c) =
      if isOpen c then Arrival.untilEnd (turns.filterMap (on c)) else [] := by
  induction turns generalizing s w isOpen with
  | nil => exact (ite_self []).symm
  | cons t turns ih =>
    rw [dispatched, List.filter_append, h, served?_serving, ih (t.perform_of_serving link h w),
      List.filterMap_cons]
    cases t.on c with
    | none =>
      rw [Option.bind_none, Option.toList_none, ite_self, List.nil_append, Option.all_none,
        Bool.and_true]
    | some a =>
      rw [Option.bind_some, Option.all_some]
      cases isOpen c with
      | false => rfl
      | true =>
        cases a with
        | item x | closed | failed => rfl

theorem answers_of_serving {isOpen : Channel → Bool} (h : s.interpreter.pump = .serving isOpen)
    (turns : List (Turn ν σ)) (w : σ × List Attempt) :
    answers link turns s w = List.replicate (turns.countP isRun) (some .alreadyRunning) := by
  induction turns generalizing s w isOpen with
  | nil => rfl
  | cons t turns ih =>
    rw [answers, ih (t.perform_of_serving link h w), List.countP_cons]
    cases hrun : t.isRun with
    | false => rfl
    | true =>
      cases eq_run_of_isRun hrun
      have hidle : s.interpreter.pump ≠ .idle := h ▸ Pump.serving_ne_idle isOpen
      have hrefused : ((move Move.run).perform link s w).1 = some .alreadyRunning := by
        rw [perform, Move.perform, Interpreter.run, if_neg hidle]
        rfl
      rw [if_pos rfl, if_pos rfl, hrefused, List.replicate_succ]
      rfl

theorem play_of_idle (h : s.interpreter.pump = .idle) {turns : List (Turn ν σ)}
    (hturns : ∀ t ∈ turns, t.isRun = false ∧ t.isStop = false) (w : σ × List Attempt) :
    (play link turns s w).1.interpreter.pump = .idle ∧ dispatched link turns s w = [] ∧
      answers link turns s w = [] := by
  induction turns generalizing s w with
  | nil => exact ⟨h, rfl, rfl⟩
  | cons t turns ih =>
    obtain ⟨⟨hrun, hstop⟩, hrest⟩ := List.forall_mem_cons.mp hturns
    obtain ⟨hdrive, hserved⟩ := drive_idle hrun hstop
    have hpump : (t.perform link s w).2.1.interpreter.pump = .idle := by
      rw [perform_pump, h, hdrive]
    obtain ⟨hplay, hdispatched, hanswers⟩ := ih hpump hrest (t.perform link s w).2.2
    refine ⟨hplay, ?_, ?_⟩
    · rw [dispatched, h, hserved, hdispatched]
      rfl
    · rw [answers, hrun, hanswers]
      rfl

end Turn

variable {s}

/-- From the start of the pump of a site on, each channel has all that it brings served, in order,
until it first closes or fails, and nothing after that. To take a payload is to serve it, whatever
comes of it, and only then does the pump broadcast what waits. It ends with the second of the
channels. It was started once, and all later calls to start it are refused. -/
theorem pump_life (hidle : s.interpreter.pump = .idle) {before : List (Turn ν σ)}
    (hbefore : ∀ t ∈ before, t.isRun = false ∧ t.isStop = false) (after : List (Turn ν σ))
    (w : σ × List Attempt) :
    let turns := before ++ .move .run :: after
    let here := Turn.play link turns s w
    let isOpen c := Arrival.stayOpen (after.filterMap (Turn.on c))
    (∀ c, (Turn.dispatched link turns s w).filter (fun x => x.channel = c) =
      Arrival.untilEnd (after.filterMap (Turn.on c))) ∧
    (∀ view d,
      here.1.take view d =
        if isOpen d.channel then
          match (d.arrival view).item? with
          | some x => (here.1.serve x).after
          | none =>
            { here.1 with
              interpreter :=
                here.1.interpreter.setPump (here.1.interpreter.pump.close d.channel) }
        else here.1) ∧
    (∀ view d,
      let pumped := here.1.pump link.recorded view d here.2
      (pumped.1, pumped.2.2) =
        if isOpen d.channel && (d.arrival view).item?.isSome then
          (here.1.take view d).settled link.recorded here.2
        else (here.1.take view d, here.2)) ∧
    (here.1.interpreter.pump = .ended ↔ ∀ c, isOpen c = false) ∧
    Turn.answers link turns s w =
      none :: List.replicate (after.countP Turn.isRun) (some .alreadyRunning) := by
  obtain ⟨hstill, hnothing, hnone⟩ := Turn.play_of_idle link hidle hbefore w
  generalize hw : (Turn.play link before s w) = p at hstill
  have hstart : ((Turn.move Move.run).perform link p.1 p.2).2.1.interpreter.pump =
      .serving fun _ => true := by
    rw [Turn.perform_pump, hstill]
    rfl
  have hok : ((Turn.move Move.run).perform link p.1 p.2).1 = none := by
    rw [Turn.perform, Move.perform, Interpreter.run, if_pos hstill]
    rfl
  have hserved : (Turn.move (ν := ν) (σ := σ) Move.run).served? p.1.interpreter.pump = none := rfl
  intro turns here isOpen
  have hpump : here.1.interpreter.pump = .serving isOpen := by
    have h := Turn.pump_play link hstart after ((Turn.move Move.run).perform link p.1 p.2).2.2
    simp only [Bool.true_and] at h
    rw [← h]
    simp only [here, turns]
    rw [Turn.play_append, hw]
    rfl
  refine ⟨fun c => ?_, fun view d => ?_, fun view d => ?_, ?_, ?_⟩
  · simp only [turns]
    rw [Turn.dispatched_append, hnothing, hw, List.nil_append, Turn.dispatched, hserved]
    exact Turn.dispatched_of_serving link hstart after _ c
  · rw [← Pump.serves_serving isOpen, ← hpump]
    rfl
  · intro pumped
    rw [← Pump.serves_serving isOpen, ← hpump]
    exact here.1.pump_eq_take link.recorded view d here.2
  · rw [hpump]
    exact Pump.serving_eq_ended isOpen
  · simp only [turns]
    rw [Turn.answers_append, hnone, hw, List.nil_append, Turn.answers, hok]
    exact congrArg (none :: ·) (Turn.answers_of_serving link hstart after _)

def shift (view : View) : List (Turn Unit Nat) :=
  [.take view (.broadcast (.item (utf8 "ping"))),
    .move (.deliver view (.unicast (.item (⟨"b"⟩, (Command.rpc "ping" []).enveloped)))),
    .move (.deliver view (.broadcast (.failed (.io "reset")))),
    .move .run,
    .take view (.broadcast (.item (utf8 "late"))),
    .take view (.unicast (.item (⟨"b"⟩, utf8 "ping"))),
    .take view (.unicast .closed),
    .move .run]

theorem pump_life_shift :
    let waiting : Site Unit :=
      { counting with interpreter := { counting.interpreter with pump := .idle } }
    let turns := [.move (.emit 0 ⟨"j"⟩ "k" .unit)] ++ .move .run :: shift fun _ => []
    (∀ c, (Turn.dispatched refusingSecond turns waiting (0, [])).filter (fun x => x.channel = c) =
      match c with
      | .broadcast => [.broadcast (fun _ => []) (utf8 "ping")]
      | .unicast =>
        [.unicast ⟨"b"⟩ (Command.rpc "ping" []).enveloped, .unicast ⟨"b"⟩ (utf8 "ping")]) ∧
    (Turn.play refusingSecond turns waiting (0, [])).1.interpreter.pump = .ended ∧
    Turn.answers refusingSecond turns waiting (0, []) =
      [none, some .alreadyRunning, some .alreadyRunning] := by
  intro waiting turns
  have hidle : waiting.interpreter.pump = .idle := rfl
  have hbefore : ∀ t ∈ [(Turn.move (.emit 0 ⟨"j"⟩ "k" .unit) : Turn Unit Nat)],
      t.isRun = false ∧ t.isStop = false := by
    intro t ht
    cases List.mem_singleton.mp ht
    exact ⟨rfl, rfl⟩
  obtain ⟨hserved, -, -, hended, hanswers⟩ :=
    pump_life refusingSecond hidle hbefore (shift fun _ => []) (0, [])
  refine ⟨fun c => (hserved c).trans ?_, hended.mpr fun c => ?_, hanswers⟩
  · cases c <;> rfl
  · cases c <;> rfl

end Site

end PeerMesh
