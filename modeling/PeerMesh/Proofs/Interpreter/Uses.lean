import PeerMesh.Proofs.Interpreter.Pipeline
import PeerMesh.Proofs.Interpreter.Shapes

namespace PeerMesh

variable {ν σ : Type}

/-- From an interpreter one gets to others as custom commands are received, the emitters made for
them are called in any order, and responses leave the outbox. Whatever else is done leaves the
outbox open, and emitters and outbox alone. Told are the remarks on the way and the responses that
left. -/
inductive Interpreter.Uses (i : Interpreter) :
    List (Remark ν) → List Command → Interpreter → Prop
  | here : Uses i [] [] i
  | received {log : List (Remark ν)} {gone : List Command} {j : Interpreter} (h : Uses i log gone j)
    (job : JobId) (shape : ResponseShape) :
    Uses i (log ++ [.mapping (j.newEmitter shape).1 job shape]) gone (j.newEmitter shape).2
  | called {log : List (Remark ν)} {gone : List Command} {j : Interpreter} (h : Uses i log gone j)
    {n : Nat} (hn : n < j.emitters.length) (job : JobId) (key : String) (v : Val) :
    Uses i (log ++ [.emitted n job key v (j.emit n job key v).1]) gone (j.emit n job key v).2
  | left {log : List (Remark ν)} {gone : List Command} {j : Interpreter} (h : Uses i log gone j)
    {c : Command} {rest : List Command} (hc : j.outbox = c :: rest) :
    Uses i log (gone ++ [c]) { j with outbox := rest }
  | aside {log : List (Remark ν)} {gone : List Command} {j k : Interpreter} (h : Uses i log gone j)
    {more : List (Remark ν)} (hmore : ∀ r ∈ more, r.isInert) (hopen : k.isOpen)
    (hemitters : k.emitters = j.emitters) (houtbox : k.outbox = j.outbox) :
    Uses i (log ++ more) gone k

namespace Interpreter.Uses

variable {i j k : Interpreter} {log more : List (Remark ν)} {gone gone' : List Command}

theorem trans (h : Uses i log gone j) (h' : Uses j more gone' k) :
    Uses i (log ++ more) (gone ++ gone') k := by
  induction h' with
  | here =>
    rw [List.append_nil, List.append_nil]
    exact h
  | received _ job shape ih =>
    rw [← List.append_assoc]
    exact ih.received job shape
  | called _ hn job key v ih =>
    rw [← List.append_assoc]
    exact ih.called hn job key v
  | left _ hc ih =>
    rw [← List.append_assoc]
    exact ih.left hc
  | aside _ hmore hopen hemitters houtbox ih =>
    rw [← List.append_assoc]
    exact ih.aside hmore hopen hemitters houtbox

theorem still (hopen : k.isOpen) (hemitters : k.emitters = i.emitters)
    (houtbox : k.outbox = i.outbox) : Uses (ν := ν) i [] [] k := by
  have hnone : ∀ r ∈ ([] : List (Remark ν)), r.isInert := fun r hr => by cases hr
  exact here.aside hnone hopen hemitters houtbox

theorem inert {log : List (Remark ν)} (hlog : ∀ r ∈ log, r.isInert) (hopen : i.isOpen) :
    Uses i log [] i :=
  here.aside hlog hopen rfl rfl

theorem isOpen (h : Uses i log gone j) (hi : i.isOpen) : j.isOpen := by
  induction h with
  | here => exact hi
  | received _ job shape ih => exact ih
  | called _ hn job key v ih => exact (Resembles.emit _ _ job key v).isOpen.trans ih
  | left _ hc ih => exact ih
  | aside _ hmore hopen => exact hopen

theorem queued (h : Uses i log gone j) : i.outbox ++ queuedIn log = gone ++ j.outbox := by
  induction h with
  | here => exact List.append_nil _
  | received _ job shape ih =>
    rw [queuedIn_append]
    exact (congrArg _ (List.append_nil _)).trans ih
  | @called log gone j _ n hn job key v ih =>
    rw [queuedIn_append, ← List.append_assoc, ih, List.append_assoc, j.outbox_emit (ν := ν)]
  | left _ hc ih => rw [ih, hc, List.append_assoc, List.singleton_append]
  | aside _ hmore _ _ houtbox ih =>
    rw [queuedIn_append, queuedIn_of_isInert hmore, List.append_nil, houtbox, ih]

theorem books (h : Uses i log gone j) (hopen : i.isOpen) (he : i.emitters = [])
    (ho : i.outbox = []) : Books j gone log := by
  induction h with
  | here => exact .start he ho
  | received _ job shape ih => exact ih.newEmitter job shape
  | called h hn job key v ih =>
    exact ih.emit (h.isOpen hopen) (List.getElem?_eq_getElem hn) job key v
  | left _ hc ih => exact ih.forward hc rfl rfl
  | aside _ hmore _ hemitters houtbox ih => exact (ih.congr hemitters houtbox).inert hmore

end Interpreter.Uses

def Remark.outcome? (n : Nat) : Remark ν → Option Bool
  | emitted m _ _ _ queued => if m = n then some queued else none
  | _ => none

def outcomes (n : Nat) (log : List (Remark ν)) : List Bool :=
  log.filterMap (Remark.outcome? n)

theorem outcomes_append (n : Nat) (log more : List (Remark ν)) :
    outcomes n (log ++ more) = outcomes n log ++ outcomes n more :=
  List.filterMap_append

theorem outcomes_of_not_any {n : Nat} {log : List (Remark ν)}
    (h : log.any (Remark.isEmission n) = false) : outcomes n log = [] := by
  refine List.filterMap_eq_nil_iff.mpr fun r hr => ?_
  have hnot := List.any_eq_false.mp h r hr
  cases r with
  | mapping | kept | moment => rfl
  | emitted m job key v queued => exact if_neg fun hm => hnot (beq_iff_eq.mpr hm)

theorem any_of_outcomes {n : Nat} {log : List (Remark ν)} (h : outcomes n log = []) :
    log.any (Remark.isEmission n) = false := by
  refine List.any_eq_false.mpr fun r hr hemission => ?_
  have hnone := List.filterMap_eq_nil_iff.mp h r hr
  cases r with
  | mapping | kept | moment => cases hemission
  | emitted m job key v queued =>
    rw [Remark.outcome?, if_pos (beq_iff_eq.mp hemission)] at hnone
    cases hnone

/-- Calls of the emitter of a stream are all let through, of other ones the first is. -/
def ResponseShape.Allows : ResponseShape → List Bool → Prop
  | .stream, outcomes => ∀ b ∈ outcomes, b = true
  | .once, outcomes => outcomes = [] ∨ ∃ k, outcomes = true :: List.replicate k false

namespace Books

variable {i : Interpreter} {gone : List Command} {past : List (Remark ν)} {n : Nat}
  {shape : ResponseShape}

theorem emit_eq (h : Books i gone past) (hopen : i.isOpen) (hshape : shapeOf? n past = some shape)
    (job : JobId) (key : String) (v : Val) :
    (i.emit n job key v).1 = (shape = .stream || !past.any (Remark.isEmission n)) ∧
      (i.emit n job key v).2.outbox = i.outbox ++
        if shape = .stream || !past.any (Remark.isEmission n) then [Command.response job key v]
        else [] := by
  have hmap := h.shapes n
  rw [hshape, Option.map_eq_some_iff] at hmap
  obtain ⟨e, he, rfl⟩ := hmap
  have hallowed : (e.shape = .stream || !past.any (Remark.isEmission n)) =
      !(e.shape = .once && e.fired) := by
    rw [h.fired n e he]
    cases e.shape with
    | stream => rfl
    | once => rfl
  rw [hallowed, Interpreter.emit, he]
  dsimp only
  split
  · next hsilent =>
    rw [hsilent]
    exact ⟨rfl, (List.append_nil _).symm⟩
  · next hlets =>
    rw [Bool.eq_false_iff.mpr hlets]
    split
    · exact ⟨rfl, rfl⟩
    · next hclosed => exact absurd hopen hclosed

end Books

namespace Interpreter.Uses

variable {i j k : Interpreter} {log : List (Remark ν)} {gone : List Command}

/-- The calls of an emitter come back as its shape allows, whatever calls of other ones stand
between them. -/
theorem allows (h : Uses i log gone j) (hopen : i.isOpen) (he : i.emitters = [])
    (ho : i.outbox = []) {n : Nat} {shape : ResponseShape} (hshape : shapeOf? n log = some shape) :
    shape.Allows (outcomes n log) := by
  induction h with
  | here => cases hshape
  | @received log gone j h job made ih =>
    have hsame : outcomes n (log ++ [.mapping (j.newEmitter made).1 job made]) =
        outcomes n log := by
      rw [outcomes_append]
      exact List.append_nil _
    rw [hsame]
    rw [shapeOf?_append] at hshape
    cases hn : shapeOf? n log with
    | some shape' =>
      rw [hn] at hshape
      cases hshape
      exact ih hn
    | none =>
      have hnone : outcomes n log = [] :=
        outcomes_of_not_any ((h.books hopen he ho).inTurn.any_isEmission hn)
      rw [hnone]
      cases shape with
      | stream => exact fun b hb => by cases hb
      | once => exact .inl rfl
  | @called log gone j h m hm job key v ih =>
    rw [shapeOf?_append] at hshape
    have hshape := Option.or_none.symm.trans hshape
    rw [outcomes_append]
    by_cases hmn : m = n
    · subst hmn
      have hemit := ((h.books hopen he ho).emit_eq (h.isOpen hopen) hshape job key v).1
      rw [hemit]
      have hlast : outcomes (ν := ν) m [.emitted m job key v
          (shape = .stream || !log.any (Remark.isEmission m))] =
            [(shape = .stream || !log.any (Remark.isEmission m))] := by
        simp [outcomes, Remark.outcome?]
      rw [hlast]
      have hbefore := ih hshape
      cases shape with
      | stream =>
        intro b hb
        obtain hb | hb := List.mem_append.mp hb
        · exact hbefore b hb
        · exact List.mem_singleton.mp hb
      | once =>
        obtain hnil | ⟨k, hk⟩ := hbefore
        · rw [any_of_outcomes hnil, hnil]
          exact .inr ⟨0, rfl⟩
        · have hany : log.any (Remark.isEmission m) = true := by
            refine Bool.not_eq_false _ |>.mp fun hnot => ?_
            rw [outcomes_of_not_any hnot] at hk
            cases hk
          rw [hany, hk]
          exact .inr ⟨k + 1, by rw [List.replicate_succ']; rfl⟩
    · have hother : outcomes (ν := ν) n [.emitted m job key v (j.emit m job key v).1] = [] := by
        simp [outcomes, Remark.outcome?, hmn]
      rw [hother, List.append_nil]
      exact ih hshape
  | left _ hc ih => exact ih hshape
  | aside _ hmore _ _ _ ih =>
    rw [shapeOf?_append, shapeOf?_of_isInert hmore, Option.or_none] at hshape
    rw [outcomes_append, outcomes_of_not_any (any_isEmission_of_isInert hmore n), List.append_nil]
    exact ih hshape

end Interpreter.Uses

end PeerMesh
