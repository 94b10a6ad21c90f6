import PeerMesh.Proofs.Interpreter.Reductions
import PeerMesh.Proofs.Interpreter.Mappings

namespace PeerMesh

variable {ν : Type} {past log : List (Remark ν)} {n : Nat} {job : JobId}

theorem filter_answers_responses (h : emissions job log = []) (past : List (Remark ν)) :
    (responses past log).filter (Command.answers job) = [] := by
  refine List.filter_eq_nil_iff.mpr fun c hc ha => ?_
  obtain ⟨n, j, key, val, queued, hmem, rfl⟩ := mem_responses hc
  cases Option.some.inj (Command.job?_of_answers ha)
  have hn := mem_emissions hmem
  rw [h] at hn
  cases hn

def Remark.response? (job : JobId) : Remark ν → Option Command
  | emitted _ j key v _ => if j = job then some (Command.response job key v) else none
  | _ => none

/-- The responses that were asked for in calls of emitters for `job`. -/
def emitted (job : JobId) (log : List (Remark ν)) : List Command :=
  log.filterMap (Remark.response? job)

theorem emitted_cons (job : JobId) (r : Remark ν) (log : List (Remark ν)) :
    emitted job (r :: log) = (r.response? job).toList ++ emitted job log := by
  rw [emitted, List.filterMap_cons]
  cases r.response? job with
  | none => rfl
  | some c => rfl

theorem answers_response (j job : JobId) (key : String) (v : Val) :
    (Command.response j key v).answers job = decide (j = job) := by
  rw [Command.answers, Command.response, Command.answer?]
  by_cases hj : j = job
  · rw [if_pos hj, decide_eq_true hj]
    rfl
  · rw [if_neg hj, decide_eq_false hj]
    rfl

theorem filter_answers_of_ne {j : JobId} (h : j ≠ job) (p : Prop) [Decidable p] (key : String)
    (v : Val) :
    (if p then [Command.response j key v] else []).filter (Command.answers job) = [] := by
  split
  · rw [List.filter_cons_of_neg]
    · rfl
    · rw [answers_response, decide_eq_false h]
      exact Bool.false_ne_true
  · rfl

theorem shapeOf?_of_prefix {shape : ResponseShape} (h : shapeOf? n (past ++ log) = some shape)
    (hsome : (shapeOf? n past).isSome) : shapeOf? n past = some shape := by
  obtain ⟨shape', hshape⟩ := Option.isSome_iff_exists.mp hsome
  rw [shapeOf?_append, hshape] at h
  cases h
  exact hshape

theorem InTurn.shapeOf?_eq (h : InTurn past log) {own : JobId} {shape : ResponseShape}
    (hmem : .mapping n own shape ∈ log) :
    shapeOf? n past = none ∧ shapeOf? n (past ++ log) = some shape := by
  induction log generalizing past with
  | nil => cases hmem
  | cons r log ih =>
    obtain ⟨hr, hlog⟩ := h
    obtain rfl | hmem := List.mem_cons.mp hmem
    · have hnone : shapeOf? n past = none := hr
      rw [shapeOf?_append, hnone, shapeOf?, if_pos rfl]
      exact ⟨rfl, rfl⟩
    · obtain ⟨hnone, hsome⟩ := ih hlog hmem
      rw [shapeOf?_append, Option.or_eq_none_iff] at hnone
      rw [List.append_assoc, List.singleton_append] at hsome
      exact ⟨hnone.1, hsome⟩

theorem InTurn.any_isEmission (h : InTurn past log) (hnone : shapeOf? n (past ++ log) = none) :
    log.any (Remark.isEmission n) = false := by
  induction log generalizing past with
  | nil => rfl
  | cons r log ih =>
    obtain ⟨hr, hlog⟩ := h
    have hrest := ih hlog (by rw [List.append_assoc, List.singleton_append]; exact hnone)
    rw [List.any_cons, hrest, Bool.or_false]
    cases r with
    | mapping | kept | moment => rfl
    | emitted m j key v queued =>
      rw [shapeOf?_append, Option.or_eq_none_iff] at hnone
      refine beq_false_of_ne fun hm => ?_
      have hsome : (shapeOf? m past).isSome := hr
      rw [hm, hnone.1] at hsome
      cases hsome

theorem mem_emissions_cons {k : Nat} (h : k ∈ emissions job log) (r : Remark ν) :
    k ∈ emissions job (r :: log) := by
  rw [emissions, List.filterMap_cons]
  split
  · exact h
  · exact List.mem_cons_of_mem _ h

/-- Every call for `job` of the emitter of a stream is answered. -/
theorem InTurn.responses_of_stream (h : InTurn past log)
    (hshape : shapeOf? n (past ++ log) = some .stream) (hown : ∀ k ∈ emissions job log, k = n) :
    (responses past log).filter (Command.answers job) = emitted job log := by
  induction log generalizing past with
  | nil => rfl
  | cons r log ih =>
    obtain ⟨hr, hlog⟩ := h
    have hrest : past ++ r :: log = past ++ [r] ++ log := by
      rw [List.append_assoc, List.singleton_append]
    have ih := ih hlog (hrest ▸ hshape) fun k hk => hown k (mem_emissions_cons hk r)
    cases r with
    | mapping | kept | moment => exact ih
    | emitted m j key v queued =>
      rw [responses, List.filter_append, ih, emitted_cons, Remark.response?]
      by_cases hj : j = job
      · subst hj
        have hm : m = n := hown m (mem_emissions List.mem_cons_self)
        subst hm
        have hlets : letsThrough past m := by
          rw [letsThrough, shapeOf?_of_prefix hshape hr]
        rw [if_pos hlets, if_pos rfl, List.filter_cons_of_pos]
        · rfl
        · rw [answers_response]
          exact decide_eq_true rfl
      · rw [filter_answers_of_ne hj, if_neg hj]
        rfl

theorem InTurn.responses_of_once (h : InTurn past log)
    (hshape : shapeOf? n (past ++ log) = some .once) (hown : ∀ k ∈ emissions job log, k = n)
    (hjob : ∀ j key v queued, .emitted n j key v queued ∈ log → j = job) :
    (responses past log).filter (Command.answers job) =
      if past.any (Remark.isEmission n) then [] else (emitted job log).take 1 := by
  induction log generalizing past with
  | nil => exact (ite_self _).symm
  | cons r log ih =>
    obtain ⟨hr, hlog⟩ := h
    have hrest : past ++ r :: log = past ++ [r] ++ log := by
      rw [List.append_assoc, List.singleton_append]
    have ih := ih hlog (hrest ▸ hshape) (fun k hk => hown k (mem_emissions_cons hk r))
      fun j key v queued hmem => hjob j key v queued (List.mem_cons_of_mem _ hmem)
    rw [List.any_append, List.any_cons, List.any_nil, Bool.or_false] at ih
    cases r with
    | mapping | kept | moment =>
      simp only [Remark.isEmission, Bool.or_false] at ih
      exact ih
    | emitted m j key v queued =>
      rw [responses, List.filter_append, ih, emitted_cons, Remark.isEmission, Remark.response?]
      by_cases hj : j = job
      · subst hj
        have hm : m = n := hown m (mem_emissions List.mem_cons_self)
        subst hm
        rw [BEq.rfl, Bool.or_true, if_pos rfl, if_pos rfl, List.append_nil, letsThrough,
          shapeOf?_of_prefix hshape hr]
        cases past.any (Remark.isEmission m) with
        | true => rfl
        | false =>
          refine List.filter_cons_of_pos ?_
          rw [answers_response]
          exact decide_eq_true rfl
      · have hm : (m == n) = false := by
          refine beq_false_of_ne fun hm => hj ?_
          subst hm
          exact hjob j key v queued List.mem_cons_self
        rw [hm, Bool.or_false, filter_answers_of_ne hj, if_neg hj]
        rfl

end PeerMesh
