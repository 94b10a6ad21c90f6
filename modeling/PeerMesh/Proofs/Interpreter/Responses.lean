import PeerMesh.Proofs.Interpreter.Inbound
import PeerMesh.Proofs.Interpreter.Pump

namespace PeerMesh

variable {ν : Type}

/-- The shape of the custom command for which an emitter was made. -/
def shapeOf? (emitter : Nat) : List (Remark ν) → Option ResponseShape
  | [] => none
  | .mapping n _ shape :: past => if n = emitter then some shape else shapeOf? emitter past
  | _ :: past => shapeOf? emitter past

def Remark.isEmission (emitter : Nat) : Remark ν → Bool
  | emitted n .. => n == emitter
  | _ => false

/-- Whether an emitter lets the next response through: all of a stream, or the first one. -/
def letsThrough (past : List (Remark ν)) (emitter : Nat) : Bool :=
  match shapeOf? emitter past with
  | some .stream => true
  | some .once => !past.any (Remark.isEmission emitter)
  | none => false

/-- The responses that were let through, in their order, after `past`. -/
def responses (past : List (Remark ν)) : List (Remark ν) → List Command
  | [] => []
  | .emitted n job key v queued :: rest =>
    (if letsThrough past n then [Command.response job key v] else []) ++
      responses (past ++ [.emitted n job key v queued]) rest
  | r :: rest => responses (past ++ [r]) rest

theorem responses_append (past xs ys : List (Remark ν)) :
    responses past (xs ++ ys) = responses past xs ++ responses (past ++ xs) ys := by
  induction xs generalizing past with
  | nil => rw [List.nil_append, List.append_nil, responses, List.nil_append]
  | cons r xs ih =>
    have hassoc : past ++ r :: xs = past ++ [r] ++ xs := by
      rw [List.append_assoc, List.singleton_append]
    cases r with
    | emitted n job key v queued =>
      rw [List.cons_append, responses, responses, ih, hassoc]
      exact (List.append_assoc ..).symm
    | mapping | kept | moment => rw [List.cons_append, responses, responses, ih, hassoc] <;> simp

theorem mem_responses {past log : List (Remark ν)} {c : Command} (h : c ∈ responses past log) :
    ∃ n job key v queued, .emitted n job key v queued ∈ log ∧ c = .response job key v := by
  induction log generalizing past with
  | nil => cases h
  | cons r log ih =>
    cases r with
    | emitted n job key v queued =>
      rw [responses] at h
      obtain h | h := List.mem_append.mp h
      · split at h
        · exact ⟨n, job, key, v, queued, List.mem_cons_self, List.mem_singleton.mp h⟩
        · cases h
      · obtain ⟨n', job', key', v', queued', hmem, hc⟩ := ih h
        exact ⟨n', job', key', v', queued', List.mem_cons_of_mem _ hmem, hc⟩
    | mapping | kept | moment =>
      obtain ⟨n', job', key', v', queued', hmem, hc⟩ := ih h
      exact ⟨n', job', key', v', queued', List.mem_cons_of_mem _ hmem, hc⟩

theorem shapeOf?_append (emitter : Nat) (past more : List (Remark ν)) :
    shapeOf? emitter (past ++ more) = (shapeOf? emitter past).or (shapeOf? emitter more) := by
  induction past with
  | nil => rfl
  | cons r past ih =>
    cases r with
    | mapping n job shape =>
      rw [List.cons_append, shapeOf?, shapeOf?, ih]
      split
      · rfl
      · rfl
    | emitted | kept | moment => exact ih

/-- The remark is not about emitters. -/
def Remark.isInert : Remark ν → Bool
  | kept .. => true
  | moment _ => true
  | _ => false

theorem responses_of_isInert {log : List (Remark ν)} (h : ∀ r ∈ log, r.isInert)
    (past : List (Remark ν)) : responses past log = [] := by
  induction log generalizing past with
  | nil => rfl
  | cons r log ih =>
    have hr := h r List.mem_cons_self
    cases r with
    | mapping | emitted => cases hr
    | kept | moment => exact ih (fun r' hr' => h r' (List.mem_cons_of_mem _ hr')) _

theorem shapeOf?_of_isInert {log : List (Remark ν)} (h : ∀ r ∈ log, r.isInert) (emitter : Nat) :
    shapeOf? emitter log = none := by
  induction log with
  | nil => rfl
  | cons r log ih =>
    have hr := h r List.mem_cons_self
    cases r with
    | mapping | emitted => cases hr
    | kept | moment => exact ih fun r' hr' => h r' (List.mem_cons_of_mem _ hr')

theorem any_isEmission_of_isInert {log : List (Remark ν)} (h : ∀ r ∈ log, r.isInert)
    (emitter : Nat) : log.any (Remark.isEmission emitter) = false := by
  rw [List.any_eq_false]
  intro r hr
  have hinert := h r hr
  cases r with
  | mapping | emitted => cases hinert
  | kept | moment => exact Bool.false_ne_true

theorem any_isEmission_mapping (past : List (Remark ν)) (m : Nat) (job : JobId)
    (shape : ResponseShape) (n : Nat) :
    (past ++ [Remark.mapping m job shape]).any (Remark.isEmission n) =
      past.any (Remark.isEmission n) := by
  simp [Remark.isEmission]

theorem any_isEmission_emitted (past : List (Remark ν)) (m : Nat) (job : JobId) (key : String)
    (v : Val) (queued : Bool) (n : Nat) :
    (past ++ [Remark.emitted m job key v queued]).any (Remark.isEmission n) =
      (past.any (Remark.isEmission n) || m == n) := by
  simp [Remark.isEmission]

theorem responses_emitted (past before : List (Remark ν)) (n : Nat) (job : JobId) (key : String)
    (v : Val) (queued : Bool) :
    responses past (before ++ [.emitted n job key v queued]) =
      responses past before ++
        if letsThrough (past ++ before) n then [Command.response job key v] else [] := by
  rw [responses_append, responses, responses, List.append_nil]

/-- An emitter is made once, and it is there before it is called. -/
def Remark.Follows (past : List (Remark ν)) : Remark ν → Prop
  | mapping n .. => shapeOf? n past = none
  | emitted n .. => (shapeOf? n past).isSome
  | _ => True

def InTurn (past : List (Remark ν)) : List (Remark ν) → Prop
  | [] => True
  | r :: rest => r.Follows past ∧ InTurn (past ++ [r]) rest

theorem inTurn_append {past xs ys : List (Remark ν)} :
    InTurn past (xs ++ ys) ↔ InTurn past xs ∧ InTurn (past ++ xs) ys := by
  induction xs generalizing past with
  | nil =>
    rw [List.nil_append, List.append_nil, InTurn]
    exact (true_and _).symm ▸ Iff.rfl
  | cons r xs ih =>
    rw [List.cons_append, InTurn, InTurn, ih, List.append_assoc, List.singleton_append, and_assoc]

theorem inTurn_of_isInert {log : List (Remark ν)} (h : ∀ r ∈ log, r.isInert)
    (past : List (Remark ν)) : InTurn past log := by
  induction log generalizing past with
  | nil => trivial
  | cons r log ih =>
    have hr := h r List.mem_cons_self
    refine ⟨?_, ih (fun r' hr' => h r' (List.mem_cons_of_mem _ hr')) _⟩
    cases r with
    | mapping | emitted => cases hr
    | kept | moment => trivial

theorem InTurn.add {past : List (Remark ν)} (h : InTurn [] past) {r : Remark ν}
    (hr : r.Follows past) : InTurn [] (past ++ [r]) :=
  inTurn_append.mpr ⟨h, hr, trivial⟩

end PeerMesh
