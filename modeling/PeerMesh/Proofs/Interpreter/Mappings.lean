import PeerMesh.Proofs.Interpreter.Books

namespace PeerMesh

variable {ν : Type}
variable (view : View)

def Remark.emission? (job : JobId) : Remark ν → Option Nat
  | emitted n j .. => if j = job then some n else none
  | _ => none

/-- The emitters that were called for `job`. -/
def emissions (job : JobId) (log : List (Remark ν)) : List Nat :=
  log.filterMap (Remark.emission? job)

theorem mem_emissions {job : JobId} {log : List (Remark ν)} {n : Nat} {key : String} {v : Val}
    {queued : Bool} (h : .emitted n job key v queued ∈ log) : n ∈ emissions job log :=
  List.mem_filterMap.mpr ⟨_, h, if_pos rfl⟩

def Remark.mapping? (job : JobId) : Remark ν → Option (Nat × ResponseShape)
  | mapping n j shape => if j = job then some (n, shape) else none
  | _ => none

/-- The calls of mappers for `job`. -/
def mappings (job : JobId) (log : List (Remark ν)) : List (Nat × ResponseShape) :=
  log.filterMap (Remark.mapping? job)

theorem mem_mappings {job : JobId} {log : List (Remark ν)} {n : Nat} {shape : ResponseShape}
    (h : (n, shape) ∈ mappings job log) : .mapping n job shape ∈ log := by
  obtain ⟨r, hr, hmapping⟩ := List.mem_filterMap.mp h
  cases r with
  | emitted | kept | moment => cases hmapping
  | mapping n' job' shape' =>
    rw [Remark.mapping?] at hmapping
    split at hmapping
    · next hjob =>
      cases hmapping
      exact hjob ▸ hr
    · cases hmapping

theorem mappings_append (job : JobId) (log more : List (Remark ν)) :
    mappings job (log ++ more) = mappings job log ++ mappings job more :=
  List.filterMap_append

theorem mappings_of_isInert {log : List (Remark ν)} (h : ∀ r ∈ log, r.isInert) (job : JobId) :
    mappings job log = [] := by
  rw [mappings, List.filterMap_eq_nil_iff]
  intro r hr
  have hinert := h r hr
  cases r with
  | mapping | emitted => cases hinert
  | kept | moment => rfl

theorem Script.run_mappings (emitter : Nat) (own job : JobId) (script : Script) (s : Site ν) :
    mappings job (script.run view emitter own s).2.2 = [] := by
  induction script generalizing s with
  | done | fail message | panic => rfl
  | emit target key v next ih => exact ih _ _
  | resolve key next ih =>
    rw [run]
    split
    · rfl
    · exact ih _ _
  | insert key v next ih | insertRecipe key r next ih | remove key next ih => exact ih _
  | retain slot next ih => exact ih s

namespace Site

variable {s : Site ν} {key mapper : String}

/-- What is not found is not served, and leaves no trace. -/
theorem receiveCustom_of_not_finds (h : ¬s.finds view key mapper) (job : JobId)
    (shape : ResponseShape) : (s.receiveCustom view job key mapper shape).2.2 = [] := by
  obtain ⟨-, store, hs⟩ | ⟨hfinds, script, store, -⟩ :=
    s.receiveCustom_cases view job key mapper shape
  · rw [hs]
  · exact absurd hfinds h

theorem receiveCustom_mappings (h : s.finds view key mapper) (own job : JobId)
    (shape : ResponseShape) :
    mappings job (s.receiveCustom view own key mapper shape).2.2 =
      if own = job then [(s.interpreter.emitters.length, shape)] else [] := by
  obtain ⟨hnot, store, -⟩ | ⟨-, script, store, hs⟩ :=
    s.receiveCustom_cases view own key mapper shape
  · exact absurd h hnot
  · have hrun := script.run_mappings view (s.interpreter.newEmitter shape).1 own job
      ⟨(s.interpreter.newEmitter shape).2, store, s.hub⟩
    rw [hs]
    dsimp only
    rw [mappings, List.filterMap_cons, ← mappings, hrun, Remark.mapping?]
    by_cases hj : own = job
    · rw [if_pos hj, if_pos hj]
      rfl
    · rw [if_neg hj, if_neg hj]

theorem receiveBroadcast_mappings_of_ne {payload : Bytes} {job : JobId}
    (h : ∀ key mapper shape, s.decode payload ≠ .ok (.custom job key mapper shape)) :
    mappings job (s.receiveBroadcast view payload).2.2 = [] := by
  cases hd : s.decode payload with
  | error e =>
    rw [receiveBroadcast, hd]
    rfl
  | ok c =>
    cases c with
    | custom own key mapper shape =>
      rw [receiveBroadcast_custom view hd]
      by_cases hf : s.finds view key mapper
      · rw [receiveCustom_mappings view hf, if_neg]
        rintro rfl
        exact h key mapper shape hd
      · rw [receiveCustom_of_not_finds view hf]
        rfl
    | rpc name args =>
      rw [receiveBroadcast, hd]
      exact mappings_of_isInert (s.isInert_emit _) job
    | customResponse j value =>
      rw [receiveBroadcast, hd]
      exact mappings_of_isInert (s.isInert_emit _) job

end Site

end PeerMesh
