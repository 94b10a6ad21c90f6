import PeerMesh.Proofs.Interpreter.Calls
import PeerMesh.Proofs.Interpreter.Edits

namespace PeerMesh

open Store (jobsKey)

/-- What happens to the jobs of those who share a store, and to the store. -/
inductive Notice
  | drew (member : Nat) (job : JobId)
  | acknowledged (job : JobId) (key : String)
  | failed (job : JobId) (e : CallError)
  | edited (e : Edit)

namespace Notice

def apply : Notice → Store → Store
  | acknowledged job key, s => s.recordJob job key
  | edited e, s => e.apply s
  | _, s => s

def drawn? : Notice → Option (Nat × JobId)
  | drew n job => some (n, job)
  | _ => none

def issued? : Notice → Option (JobId × String)
  | acknowledged job key => some (job, key)
  | _ => none

def failed? : Notice → Option JobId
  | failed job _ => some job
  | _ => none

def edit? : Notice → Option Edit
  | edited e => some e
  | _ => none

def settling (job : JobId) (key : String) : Except CallError JobId → Notice
  | .ok j => acknowledged j key
  | .error e => failed job e

end Notice

def drawn (log : List Notice) : List (Nat × JobId) :=
  log.filterMap Notice.drawn?

def drawnBy (n : Nat) (log : List Notice) : List JobId :=
  (drawn log).filterMap fun d => if d.1 = n then some d.2 else none

/-- The acknowledged jobs, each with the key that it was issued for. -/
def issued (log : List Notice) : List (JobId × String) :=
  log.filterMap Notice.issued?

def failures (log : List Notice) : List JobId :=
  log.filterMap Notice.failed?

def editsIn (log : List Notice) : List Edit :=
  log.filterMap Notice.edit?

def jobEntry (issue : JobId × String) : String × Val :=
  (issue.1.id, .string issue.2)

def Store.replay (s : Store) (log : List Notice) : Store :=
  log.foldl (fun s x => x.apply s) s

namespace Store

theorem replay_append (s : Store) (log more : List Notice) :
    s.replay (log ++ more) = (s.replay log).replay more :=
  List.foldl_append

theorem replay_edits (s : Store) (edits : List Edit) :
    s.replay (edits.map .edited) = s.edited edits :=
  List.foldl_map

theorem get?_recordJob {s : Store} {jobs : Fields Val}
    (h : s.get? jobsKey = some (.value (.map jobs))) (job : JobId) (key : String) :
    (s.recordJob job key).get? jobsKey =
      some (.value (.map (jobs.insert job.id (.string key)))) := by
  simp [recordJob, h, get?_insert]

theorem recordJob_agreesOff (s : Store) (job : JobId) (key : String) :
    AgreesOff jobsKey (s.recordJob job key) s := by
  have hinsert : ∀ e, AgreesOff jobsKey (s.insert jobsKey e) s :=
    fun e => ⟨fun k hk => by simp [get?_insert, hk], rfl⟩
  rw [recordJob]
  split
  · exact hinsert _
  · exact hinsert _
  · exact .refl ..

/-- If nothing else writes the entry, it has the jobs that were acknowledged. -/
theorem get?_replay (log : List Notice) {s : Store} {jobs : Fields Val}
    (h : s.get? jobsKey = some (.value (.map jobs)))
    (hedits : ∀ e ∈ editsIn log, e.key? ≠ some jobsKey) :
    (s.replay log).get? jobsKey =
      some (.value (.map (((issued log).map jobEntry).foldl
        (fun fs e => Fields.insert e.1 e.2 fs) jobs))) := by
  induction log generalizing s jobs with
  | nil => exact h
  | cons x log ih =>
    cases x with
    | drew | failed => exact ih h hedits
    | acknowledged job key => exact ih (get?_recordJob h job key) hedits
    | edited e =>
      obtain ⟨he, hedits⟩ := List.forall_mem_cons.mp hedits
      exact ih ((get?_apply_of_ne he s).trans h) hedits

theorem replay_agreesOff (log : List Notice) {s t : Store} (h : AgreesOff jobsKey s t) :
    AgreesOff jobsKey (s.replay log) (t.edited (editsIn log)) := by
  induction log generalizing s t with
  | nil => exact h
  | cons x log ih =>
    cases x with
    | drew | failed => exact ih h
    | acknowledged job key => exact ih ((recordJob_agreesOff s job key).trans h)
    | edited e => exact ih (h.apply e)

end Store

/-- A custom command that has its job already, and the subscription of its reducer if it is that of
a map-reduce. -/
structure Mission where
  job : JobId
  key : String
  mapper : String
  shape : ResponseShape
  subscription? : Option Subscription

namespace Site

variable {ν σ : Type} (s : Site ν) (link : Link σ) (key mapper : String) (shape : ResponseShape)

def prepare : Option (Reducer ν) → Mission × Site ν
  | none => (⟨s.nextJob.1, key, mapper, shape, none⟩, s.nextJob.2)
  | some reducer =>
    (⟨s.nextJob.1, key, mapper, shape, some ⟨s.hub.next⟩⟩, s.awaiting reducer)

/-- Sends the command, and does what has to be done when its transport has answered. -/
def conclude (mission : Mission) (w : σ) : Except CallError JobId × Site ν × σ :=
  match s.sendCustom link mission.job mission.key mission.mapper mission.shape w with
  | (.ok _, t, w) => (.ok mission.job, t, w)
  | (.error e, t, w) =>
    match mission.subscription? with
    | none => (.error e, t, w)
    | some subscription => (.error e, { t with hub := t.hub.cancel subscription }, w)

theorem executeCustom_eq_conclude (w : σ) :
    s.executeCustom link key mapper shape w =
      (s.prepare key mapper shape none).2.conclude link (s.prepare key mapper shape none).1 w := by
  rw [executeCustom, conclude]
  dsimp only [prepare]
  rcases s.nextJob.2.sendCustom link s.nextJob.1 key mapper shape w with ⟨_ | sent, t, v⟩ <;> rfl

theorem mapReduce_eq_conclude (reducer : Reducer ν) (w : σ) :
    let (r, t, v) := s.mapReduce link key mapper shape reducer w
    (r.map (·.job), t, v) =
      (s.prepare key mapper shape (some reducer)).2.conclude link
        (s.prepare key mapper shape (some reducer)).1 w := by
  obtain ⟨e, t, v, hs, h⟩ | ⟨sent, t, v, hs, h⟩ := s.mapReduce_cases key mapper shape reducer link w
  · simp [conclude, prepare, hs, h, Except.map]
  · simp [conclude, prepare, hs, h, Except.map]

theorem prepare_draws (reducer? : Option (Reducer ν)) :
    (s.prepare key mapper shape reducer?).1.job = s.interpreter.jobIds.next.1 ∧
    (s.prepare key mapper shape reducer?).2.interpreter.jobIds = s.interpreter.jobIds.next.2 ∧
    (s.prepare key mapper shape reducer?).2.store = s.store := by
  cases reducer? with
  | none | some reducer => exact ⟨rfl, rfl, rfl⟩

theorem conclude_settles (mission : Mission) (w : σ) :
    let done := s.conclude link mission w
    done.2.1.interpreter.jobIds = s.interpreter.jobIds ∧
    done.2.1.store = (Notice.settling mission.job mission.key done.1).apply s.store ∧
    ∀ j, done.1 = .ok j → j = mission.job := by
  dsimp only
  rw [conclude]
  obtain ⟨e, -, h⟩ | ⟨e, v, -, -, h⟩ | ⟨sent, v, -, -, h⟩ :=
    Call.sendCustom_handed link mission.key mission.mapper mission.shape s mission.job w
  · rw [h]
    cases mission.subscription? <;> exact ⟨rfl, rfl, fun j hj => by cases hj⟩
  · rw [h]
    cases mission.subscription? <;> exact ⟨rfl, rfl, fun j hj => by cases hj⟩
  · rw [h]
    exact ⟨rfl, rfl, fun j hj => by cases hj; rfl⟩

end Site

end PeerMesh
