import Mathlib.Data.List.Nodup
import Mathlib.Data.List.Perm.Basic
import PeerMesh.Proofs.Interpreter.Jobs
import PeerMesh.Proofs.JobIds

namespace PeerMesh

open Store (jobsKey)

/-- The members have a store in common, and each of them a hub of its own. Of the custom commands on
their way it is known whose they are. -/
structure Household (ν σ : Type) where
  members : List (Interpreter × Hub ν)
  store : Store
  world : σ
  missions : List (Nat × Mission)

/-- What can happen in a household: a call of a member, as a whole or in two halves with others in
between, a delivery to a member, an edit of the store by someone else, and any change of a member
and of what is behind the links. -/
inductive Chore (ν σ : Type)
  | call (n : Nat) (c : Call ν)
  | prepare (n : Nat) (key mapper : String) (shape : ResponseShape)
    (reducer? : Option (Reducer ν))
  | conclude (place : Nat)
  | receive (n : Nat) (x : Intake)
  | edit (e : Edit)
  | disturb (n : Nat) (i : Interpreter) (hub : Hub ν) (world : σ)

def Ack.job? : Ack → Option JobId
  | .sent _ => none
  | .job j => some j
  | .reducing m => some m.job

variable {ν σ : Type}

/-- What a call of a member means for the jobs: only custom commands have one. -/
def Call.notices (n : Nat) (i : Interpreter) (r : Except CallError Ack) : Call ν → List Notice
  | custom key .. | mapReduce key .. =>
    let job := i.jobIds.next.1
    [.drew n job, .settling job key (r.map fun a => a.job?.getD job)]
  | _ => []

namespace Household

def site? (h : Household ν σ) (n : Nat) : Option (Site ν) :=
  h.members[n]?.map fun m => ⟨m.1, h.store, m.2⟩

def put (h : Household ν σ) (n : Nat) (s : Site ν) (world : σ) : Household ν σ :=
  { h with
    members := h.members.set n (s.interpreter, s.hub)
    store := s.store
    world := world }

def visit (h : Household ν σ) (n : Nat) (f : Site ν → Household ν σ × List Notice) :
    Household ν σ × List Notice :=
  match h.site? n with
  | none => (h, [])
  | some s => f s

/-- Member `n` uses its own link, and only a member itself draws its identifiers. -/
def perform (links : Nat → Link σ) : Chore ν σ → Household ν σ → Household ν σ × List Notice
  | .call n c, h =>
    h.visit n fun s =>
      let (r, t, w) := c.perform (links n) s h.world
      (h.put n t w, c.notices n s.interpreter r)
  | .prepare n key mapper shape reducer?, h =>
    h.visit n fun s =>
      let (mission, t) := s.prepare key mapper shape reducer?
      ({ h.put n t h.world with missions := (n, mission) :: h.missions }, [.drew n mission.job])
  | .conclude place, h =>
    match h.missions[place]? with
    | none => (h, [])
    | some (n, mission) =>
      h.visit n fun s =>
        let (r, t, w) := s.conclude (links n) mission h.world
        ({ h.put n t w with missions := h.missions.eraseIdx place },
          [.settling mission.job mission.key r])
  | .receive n x, h =>
    h.visit n fun s => (h.put n (s.serve x).after h.world, (s.edits x).map .edited)
  | .edit e, h => ({ h with store := e.apply h.store }, [.edited e])
  | .disturb n i hub world, h =>
    h.visit n fun s =>
      (h.put n ⟨{ i with jobIds := s.interpreter.jobIds }, h.store, hub⟩ world, [])

def run (links : Nat → Link σ) : List (Chore ν σ) → Household ν σ → Household ν σ × List Notice
  | [], h => (h, [])
  | c :: chores, h =>
    let (h, log) := perform links c h
    let (h, more) := run links chores h
    (h, log ++ more)

theorem run_append (links : Nat → Link σ) (done rest : List (Chore ν σ)) (h : Household ν σ) :
    run links (done ++ rest) h =
      ((run links rest (run links done h).1).1,
        (run links done h).2 ++ (run links rest (run links done h).1).2) := by
  induction done generalizing h with
  | nil => rfl
  | cons c done ih => simp [run, ih]

def generator? (h : Household ν σ) (n : Nat) : Option JobIds :=
  h.members[n]?.map (·.1.jobIds)

def pending (h : Household ν σ) : List JobId :=
  h.missions.map (·.2.job)

theorem lt_of_site? {h : Household ν σ} {n : Nat} {s : Site ν} (hs : h.site? n = some s) :
    n < h.members.length := by
  rw [site?, Option.map_eq_some_iff] at hs
  obtain ⟨m, hm, -⟩ := hs
  exact (List.getElem?_eq_some_iff.mp hm).1

theorem of_site? {h : Household ν σ} {n : Nat} {s : Site ν} (hs : h.site? n = some s) :
    h.generator? n = some s.interpreter.jobIds ∧ s.store = h.store := by
  rw [site?, Option.map_eq_some_iff] at hs
  obtain ⟨m, hm, rfl⟩ := hs
  simp [generator?, hm]

theorem visit_eq {h : Household ν σ} {n : Nat} {s : Site ν} (hs : h.site? n = some s)
    (f : Site ν → Household ν σ × List Notice) : h.visit n f = f s := by
  rw [visit, hs]

theorem run_halves (links : Nat → Link σ) {h : Household ν σ} {n : Nat} {s : Site ν}
    (hs : h.site? n = some s) (key mapper : String) (shape : ResponseShape)
    (reducer? : Option (Reducer ν)) :
    run links [.prepare n key mapper shape reducer?, .conclude 0] h =
      let (mission, t) := s.prepare key mapper shape reducer?
      let (r, t, w) := t.conclude (links n) mission h.world
      (h.put n t w, [.drew n mission.job, .settling mission.job mission.key r]) := by
  rcases hp : s.prepare key mapper shape reducer? with ⟨mission, t⟩
  let u : Household ν σ := { h.put n t h.world with missions := (n, mission) :: h.missions }
  have hprepare : perform links (.prepare n key mapper shape reducer?) h =
      (u, [.drew n mission.job]) := by
    simp only [perform, visit_eq hs, hp, u]
  have hsite : u.site? n = some t := by
    simp [u, site?, put, lt_of_site? hs]
  have hnext : u.missions[0]? = some (n, mission) := rfl
  rw [run, hprepare]
  simp only [run, perform, hnext, visit_eq hsite]
  simp [u, put]

theorem perform_custom (links : Nat → Link σ) {h : Household ν σ} {n : Nat} {s : Site ν}
    (hs : h.site? n = some s) (key mapper : String) (shape : ResponseShape) :
    perform links (.call n (.custom key mapper shape)) h =
      run links [.prepare n key mapper shape none, .conclude 0] h := by
  rw [run_halves links hs]
  simp only [perform, visit_eq hs, Call.perform, s.executeCustom_eq_conclude]
  dsimp only [Site.prepare]
  rcases s.nextJob.2.conclude (links n) _ h.world with ⟨_ | j, t, w⟩ <;> rfl

theorem perform_mapReduce (links : Nat → Link σ) {h : Household ν σ} {n : Nat} {s : Site ν}
    (hs : h.site? n = some s) (key mapper : String) (shape : ResponseShape)
    (reducer : Reducer ν) :
    perform links (.call n (.mapReduce key mapper shape reducer)) h =
      run links [.prepare n key mapper shape (some reducer), .conclude 0] h := by
  have hwhole := s.mapReduce_eq_conclude (links n) key mapper shape reducer h.world
  rw [run_halves links hs]
  dsimp only at hwhole ⊢
  rw [← hwhole]
  simp only [perform, visit_eq hs, Call.perform]
  rcases s.mapReduce (links n) key mapper shape reducer h.world with ⟨_ | m, t, w⟩ <;> rfl

end Household

end PeerMesh
