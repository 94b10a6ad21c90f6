import PeerMesh.Proofs.Interpreter.Household

namespace PeerMesh

variable {ν σ : Type}

namespace Household

/-- The identifiers are the next ones of the generator, if there is one, which goes on behind
them. -/
def Draws : Option JobIds → List JobId → Option JobIds → Prop
  | some g, ids, g' => ids = g.take ids.length ∧ g' = some (g.drop ids.length)
  | none, ids, g' => ids = [] ∧ g' = none

theorem Draws.refl (g? : Option JobIds) : Draws g? [] g? := by
  cases g? with
  | none => exact ⟨rfl, rfl⟩
  | some g => exact ⟨rfl, by simp [JobIds.drop]⟩

theorem Draws.next (g : JobIds) : Draws (some g) [g.next.1] (some g.next.2) :=
  ⟨rfl, rfl⟩

theorem Draws.trans {f? g? h? : Option JobIds} {ids more : List JobId} (hf : Draws f? ids g?)
    (hg : Draws g? more h?) : Draws f? (ids ++ more) h? := by
  cases f? with
  | none =>
    obtain ⟨rfl, rfl⟩ := hf
    exact hg
  | some f =>
    obtain ⟨hids, rfl⟩ := hf
    obtain ⟨hmore, rfl⟩ := hg
    refine ⟨?_, ?_⟩
    · rw [List.length_append, JobIds.take_add, ← hids, ← hmore]
    · rw [List.length_append, JobIds.drop_drop]

def settled (log : List Notice) : List JobId :=
  (issued log).map (·.1) ++ failures log

/-- From `h`, what is in the log leads to `t`: the store is what the log makes of it, each member
draws its identifiers in order, and every job that is drawn is settled once or still under way. -/
structure Accounts (h : Household ν σ) (log : List Notice) (t : Household ν σ) : Prop where
  store : t.store = h.store.replay log
  draws : ∀ n, Draws (h.generator? n) (drawnBy n log) (t.generator? n)
  settles : ∀ job, h.pending.count job + ((drawn log).map (·.2)).count job =
    (settled log).count job + t.pending.count job

namespace Accounts

variable {h t u : Household ν σ} {log more : List Notice}

theorem refl (h : Household ν σ) : Accounts h [] h :=
  ⟨rfl, fun _ => .refl _, fun job => by simp [drawn, settled, issued, failures]⟩

theorem trans (hlog : Accounts h log t) (hmore : Accounts t more u) :
    Accounts h (log ++ more) u := by
  refine ⟨?_, fun n => ?_, fun job => ?_⟩
  · rw [Store.replay_append, ← hlog.store, hmore.store]
  · have hboth := (hlog.draws n).trans (hmore.draws n)
    rwa [drawnBy, drawn, List.filterMap_append, List.filterMap_append]
  · have hfirst := hlog.settles job
    have hsecond := hmore.settles job
    simp only [drawn, settled, issued, failures, List.filterMap_append, List.map_append,
      List.count_append] at hfirst hsecond ⊢
    omega

theorem put {n : Nat} {s : Site ν} (hs : h.site? n = some s) (t : Site ν) (w : σ)
    (missions : List (Nat × Mission)) (hstore : t.store = s.store.replay log)
    (hdraws : Draws (some s.interpreter.jobIds) (drawnBy n log) (some t.interpreter.jobIds))
    (hothers : ∀ m, m ≠ n → drawnBy m log = [])
    (hsettles : ∀ job, h.pending.count job + ((drawn log).map (·.2)).count job =
      (settled log).count job + (missions.map (·.2.job)).count job) :
    Accounts h log { h.put n t w with missions := missions } := by
  obtain ⟨hgen, hsame⟩ := of_site? hs
  refine ⟨?_, fun m => ?_, hsettles⟩
  · rw [← hsame]
    exact hstore
  · by_cases hm : m = n
    · have hput : generator? { h.put n t w with missions := missions } n =
          some t.interpreter.jobIds := by
        simp [generator?, Household.put, lt_of_site? hs]
      rw [hm, hgen, hput]
      exact hdraws
    · have hput : generator? { h.put n t w with missions := missions } m = h.generator? m := by
        simp [generator?, Household.put, List.getElem?_set_ne (Ne.symm hm)]
      rw [hput, hothers m hm]
      exact .refl _

end Accounts

theorem filterMap_edited {α : Type} {f : Notice → Option α} (hf : ∀ e, f (.edited e) = none)
    (edits : List Edit) : (edits.map Notice.edited).filterMap f = [] := by
  simp [List.filterMap_map, hf]

theorem Accounts.edits {h : Household ν σ} {n : Nat} {s : Site ν} (hs : h.site? n = some s)
    (t : Site ν) (w : σ) (edits : List Edit) (hstore : t.store = s.store.edited edits)
    (hids : t.interpreter.jobIds = s.interpreter.jobIds) :
    Accounts h (edits.map .edited) (h.put n t w) := by
  have hdrawn : drawn (edits.map .edited) = [] := filterMap_edited (fun _ => rfl) edits
  have hdrawnBy : ∀ m, drawnBy m (edits.map .edited) = [] := fun m => by simp [drawnBy, hdrawn]
  have hissued : issued (edits.map .edited) = [] := filterMap_edited (fun _ => rfl) edits
  have hfailures : failures (edits.map .edited) = [] := filterMap_edited (fun _ => rfl) edits
  refine .put hs t w h.missions ?_ ?_ (fun m _ => hdrawnBy m) fun job => ?_
  · rw [Store.replay_edits, hstore]
  · rw [hdrawnBy, hids]
    exact .refl _
  · simp [hdrawn, settled, hissued, hfailures, pending]

theorem Accounts.visit {h : Household ν σ} {n : Nat}
    {f : Site ν → Household ν σ × List Notice}
    (hf : ∀ s, h.site? n = some s → Accounts h (f s).2 (f s).1) :
    Accounts h (h.visit n f).2 (h.visit n f).1 := by
  cases hs : h.site? n with
  | none =>
    rw [Household.visit, hs]
    exact .refl h
  | some s =>
    rw [visit_eq hs]
    exact hf s hs

theorem prepare_accounts (links : Nat → Link σ) (h : Household ν σ) (n : Nat)
    (key mapper : String) (shape : ResponseShape) (reducer? : Option (Reducer ν)) :
    let done := perform links (.prepare n key mapper shape reducer?) h
    Accounts h done.2 done.1 := by
  refine .visit fun s hs => ?_
  obtain ⟨hjob, hids, hstore⟩ := s.prepare_draws key mapper shape reducer?
  refine .put hs _ _ _ hstore ?_ (fun m hm => ?_) fun job => ?_
  · rw [hids]
    simp [drawnBy, drawn, Notice.drawn?, hjob, Draws.next]
  · simp [drawnBy, drawn, Notice.drawn?, Ne.symm hm]
  · have hsettled : ∀ j, settled [.drew n j] = [] := fun _ => rfl
    simp [drawn, Notice.drawn?, hsettled, pending, List.count_cons]

theorem settled_settling {job : JobId} {r : Except CallError JobId}
    (h : ∀ j, r = .ok j → j = job) (key : String) : settled [.settling job key r] = [job] := by
  cases r with
  | error e => rfl
  | ok j =>
    cases h j rfl
    rfl

theorem conclude_accounts (links : Nat → Link σ) (h : Household ν σ) (place : Nat) :
    let done := perform links (.conclude place) h
    Accounts h done.2 done.1 := by
  dsimp only
  cases he : h.missions[place]? with
  | none =>
    simp only [perform, he]
    exact .refl h
  | some p =>
    obtain ⟨n, mission⟩ := p
    simp only [perform, he]
    refine .visit fun s hs => ?_
    obtain ⟨hids, hstore, hjob⟩ := s.conclude_settles (links n) mission h.world
    have hdrawnBy : ∀ m r, drawnBy m [.settling mission.job mission.key r] = [] := by
      intro m r
      cases r <;> rfl
    have hdrawn : ∀ r, drawn [.settling mission.job mission.key r] = [] := by
      intro r
      cases r <;> rfl
    refine .put hs _ _ _ hstore ?_ (fun m _ => hdrawnBy m _) fun job => ?_
    · rw [hdrawnBy, hids]
      exact .refl _
    · -- The job that is settled is that of the command which is no longer on its way.
      obtain ⟨hlt, hget⟩ := List.getElem?_eq_some_iff.mp he
      have hperm := (List.getElem_cons_eraseIdx_perm hlt).map (·.2.job)
      rw [List.map_cons, hget] at hperm
      rw [settled_settling hjob, hdrawn, pending, ← hperm.count_eq job]
      simp [List.count_cons]
      omega

theorem jobIds_of_call (link : Link σ) (c : Call ν) (s : Site ν) (w : σ) :
    (c.perform link s w).2.1.interpreter.jobIds = c.jobIdsAfter s.interpreter.jobIds := by
  have hmeets := c.meets link s w
  rcases hdone : c.perform link s w with ⟨r, t, v⟩
  rw [hdone] at hmeets
  cases hmeets with
  | obstacle _ _ hi | refused _ _ _ hi | accepted _ _ _ _ hi => rw [hi]

theorem perform_accounts (links : Nat → Link σ) (c : Chore ν σ) (h : Household ν σ) :
    Accounts h (perform links c h).2 (perform links c h).1 := by
  cases c with
  | prepare n key mapper shape reducer? =>
    exact prepare_accounts links h n key mapper shape reducer?
  | conclude place => exact conclude_accounts links h place
  | edit e =>
    refine ⟨rfl, fun _ => .refl _, fun job => ?_⟩
    have hdrawn : drawn [.edited e] = [] := rfl
    have hsettled : settled [.edited e] = [] := rfl
    simp [perform, hdrawn, hsettled, pending]
  | receive n x =>
    exact .visit fun s hs => .edits hs _ _ _ (s.serve_edited x) (s.serve_resembles x).jobIds
  | disturb n i hub world =>
    exact .visit fun s hs => .edits hs _ _ [] (of_site? hs).2.symm rfl
  | call n c =>
    refine .visit fun s hs => ?_
    have hcall : perform links (.call n c) h = _ := visit_eq hs _
    rw [← hcall]
    -- A custom command is its two halves, and no other call has to do with jobs.
    cases c with
    | custom key mapper shape =>
      rw [perform_custom links hs]
      exact (prepare_accounts links h n key mapper shape none).trans
        ((conclude_accounts links _ 0).trans (.refl _))
    | mapReduce key mapper shape reducer =>
      rw [perform_mapReduce links hs]
      exact (prepare_accounts links h n key mapper shape (some reducer)).trans
        ((conclude_accounts links _ 0).trans (.refl _))
    | broadcast name args =>
      rw [hcall]
      exact .edits hs _ _ [] rfl (jobIds_of_call (links n) (.broadcast name args) s h.world)
    | unicast target name args =>
      rw [hcall]
      exact .edits hs _ _ [] rfl (jobIds_of_call (links n) (.unicast target name args) s h.world)

theorem run_accounts (links : Nat → Link σ) (chores : List (Chore ν σ)) (h : Household ν σ) :
    Accounts h (run links chores h).2 (run links chores h).1 := by
  induction chores generalizing h with
  | nil => exact .refl h
  | cons c chores ih => exact (perform_accounts links c h).trans (ih _)

end Household

end PeerMesh
