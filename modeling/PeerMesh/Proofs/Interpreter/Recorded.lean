import PeerMesh.Proofs.Interpreter.Draws

namespace PeerMesh

open Store (jobsKey)

variable {ν σ : Type}

namespace Household

theorem mem_drawnBy {n : Nat} {job : JobId} {log : List Notice} (h : (n, job) ∈ drawn log) :
    job ∈ drawnBy n log :=
  List.mem_filterMap.mpr ⟨_, h, if_pos rfl⟩

namespace Accounts

variable {h t : Household ν σ} {log : List Notice}

theorem stem_of_drawn (ha : Accounts h log t) {n : Nat} {job : JobId}
    (hmem : (n, job) ∈ drawn log) :
    ∃ g k, h.generator? n = some g ∧ job = JobIds.nth g.stem k := by
  have hdrew := mem_drawnBy hmem
  have hd := ha.draws n
  cases hg : h.generator? n with
  | none =>
    rw [hg] at hd
    rw [hd.1] at hdrew
    cases hdrew
  | some g =>
    rw [hg] at hd
    rw [hd.1] at hdrew
    obtain ⟨k, -, hk⟩ := JobIds.mem_take hdrew
    exact ⟨g, _, rfl, hk⟩

theorem nodup_drawnBy (ha : Accounts h log t) {n : Nat}
    (hdraws : (drawnBy n log).length ≤ 2 ^ 64) : (drawnBy n log).Nodup := by
  have hd := ha.draws n
  cases hg : h.generator? n with
  | none =>
    rw [hg] at hd
    rw [hd.1]
    exact .nil
  | some g =>
    rw [hg] at hd
    rw [hd.1]
    exact g.nodup_take hdraws

/-- As long as the stems are apart and no generator has used up its numbers, nobody draws what was
drawn before. -/
theorem nodup_drawn (ha : Accounts h log t)
    (hstems : (h.members.map fun m => m.1.jobIds.stem).Nodup)
    (hdraws : ∀ n, (drawnBy n log).length ≤ 2 ^ 64) : ((drawn log).map (·.2)).Nodup := by
  have hstem : ∀ {n g}, h.generator? n = some g →
      (h.members.map fun m => m.1.jobIds.stem)[n]? = some g.stem := by
    intro n g hg
    simpa [generator?] using congrArg (Option.map JobIds.stem) hg
  have hmember : ∀ x ∈ drawn log, ∀ y ∈ drawn log, x.2 = y.2 → x = y := by
    rintro ⟨n, job⟩ hx ⟨m, job'⟩ hy (rfl : job = job')
    obtain ⟨g, k, hg, hjob⟩ := ha.stem_of_drawn hx
    obtain ⟨g', k', hg', hjob'⟩ := ha.stem_of_drawn hy
    have hn := hstem hg
    have hm := hstem hg'
    rw [← (JobIds.nth_injective (hjob.symm.trans hjob')).1] at hm
    have hlt := (List.getElem?_eq_some_iff.mp hn).1
    rw [(List.getElem?_inj hlt hstems).mp (hn.trans hm.symm)]
  refine List.Nodup.map_on hmember (List.nodup_iff_sublist.mpr fun d htwice => ?_)
  -- One member would have drawn the identifier twice.
  have hboth := htwice.filterMap fun e => if e.1 = d.1 then some e.2 else none
  rw [← drawnBy] at hboth
  simp only [List.filterMap_cons, if_true, List.filterMap_nil] at hboth
  exact List.nodup_iff_sublist.mp (ha.nodup_drawnBy (hdraws d.1)) d.2 hboth

theorem nodup_settled (ha : Accounts h log t) (hnone : h.missions = [])
    (hdrawn : ((drawn log).map (·.2)).Nodup) : (settled log).Nodup := by
  refine List.nodup_iff_count_le_one.mpr fun job => ?_
  have hjob := ha.settles job
  have hpending : h.pending.count job = 0 := by simp [pending, hnone]
  have hone := List.nodup_iff_count_le_one.mp hdrawn job
  omega

end Accounts

/-- The acknowledged jobs by identifier, each with the key that it was issued for. -/
def recorded (log : List Notice) : Fields Val :=
  Fields.ofList ((issued log).map jobEntry)

/-- The map has one entry for each acknowledged job, and none for a call that failed. -/
structure Exact (jobs : Fields Val) (log : List Notice) : Prop where
  ascending : jobs.Ascending
  entries : jobs.Perm ((issued log).map jobEntry)
  distinct : (jobs.map (·.1)).Nodup
  failures : ∀ job ∈ failures log, jobs.lookup job.id = none

theorem exact_recorded {log : List Notice} (h : (settled log).Nodup) :
    Exact (recorded log) log := by
  obtain ⟨hissued, -, happart⟩ := List.nodup_append.mp h
  have hid : Function.Injective JobId.id := fun j k he => by
    cases j
    cases k
    cases he
    rfl
  have hkeys : (((issued log).map jobEntry).map (·.1)).Nodup := by
    have hmap : ((issued log).map jobEntry).map (·.1) = ((issued log).map (·.1)).map JobId.id := by
      simp [jobEntry]
    rw [hmap]
    exact hissued.map hid
  have hperm : (recorded log).Perm _ := Fields.perm_ofList hkeys
  refine ⟨Fields.ascending_ofList _, hperm, ((hperm.map (·.1)).nodup_iff).mpr hkeys, ?_⟩
  intro job hfailed
  cases hl : (recorded log).lookup job.id with
  | none => rfl
  | some v =>
    obtain ⟨issue, hissue, he⟩ := List.mem_map.mp (hperm.mem_iff.mp (Fields.mem_of_lookup hl))
    have hsame : issue.1 = job := hid (congrArg Prod.fst he)
    exact absurd hsame (happart _ (List.mem_map_of_mem hissue) job hfailed)

/-- Whatever a household does, while nobody else writes the entry of the jobs: at every moment that
entry is made of the jobs that were acknowledged until then, and the rest of the store is what the
edits alone make of it. If the generators of the members have stems of their own, then no job is
missing, lost or changed, and no failed call has an entry, until a generator has used up its
numbers. -/
theorem jobs_recorded (links : Nat → Link σ) (h : Household ν σ) (hnone : h.missions = [])
    (hempty : h.store.get? jobsKey = some (.value (.map []))) (chores : List (Chore ν σ))
    (hedits : ∀ e ∈ editsIn (run links chores h).2, e.key? ≠ some jobsKey) :
    (∀ done rest, chores = done ++ rest →
      let store := (run links done h).1.store
      let log := (run links done h).2
      store.get? jobsKey = some (.value (.map (recorded log))) ∧
      store.AgreesOff jobsKey (h.store.edited (editsIn log))) ∧
    ((h.members.map fun m => m.1.jobIds.stem).Nodup →
      (∀ n, (drawnBy n (run links chores h).2).length ≤ 2 ^ 64) →
      ∀ done rest, chores = done ++ rest →
        let log := (run links done h).2
        Exact (recorded log) log ∧ recorded log ⊆ recorded (run links chores h).2) := by
  refine ⟨?_, fun hstems hdraws => ?_⟩
  · rintro done rest rfl
    have ha := run_accounts links done h
    rw [run_append] at hedits
    simp only [editsIn, List.filterMap_append] at hedits
    refine ⟨?_, ?_⟩
    · rw [ha.store]
      exact Store.get?_replay _ hempty fun e he => hedits e (List.mem_append_left _ he)
    · rw [ha.store]
      exact Store.replay_agreesOff _ (.refl _ _)
  · -- Until any moment no member has drawn more than until the end.
    have hexact : ∀ done rest, chores = done ++ rest →
        Exact (recorded (run links done h).2) (run links done h).2 := by
      rintro done rest rfl
      rw [run_append] at hdraws
      simp only [drawnBy, drawn, List.filterMap_append, List.length_append] at hdraws
      have ha := run_accounts links done h
      have hdrawn := ha.nodup_drawn hstems fun n => le_trans (Nat.le_add_right _ _) (hdraws n)
      exact exact_recorded (ha.nodup_settled hnone hdrawn)
    have hend := hexact chores [] (List.append_nil chores).symm
    rintro done rest rfl
    have hmoment := hexact done rest rfl
    refine ⟨hmoment, fun f hf => ?_⟩
    have hissued := hmoment.entries.mem_iff.mp hf
    rw [hend.entries.mem_iff, run_append, issued, List.filterMap_append, List.map_append]
    exact List.mem_append_left _ hissued

def pair : Household Unit Nat where
  members := [({ Site.counting.interpreter with jobIds := .ofStem "a" }, .empty),
    ({ Site.counting.interpreter with jobIds := .ofStem "a-1" }, .empty)]
  store := Site.counting.store.installDefaults none
  world := 0
  missions := []

/-- The second command to be sent is refused. The last one overtakes the third, and while the two
are on their way, a delivery has a recipe change its cell and a call is given no key. -/
def overtaking : List (Chore Unit Nat) :=
  [.call 0 (.custom "count" "repeat" .stream),
    .call 1 (.mapReduce "count" "repeat" .once fun _ _ => .done),
    .prepare 0 "views" "repeat" .stream none,
    .prepare 1 "count" "repeat" .stream (some fun _ _ => .done),
    .receive 1 (.broadcast (fun _ => [])
      (Command.custom ⟨"j"⟩ "count" "repeat" .stream).enveloped),
    .call 0 (.custom "" "repeat" .stream),
    .conclude 0,
    .conclude 0]

theorem jobs_recorded_overtaking :
    let log := (run (fun _ => Site.refusingSecond) overtaking pair).2
    log.length = 11 ∧ (editsIn log).length = 1 ∧
    failures log = [⟨"a-1-1"⟩, ⟨"a-3"⟩] ∧
    (recorded log).map (·.1) = ["a-1", "a-1-2", "a-2"] ∧
    (run (fun _ => Site.refusingSecond) overtaking pair).1.store.get? jobsKey =
      some (.value (.map (recorded log))) ∧
    Exact (recorded log) log := by
  have hedits : ∀ e ∈ editsIn (run (fun _ => Site.refusingSecond) overtaking pair).2,
      e.key? ≠ some jobsKey := by
    decide +kernel
  have hlength : (run (fun _ => Site.refusingSecond) overtaking pair).2.length = 11 := by
    decide +kernel
  have hdraws : ∀ n, (drawnBy n (run (fun _ => Site.refusingSecond) overtaking pair).2).length ≤
      2 ^ 64 := fun n =>
    (List.length_filterMap_le _ _).trans
      ((List.length_filterMap_le _ _).trans (hlength.trans_le (by decide)))
  obtain ⟨hentry, hexact⟩ :=
    jobs_recorded (fun _ => Site.refusingSecond) pair rfl rfl overtaking hedits
  refine ⟨hlength, by decide +kernel, by decide +kernel, by decide +kernel, ?_, ?_⟩
  · exact (hentry overtaking [] rfl).1
  · exact (hexact (by decide) hdraws overtaking [] rfl).1

end Household

end PeerMesh
