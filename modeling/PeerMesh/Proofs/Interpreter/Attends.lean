import PeerMesh.Proofs.Interpreter.Errands

namespace PeerMesh

variable {ν σ : Type}
variable {job : JobId} {s : Subscription} {listener : Listener ν}

namespace Desk

variable (link : Link σ) {d : Desk ν σ} {errands : List (Errand ν)}

/-- No two handles stand for the same subscription, and no handle stands for one that has yet to
start. -/
structure Numbered (d : Desk ν σ) : Prop where
  distinct : d.ids.Nodup
  bounded : ∀ id ∈ d.ids, id < d.site.hub.next

theorem Numbered.perform (hd : d.Numbered) {e : Errand ν}
    (hnext : d.site.hub.next ≤ (e.perform link d).2.site.hub.next) :
    (e.perform link d).2.Numbered := by
  obtain hids | ⟨hids, hsucc⟩ := e.ids_perform link d
  · refine ⟨hids ▸ hd.distinct, fun id hid => ?_⟩
    rw [hids] at hid
    exact Nat.lt_of_lt_of_le (hd.bounded id hid) hnext
  · constructor
    · rw [hids, List.nodup_append]
      refine ⟨hd.distinct, List.pairwise_singleton .., fun id hid next hnext => ?_⟩
      cases List.mem_singleton.mp hnext
      exact Nat.ne_of_lt (hd.bounded id hid)
    · intro id hid
      rw [hids] at hid
      rw [hsucc]
      obtain hid | hid := List.mem_append.mp hid
      · exact Nat.lt_succ_of_lt (hd.bounded id hid)
      · cases List.mem_singleton.mp hid
        exact Nat.lt_succ_self _

/-- Nothing makes up a response to `job`. -/
structure Ready (d : Desk ν σ) (job : JobId) : Prop where
  hub : d.site.hub.Ready job
  numbered : d.Numbered

theorem Ready.perform (hd : d.Ready job) {e : Errand ν} (he : e.Spares job) :
    (e.perform link d).2.Ready job ∧ d.site.hub.next ≤ (e.perform link d).2.site.hub.next := by
  obtain ⟨hready, hnext⟩ := e.perform_steady link (Hub.Ready.steady d.site.hub.next) he
    ⟨hd.hub, Nat.le_refl _⟩
  exact ⟨⟨hready, hd.numbered.perform link hnext⟩, hnext⟩

theorem Ready.run (hd : d.Ready job) (he : ∀ e ∈ errands, e.Spares job) :
    (run link errands d).2.Ready job ∧
      d.site.hub.next ≤ (run link errands d).2.site.hub.next ∧
      ∀ s, (run link errands d).2.site.hub.next ≤ s.id →
        reductions s job (moments (run link errands d).1) = [] := by
  induction errands generalizing d with
  | nil => exact ⟨hd, Nat.le_refl _, fun _ _ => rfl⟩
  | cons e errands ih =>
    obtain ⟨hfirst, hothers⟩ := List.forall_mem_cons.mp he
    obtain ⟨hstep, hnext⟩ := hd.perform link hfirst
    obtain ⟨hlast, hmore, hred⟩ := ih hstep hothers
    refine ⟨hlast, Nat.le_trans hnext hmore, fun s hs => ?_⟩
    have habsent : ∀ l ∈ d.site.hub.listeners, l.id ≠ s.id := fun l hl =>
      Nat.ne_of_lt (Nat.lt_of_lt_of_le (hd.hub.ids l hl)
        (Nat.le_trans (Nat.le_trans hnext hmore) hs))
    rw [run_cons, moments_append, reductions_append, hred s hs,
      e.reductions_perform_of_absent link (Hub.Ready.steady 0) ⟨hd.hub, Nat.zero_le _⟩ habsent]
    rfl

theorem run_ended (hd : d.site.hub.Ended s job) (he : ∀ e ∈ errands, e.Spares job) :
    (run link errands d).2.site.hub.Ended s job ∧
      reductions s job (moments (run link errands d).1) = [] := by
  induction errands generalizing d with
  | nil => exact ⟨hd, rfl⟩
  | cons e errands ih =>
    obtain ⟨hfirst, hothers⟩ := List.forall_mem_cons.mp he
    obtain ⟨hlast, hred⟩ := ih (e.perform_steady link Hub.Ended.steady hfirst hd) hothers
    refine ⟨hlast, ?_⟩
    rw [run_cons, moments_append, reductions_append, hred,
      e.reductions_perform_of_absent link Hub.Ended.steady hd hd.absent]
    rfl

theorem Ready.refused (hd : d.Ready job) {key mapper : String} {shape : ResponseShape}
    {reducer : Reducer ν} (h : reducer.Spares job) {e : CallError}
    (he : (d.site.mapReduce link key mapper shape reducer d.world).1 = .error e) :
    ((Errand.start key mapper shape reducer).perform link d).2.site.hub.Ended
      ⟨d.site.hub.next⟩ job := by
  obtain ⟨-, ⟨-, -, hhub, -⟩ | ⟨hok, -⟩⟩ := Errand.perform_start link d key mapper shape reducer
  · rw [hhub]
    exact (Site.awaiting_ready hd.hub h).ended (Nat.lt_succ_self _)
  · rw [hok] at he
    cases he

/-- The listener that the `k`-th handle stands for is watched. -/
structure Attends (d : Desk ν σ) (k : Nat) (s : Subscription) (job : JobId)
    (listener : Listener ν) : Prop where
  ready : d.Ready job
  watches : d.site.hub.Watches s job listener
  mine : d.ids[k]? = some s.id

namespace Attends

variable {k : Nat}

/-- As long as its handle is not the one that ends, the listener is called with the response that
comes in, if one does. -/
theorem perform (hd : d.Attends k s job listener) {e : Errand ν} (he : e.Spares job)
    (hk : e.ends k = false) :
    (e.perform link d).2.Attends k s job listener ∧
      reductions s job (moments (e.perform link d).1) =
        (e.answer? d.site.interpreter.maxPayload job).toList := by
  have hready := (hd.ready.perform link he).1
  have hmine : (e.perform link d).2.ids[k]? = some s.id := by
    obtain hids | ⟨hids, -⟩ := e.ids_perform link d
    · rw [hids]
      exact hd.mine
    · rw [hids, List.getElem?_append_left (List.getElem?_eq_some_iff.mp hd.mine).1]
      exact hd.mine
  cases e with
  | start key mapper shape reducer =>
    have hw := Site.mapReduce_watches link key mapper shape d.world hd.watches he
    rw [← Errand.site_start] at hw
    refine ⟨⟨hready, hw, hmine⟩, ?_⟩
    rw [(Errand.perform_start link d key mapper shape reducer).1]
    rfl
  | finish n =>
    refine ⟨⟨hready, ?_, hmine⟩, ?_⟩
    · rw [Errand.perform]
      split
      · exact hd.watches
      · next h hn =>
        refine hd.watches.cancel fun heq => of_decide_eq_false hk ?_
        have hn' : d.ids[n]? = d.ids[k]? := by
          rw [hd.mine, ids, List.getElem?_map, hn, ← heq]
          rfl
        exact ((List.getElem?_inj (List.getElem?_eq_some_iff.mp hd.mine).1
          hd.ready.numbered.distinct).mp hn'.symm).symm
    · rw [Errand.perform]
      split
      · rfl
      · rfl
  | receive x =>
    obtain ⟨hw, hred⟩ := Site.serve_watches hd.watches x
    exact ⟨⟨hready, hw, hmine⟩, hred⟩

theorem ended (hd : d.Attends k s job listener) {e : Errand ν} (hk : e.ends k = true) :
    (e.perform link d).2.site.hub.Ended s job ∧ (e.perform link d).1 = [] := by
  cases e with
  | start | receive => cases hk
  | finish n =>
    cases of_decide_eq_true hk
    have hmine := hd.mine
    rw [ids, List.getElem?_map] at hmine
    obtain ⟨h, hh, hid⟩ := Option.map_eq_some_iff.mp hmine
    rw [Errand.perform, hh]
    have hs : h.mapReduce.subscription = s := congrArg Subscription.mk hid
    refine ⟨?_, rfl⟩
    dsimp only
    rw [MapReduce.cancel, hs]
    exact hd.ready.hub.ended hd.watches.next

theorem run (hd : d.Attends k s job listener) (he : ∀ e ∈ errands, e.Spares job) :
    reductions s job (moments (run link errands d).1) =
        (errands.takeWhile fun e => !e.ends k).filterMap
          (Errand.answer? d.site.interpreter.maxPayload job) ∧
      (run link errands d).2.site.hub.listeners.filter (fun l => l.id = s.id) =
        if errands.any (Errand.ends k) then []
        else [⟨s.id, .broadcastCustomResult, listener⟩] := by
  induction errands generalizing d with
  | nil => exact ⟨rfl, hd.watches.listening⟩
  | cons e errands ih =>
    obtain ⟨hfirst, hothers⟩ := List.forall_mem_cons.mp he
    rw [run_cons, moments_append, reductions_append]
    dsimp only
    cases hk : e.ends k with
    | true =>
      obtain ⟨hend, hlog⟩ := hd.ended link hk
      obtain ⟨hlast, hred⟩ := run_ended link hend hothers
      rw [hlog, hred, List.takeWhile_cons_of_neg (by simp [hk]), List.any_cons, hk]
      exact ⟨rfl, List.filter_eq_nil_iff.mpr fun l hl => by simpa using hlast.absent l hl⟩
    | false =>
      obtain ⟨hnext, hred⟩ := hd.perform link hfirst hk
      obtain ⟨hmore, hlast⟩ := ih hnext hothers
      rw [hred, hmore, hlast, List.takeWhile_cons_of_pos (by simp [hk]), List.any_cons, hk,
        e.perform_maxPayload]
      refine ⟨?_, rfl⟩
      rw [List.filterMap_cons]
      cases e.answer? d.site.interpreter.maxPayload job with
      | none => rfl
      | some r => rfl

end Attends

end Desk

end PeerMesh
