import PeerMesh.Proofs.Interpreter.Attends

namespace PeerMesh

variable {ν σ : Type}

def Errand.Quiet : Errand ν → Prop
  | start _ _ _ reducer => ∀ value c, (reducer value c).Quiet
  | _ => True

theorem Site.reducing_quiet {reducer : Reducer ν} (hr : ∀ value c, (reducer value c).Quiet)
    (job : JobId) (e : Event) : (reducing job reducer e).Quiet := by
  rw [reducing_eq]
  split
  · exact hr _ _
  · trivial

theorem Site.serve_alike {site : Site ν} (hq : site.hub.Quiet) (x : Intake) :
    site.hub.Alike (site.serve x).after.hub := by
  rw [site.serve_emits x]
  refine List.foldlRecOn (motive := site.hub.Alike) _ _ ⟨rfl, rfl⟩ fun h hh e _ => ?_
  exact hh.trans (Hub.emitWithin_calm (h.depth + 1) h e (hq.of_listeners hh.1))

namespace Desk

def live (handles : List (Handle ν)) : List (Registered ν) :=
  (handles.filter (·.held)).map Handle.registered

theorem live_cons (h : Handle ν) (handles : List (Handle ν)) :
    live (h :: handles) = (if h.held then [h.registered] else []) ++ live handles := by
  rw [live, live, List.filter_cons]
  split
  · rfl
  · rfl

theorem live_concat (handles : List (Handle ν)) {h : Handle ν} (hh : h.held = true) :
    live (handles ++ [h]) = live handles ++ [h.registered] := by
  rw [live, live, List.filter_append, List.map_append, List.filter_cons_of_pos hh]
  rfl

theorem id_mem_of_mem_live {handles : List (Handle ν)} {l : Registered ν} (hl : l ∈ live handles) :
    l.id ∈ handles.map Handle.id := by
  obtain ⟨h, hh, rfl⟩ := List.mem_map.mp hl
  exact List.mem_map.mpr ⟨h, (List.mem_filter.mp hh).1, rfl⟩

theorem live_set {handles : List (Handle ν)} (hd : (handles.map Handle.id).Nodup) {n : Nat}
    {h : Handle ν} (hn : handles[n]? = some h) :
    live (handles.set n h.ended) = (live handles).filter fun l => l.id ≠ h.id := by
  induction handles generalizing n with
  | nil => cases hn
  | cons a handles ih =>
    obtain ⟨hfresh, hrest⟩ := List.nodup_cons.mp hd
    cases n with
    | zero =>
      cases hn
      have hothers : (live handles).filter (fun l => l.id ≠ h.id) = live handles :=
        List.filter_eq_self.mpr fun l hl =>
          decide_eq_true fun (heq : l.id = h.id) => hfresh (heq ▸ id_mem_of_mem_live hl)
      rw [List.set_cons_zero, live_cons, live_cons, List.filter_append, hothers]
      cases h.held with
      | true => simp [Handle.registered, Handle.ended]
      | false => rfl
    | succ n =>
      have hne : a.registered.id ≠ h.id := fun heq =>
        hfresh (List.mem_map.mpr ⟨h, List.mem_of_getElem? hn, heq.symm⟩)
      rw [List.set_cons_succ, live_cons, live_cons, List.filter_append, ih hrest hn]
      cases a.held with
      | true => simp [hne]
      | false => rfl

/-- If nothing else starts or ends subscriptions, there are those of the held handles next to the
ones that were there before. -/
structure Tidy (d : Desk ν σ) (before : List (Registered ν)) : Prop where
  listeners : d.site.hub.listeners = before ++ live d.handles
  older : ∀ l ∈ before, l.id < d.site.hub.next ∧ l.id ∉ d.ids
  numbered : d.Numbered
  quiet : d.site.hub.Quiet

namespace Tidy

variable {d : Desk ν σ} {before : List (Registered ν)}

theorem hub_numbered (hd : d.Tidy before) : d.site.hub.Numbered := by
  intro l hl
  rw [hd.listeners] at hl
  obtain hl | hl := List.mem_append.mp hl
  · exact (hd.older l hl).1
  · exact hd.numbered.bounded l.id (id_mem_of_mem_live hl)

theorem step (link : Link σ) (hd : d.Tidy before) {e : Errand ν}
    (hnext : d.site.hub.next ≤ (e.perform link d).2.site.hub.next)
    (hl : (e.perform link d).2.site.hub.listeners = before ++ live (e.perform link d).2.handles)
    (hq : (e.perform link d).2.site.hub.Quiet) : (e.perform link d).2.Tidy before where
  listeners := hl
  older l hl := by
    obtain ⟨hlt, hfresh⟩ := hd.older l hl
    refine ⟨Nat.lt_of_lt_of_le hlt hnext, ?_⟩
    obtain hids | ⟨hids, -⟩ := e.ids_perform link d
    · rw [hids]
      exact hfresh
    · rw [hids, List.mem_append, List.mem_singleton, not_or]
      exact ⟨hfresh, Nat.ne_of_lt hlt⟩
  numbered := hd.numbered.perform link hnext
  quiet := hq

theorem start (link : Link σ) (hd : d.Tidy before) (key mapper : String) (shape : ResponseShape)
    {reducer : Reducer ν} (he : ∀ value c, (reducer value c).Quiet) :
    ((Errand.start key mapper shape reducer).perform link d).2.Tidy before := by
  obtain ⟨-, ⟨-, -, hhub, hhandles⟩ | ⟨-, hhub, hhandles⟩⟩ :=
    Errand.perform_start link d key mapper shape reducer
  · replace hhub := hhub.trans (hd.hub_numbered.cancel_on ..)
    refine hd.step link ?_ ?_ ?_
    · rw [hhub]
      exact Nat.le_succ _
    · rw [hhub, hhandles]
      exact hd.listeners
    · rw [hhub]
      exact hd.quiet
  · refine hd.step link ?_ ?_ ?_
    · rw [hhub]
      exact Nat.le_succ _
    · rw [hhub, hhandles, live_concat _ rfl, ← List.append_assoc, ← hd.listeners]
      rfl
    · rw [hhub]
      intro l hl e
      obtain hl | hl := List.mem_append.mp hl
      · exact hd.quiet l hl e
      · cases List.mem_singleton.mp hl
        exact Site.reducing_quiet he _ e

theorem perform (link : Link σ) (hd : d.Tidy before) {e : Errand ν} (he : e.Quiet) :
    (e.perform link d).2.Tidy before := by
  cases e with
  | start key mapper shape reducer => exact hd.start link key mapper shape he
  | finish n =>
    have hstep := hd.step link (e := .finish n)
    cases hn : d.handles[n]? with
    | none =>
      rw [Errand.perform, hn]
      exact hd
    | some h =>
      rw [Errand.perform, hn] at hstep ⊢
      refine hstep (Nat.le_refl _) ?_ fun l hl => hd.quiet l (List.mem_filter.mp hl).1
      have hold : before.filter (fun l => l.id ≠ h.id) = before := by
        refine List.filter_eq_self.mpr fun l hl => decide_eq_true fun (heq : l.id = h.id) => ?_
        exact (hd.older l hl).2 (heq ▸ List.mem_map_of_mem (List.mem_of_getElem? hn))
      have hrest : d.site.hub.listeners.filter (fun l => l.id ≠ h.id) =
          before ++ (live d.handles).filter fun l => l.id ≠ h.id := by
        rw [hd.listeners, List.filter_append, hold]
      rw [live_set hd.numbered.distinct hn]
      exact hrest
  | receive x =>
    obtain ⟨hlisteners, hnext⟩ := Site.serve_alike hd.quiet x
    exact hd.step link (Nat.le_of_eq hnext.symm) (hlisteners.trans hd.listeners)
      (hd.quiet.of_listeners hlisteners)

theorem run (link : Link σ) (hd : d.Tidy before) {errands : List (Errand ν)}
    (he : ∀ e ∈ errands, e.Quiet) : (run link errands d).2.Tidy before := by
  induction errands generalizing d with
  | nil => exact hd
  | cons e errands ih =>
    obtain ⟨hfirst, hothers⟩ := List.forall_mem_cons.mp he
    exact ih (hd.perform link hfirst) hothers

end Tidy

end Desk

end PeerMesh
