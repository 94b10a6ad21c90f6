import PeerMesh.Proofs.Cluster.Served

namespace PeerMesh

variable {ν : Type}

structure Unheard (p : PeerId) (w : Mesh) (past : List Report) : Prop where
  route : w.routes.get? p.id = none
  joined : hasJoined p past = false
  broadcasts : broadcastsFor p past = []
  unicasts : unicastsFor p past = []
  events : ∀ kind, eventsAt p kind past = []

namespace Unheard

variable {p : PeerId} {k : Nat} {w w' : Mesh} {past : List Report}

theorem empty (p : PeerId) : Unheard p .empty [] :=
  ⟨rfl, rfl, rfl, rfl, fun _ => rfl⟩

theorem broadcast (h : Unheard p w past) (hw : w.Sound) {payload : Bytes} {t : Token}
    (hsend : w.broadcast k payload t = (.ok (), w')) (q : PeerId) (c : Command) :
    Unheard p w' (.broadcast q c :: past) := by
  obtain ⟨p', -, -, hre⟩ := Mesh.broadcast_ok hw hsend
  refine ⟨?_, h.joined, ?_, h.unicasts, h.events⟩
  · rw [hre.routes, h.route]
  · rw [broadcastsFor, h.broadcasts, h.joined, if_neg fun hj => Bool.false_ne_true hj.2]
    rfl

theorem unicast (h : Unheard p w past) (hw : w.Sound) {target : PeerId} {payload : Bytes}
    (hsend : w.unicast k target payload = (.ok (), w')) (q : PeerId) (c : Command) :
    Unheard p w' (.unicast q target c :: past) := by
  obtain ⟨p', n, -, hr, -, hre⟩ := Mesh.unicast_ok hw hsend
  have htarget : target ≠ p := by
    rintro rfl
    rw [h.route] at hr
    cases hr
  refine ⟨?_, h.joined, h.broadcasts, ?_, h.events⟩
  · rw [hre.routes, h.route]
  · rw [unicastsFor, h.unicasts, if_neg htarget]
    rfl

theorem emitted (h : Unheard p w past) {f g} (hre : Mesh.Requeued w w' f g) {q : PeerId}
    (hq : q ≠ p) (events : List Event) : Unheard p w' (.emitted q events :: past) := by
  refine ⟨?_, h.joined, h.broadcasts, h.unicasts, fun kind => ?_⟩
  · rw [hre.routes, h.route]
  · rw [eventsAt, h.events, if_neg hq]
    rfl

theorem step (h : Unheard p w past) (hw : w.Sound) {s : Site ν} {t : Task ν} {r : Option Report}
    {i : Interpreter} (hs : t.Step k s w r i w') (hp : s.interpreter.peer ≠ p) :
    Unheard p w' (r.toList ++ past) := by
  cases hs with
  | quiet hi hclock => exact h
  | refused e hi hclock hstale =>
    exact ⟨h.route, h.joined, h.broadcasts, h.unicasts, h.events⟩
  | broadcast c hi hclock hfit hc hsend => exact h.broadcast hw hsend _ c
  | unicast target name args hc hvalid hfit hsend => exact h.unicast hw hsend _ _
  | served payload hi hclock hread hdelivered hmesh => exact h.emitted hmesh hp _
  | servedUnicast sender payload hread hdelivered hmesh => exact h.emitted hmesh hp _

theorem join (h : Unheard p w past) {q : PeerId} (hq : q ≠ p) :
    Unheard p (w.join q).2 (.joined q :: past) := by
  refine ⟨?_, ?_, h.broadcasts, h.unicasts, h.events⟩
  · rw [Mesh.get?_routes_join, if_neg hq.symm, h.route]
  · rw [hasJoined, decide_eq_false hq, Bool.false_or, h.joined]

theorem leave (h : Unheard p w past) (q : PeerId) : Unheard p (w.leave q) (.left q :: past) := by
  refine ⟨?_, ?_, h.broadcasts, h.unicasts, h.events⟩
  · rw [Mesh.get?_routes_leave, h.route, ite_self]
  · rw [hasJoined, h.joined, Bool.and_false]

theorem attends_join {x : Newcomer} (h : Unheard x.peer w past) :
    x.Attends w.endpoints.length (w.join x.peer).2 (.joined x.peer :: past) := by
  have hend : w.endpoints[w.endpoints.length]? = none := List.getElem?_eq_none (Nat.le_refl _)
  have hbroadcasts : broadcastsFor x.peer (.joined x.peer :: past) = [] := h.broadcasts
  have hunicasts : unicastsFor x.peer (.joined x.peer :: past) = [] := h.unicasts
  have hevents : ∀ kind, eventsAt x.peer kind (.joined x.peer :: past) = [] := h.events
  refine ⟨?_, ?_, ?_, ?_⟩
  · rw [Mesh.peer?_join, if_pos rfl]
  · rw [Mesh.get?_routes_join, if_pos rfl, hasJoined, decide_eq_true rfl]
    rfl
  · rw [Mesh.broadcasts_join, Mesh.broadcasts_of_none hend, hbroadcasts, hevents]
    exact .nil
  · rw [Mesh.unicasts_join, Mesh.unicasts, hend, hunicasts, hevents]
    exact .nil

end Unheard

structure Newcomer.Issues (x : Newcomer) (c : Command) : Prop where
  finite : c.isFinite
  fits : c.enveloped.length ≤ x.maxPayload
  valid : ∀ name args, c = .rpc name args → x.registry.validate name args = .ok ()

/-- No token was stale, and what was accepted had been checked by its sender. -/
structure Report.Regular (xs : List Newcomer) (r : Report) : Prop where
  fresh : ∀ p t, r ≠ .refused p (.transport (.staleToken t))
  issued : ∀ p c, r.sending? = some (p, c) → ∃ x ∈ xs, x.peer = p ∧ x.Issues c

theorem Report.Regular.mono {xs : List Newcomer} {r : Report} (h : r.Regular xs) (x : Newcomer) :
    r.Regular (xs ++ [x]) where
  fresh := h.fresh
  issued p c hr := by
    obtain ⟨y, hy, hc⟩ := h.issued p c hr
    exact ⟨y, List.mem_append_left _ hy, hc⟩

theorem Call.validate_of_command {call : Call ν} {i : Interpreter}
    (hvalid : call.validate i = .ok ()) {name : String} {args : List Val}
    (hc : call.command i = .rpc name args) : i.registry.validate name args = .ok () := by
  cases call with
  | broadcast | unicast =>
    cases hc
    exact hvalid
  | custom | mapReduce => cases hc

theorem Task.Step.regular {xs : List Newcomer} {x : Newcomer} (hx : x ∈ xs) {k : Nat} {s : Site ν}
    {w w' : Mesh} {past : List Report} (h : s.interpreter.Counts x w past)
    (hn : acceptedBy x.peer past < 2 ^ 64 - 1) {t : Task ν} {r : Report} {i : Interpreter}
    (hs : t.Step k s w (some r) i w') : r.Regular xs := by
  have issues : ∀ {c : Command}, c.unfit? s.interpreter.maxPayload = none →
      (∀ name args, c = .rpc name args → s.interpreter.registry.validate name args = .ok ()) →
      ∀ p c', some (s.interpreter.peer, c) = some (p, c') → ∃ x ∈ xs, x.peer = p ∧ x.Issues c' := by
    rintro c hfit hvalid p c' heq
    cases heq
    rw [h.continues.maxPayload] at hfit
    rw [h.continues.registry] at hvalid
    obtain ⟨hf, hlen⟩ := Command.unfit?_eq_none.mp hfit
    exact ⟨x, hx, h.continues.peer.symm, hf, hlen, hvalid⟩
  cases hs with
  | refused e hi hclock hstale =>
    refine ⟨fun p t he => ?_, nofun⟩
    cases he
    exact absurd (h.fresh hn) (UInt64.not_lt.mpr (hstale t rfl))
  | broadcast c hi hclock hfit hc hsend =>
    refine ⟨nofun, issues hfit ?_⟩
    rintro name args rfl
    obtain hkind | ⟨call, -, hvalid, hcommand⟩ := hc
    · cases hkind
    · exact Call.validate_of_command hvalid hcommand.symm
  | unicast target name args hc hvalid hfit hsend =>
    refine ⟨nofun, issues hfit ?_⟩
    rintro name' args' heq
    cases heq
    exact hvalid
  | served | servedUnicast => exact ⟨nofun, nofun⟩

namespace Cluster

/-- The sites are those of the newcomers, and the reports say what each of them got. -/
structure Faithful (c : Cluster ν) (xs : List Newcomer) (past : List Report) : Prop where
  sound : c.mesh.Sound
  endpoints : c.mesh.endpoints.length = xs.length
  sites : c.sites.length = xs.length
  attends : ∀ (j : Nat) (x : Newcomer), xs[j]? = some x → x.Attends j c.mesh past
  counts : ∀ (j : Nat) (s : Site ν) (x : Newcomer), c.sites[j]? = some s → xs[j]? = some x →
    s.interpreter.Counts x c.mesh past
  strangers : ∀ p, p ∉ xs.map Newcomer.peer → Unheard p c.mesh past
  uncounted : ∀ p, p ∉ xs.map Newcomer.peer → c.mesh.last p = 0 ∧ acceptedBy p past = 0
  regular : ∀ r ∈ past, r.Regular xs

theorem faithful_empty : (empty : Cluster ν).Faithful [] [] where
  sound := Mesh.sound_empty
  endpoints := rfl
  sites := rfl
  attends j x h := by cases h
  counts j s x h := by cases h
  strangers p h := .empty p
  uncounted p h := ⟨rfl, rfl⟩
  regular r h := by cases h

namespace Faithful

variable {c : Cluster ν} {xs : List Newcomer} {past : List Report}

theorem getElem?_concat_cases {α : Type} {l : List α} {a b : α} {j : Nat}
    (h : (l ++ [a])[j]? = some b) : l[j]? = some b ∨ j = l.length ∧ b = a := by
  rw [List.getElem?_append] at h
  split at h
  · exact .inl h
  · obtain ⟨hj, rfl⟩ := List.getElem?_eq_some_iff.mp h
    rw [List.length_singleton] at hj
    exact .inr ⟨by omega, List.getElem_singleton _⟩

theorem join (h : c.Faithful xs past) {x : Newcomer} (hx : x.peer ∉ xs.map Newcomer.peer) :
    (c.perform (.join x)).2.Faithful (xs ++ [x]) (.joined x.peer :: past) := by
  have hnew := h.strangers x.peer hx
  obtain ⟨hlast, haccepted⟩ := h.uncounted x.peer hx
  have hold : ∀ {p}, p ∉ (xs ++ [x]).map Newcomer.peer →
      p ∉ xs.map Newcomer.peer ∧ x.peer ≠ p := by
    intro p hp
    rw [List.map_append, List.mem_append, not_or] at hp
    exact ⟨hp.1, fun he => hp.2 (he ▸ List.mem_singleton.mpr rfl)⟩
  have hne : ∀ {j : Nat} {y : Newcomer}, xs[j]? = some y → x.peer ≠ y.peer := by
    intro j y hy hp
    exact hx (hp ▸ List.mem_map_of_mem (List.mem_of_getElem? hy))
  refine ⟨h.sound.join x.peer, ?_, ?_, ?_, ?_, ?_, ?_, ?_⟩
  · rw [perform_join, Mesh.join, List.length_append, List.length_append, h.endpoints]
    rfl
  · rw [perform_join, List.length_append, List.length_append, h.sites]
    rfl
  · intro j y hy
    obtain hy | ⟨rfl, rfl⟩ := getElem?_concat_cases hy
    · exact (h.attends j y hy).join (hne hy)
    · exact h.endpoints ▸ hnew.attends_join
  · intro j s y hs hy
    rw [perform_join, getElem?_append_site] at hs
    obtain hy | ⟨rfl, rfl⟩ := getElem?_concat_cases hy
    · have hlt := (List.getElem?_eq_some_iff.mp hy).1
      rw [if_neg (h.sites ▸ Nat.ne_of_lt hlt)] at hs
      exact (h.counts j s y hs hy).of_last (.refl _) rfl rfl rfl
    · rw [if_pos h.sites.symm] at hs
      cases hs
      exact ⟨.refl _, rfl, haccepted.symm, hlast⟩
  · intro p hp
    obtain ⟨hxs, hne⟩ := hold hp
    exact (h.strangers p hxs).join hne
  · exact fun p hp => h.uncounted p (hold hp).1
  · intro r hr
    obtain rfl | hr := List.mem_cons.mp hr
    · exact ⟨fun _ _ he => (by cases he), fun _ _ he => (by cases he)⟩
    · exact (h.regular r hr).mono x

theorem leave (h : c.Faithful xs past) (p : PeerId) :
    (c.perform (.leave p)).2.Faithful xs (.left p :: past) where
  sound := h.sound.leave p
  endpoints := h.endpoints
  sites := h.sites
  attends j x hx := (h.attends j x hx).leave p
  counts j s x hs hx := (h.counts j s x hs hx).of_last (.refl _) rfl rfl rfl
  strangers q hq := (h.strangers q hq).leave p
  uncounted q hq := h.uncounted q hq
  regular r hr := by
    obtain rfl | hr := List.mem_cons.mp hr
    · exact ⟨fun _ _ he => (by cases he), fun _ _ he => (by cases he)⟩
    · exact h.regular r hr

theorem peer_ne (hpeers : (xs.map Newcomer.peer).Nodup) {j k : Nat} {x y : Newcomer}
    (hx : xs[j]? = some x) (hy : xs[k]? = some y) (hne : j ≠ k) : y.peer ≠ x.peer := by
  intro he
  have hlt := (List.getElem?_eq_some_iff.mp hx).1
  refine hne ((List.getElem?_inj (by rw [List.length_map]; exact hlt) hpeers).mp ?_)
  rw [List.getElem?_map, List.getElem?_map, hx, hy, Option.map_some, Option.map_some, he]

theorem task (h : c.Faithful xs past) (hpeers : (xs.map Newcomer.peer).Nodup)
    (hn : ∀ p, acceptedBy p past < 2 ^ 64 - 1) (k : Nat) (t : Task ν) :
    (c.perform (.task k t)).2.Faithful xs ((c.report (.task k t)).toList ++ past) := by
  cases hs : c.sites[k]? with
  | none =>
    rw [perform_task_none hs, report, hs]
    exact h
  | some s =>
    obtain ⟨y, hy⟩ : ∃ y, xs[k]? = some y := by
      have hlt := (List.getElem?_eq_some_iff.mp hs).1
      exact ⟨_, List.getElem?_eq_getElem (h.sites ▸ hlt)⟩
    have hcounts := h.counts k s y hs hy
    have hstep := Task.step (k := k) h.sound hcounts.onlyResponds t
    obtain ⟨f, g, hre⟩ := hstep.requeued h.sound
    have hreport : c.report (.task k t) = t.report k s c.mesh := by
      rw [report, hs]
    have hstranger : ∀ {p}, p ∉ xs.map Newcomer.peer → y.peer ≠ p := fun hp he =>
      hp (he ▸ List.mem_map_of_mem (List.mem_of_getElem? hy))
    rw [perform_task hs, hreport]
    refine ⟨hre.sound h.sound, ?_, ?_, ?_, ?_, ?_, ?_, ?_⟩
    · exact hre.length.trans h.endpoints
    · exact List.length_set.trans h.sites
    · intro j x hx
      refine (h.attends j x hx).step h.sound hstep hcounts.continues (h.attends k y hy).joined ?_
        (peer_ne hpeers hx hy)
      rintro rfl
      exact Option.some.inj (hx.symm.trans hy)
    · -- Only the site that took the step can have counted anything.
      intro j s' x hs' hx
      rw [getElem?_set_site hs] at hs'
      split at hs'
      · next hjk =>
        cases hs'
        cases hjk
        cases hx.symm.trans hy
        exact hcounts.step h.sound (hn _) hstep
      · next hjk =>
        obtain ⟨hlast, haccepted⟩ := hcounts.step_other h.sound hstep (peer_ne hpeers hx hy hjk)
        exact (h.counts j s' x hs' hx).of_last (.refl _) rfl haccepted hlast
    · intro p hp
      exact (h.strangers p hp).step h.sound hstep (hcounts.continues.peer ▸ hstranger hp)
    · intro p hp
      obtain ⟨hlast, haccepted⟩ := hcounts.step_other h.sound hstep (hstranger hp)
      obtain ⟨hlast', haccepted'⟩ := h.uncounted p hp
      exact ⟨hlast.trans hlast', haccepted.trans haccepted'⟩
    · intro r hr
      obtain hr | hr := List.mem_append.mp hr
      · rw [Option.mem_toList] at hr
        rw [hr] at hstep
        exact hstep.regular (List.mem_of_getElem? hy) hcounts (hn _)
      · exact h.regular r hr

end Faithful

theorem suffix_reports (c : Cluster ν) (moves : List (Move ν)) (past : List Report) :
    past <:+ c.reports moves past := by
  induction moves generalizing c past with
  | nil => exact List.suffix_refl past
  | cons m moves ih => exact (List.suffix_append _ past).trans (ih _ _)

theorem acceptedBy_mono (p : PeerId) {past past' : List Report} (h : past <:+ past') :
    acceptedBy p past ≤ acceptedBy p past' := by
  obtain ⟨more, rfl⟩ := h
  induction more with
  | nil => exact Nat.le_refl _
  | cons r more ih =>
    refine Nat.le_trans ih ?_
    cases r with
    | broadcast => exact Nat.le_add_right _ _
    | joined | left | unicast | refused | emitted => exact Nat.le_refl _

theorem Faithful.run {c : Cluster ν} {xs : List Newcomer} {past : List Report}
    (h : c.Faithful xs past) {moves : List (Move ν)}
    (hpeers : ((xs ++ newcomers moves).map Newcomer.peer).Nodup)
    (hn : ∀ p, acceptedBy p (c.reports moves past) < 2 ^ 64 - 1) :
    (c.run moves).2.Faithful (xs ++ newcomers moves) (c.reports moves past) := by
  induction moves generalizing c xs past with
  | nil => exact (List.append_nil xs).symm ▸ h
  | cons m moves ih =>
    cases m with
    | join x =>
      have hsplit : xs ++ newcomers (.join x :: moves) = xs ++ [x] ++ newcomers moves :=
        List.append_cons ..
      rw [hsplit] at hpeers ⊢
      refine ih (h.join ?_) hpeers hn
      rw [List.map_append, List.map_append] at hpeers
      have hxs := (List.nodup_append.mp (List.nodup_append.mp hpeers).1).2.2
      exact fun hx => hxs _ hx _ (List.mem_singleton.mpr rfl) rfl
    | leave p => exact ih (h.leave p) hpeers hn
    | task k t =>
      have hxs : (xs.map Newcomer.peer).Nodup := by
        rw [List.map_append] at hpeers
        exact (List.nodup_append.mp hpeers).1
      -- What holds of the number of broadcasts in the end held before too.
      have hnow : ∀ p, acceptedBy p past < 2 ^ 64 - 1 := fun p =>
        Nat.lt_of_le_of_lt (acceptedBy_mono p (suffix_reports c (.task k t :: moves) past)) (hn p)
      exact ih (h.task hxs hnow k t) hpeers hn

end Cluster

end PeerMesh
