import PeerMesh.Proofs.Cluster.Orderly

namespace PeerMesh

variable {ν : Type}

def deedsAt (k : Nat) (trace : Trace ν) : List (Deed ν) :=
  trace.filterMap fun d => if d.1 = k then some d.2 else none

def goneFrom (k : Nat) (trace : Trace ν) : List Command :=
  (deedsAt k trace).filterMap Deed.gone?

def servedAt (k : Nat) (trace : Trace ν) : List Bytes :=
  (deedsAt k trace).filterMap Deed.served?

def remarksAt (k : Nat) (trace : Trace ν) : List (Remark ν) :=
  (deedsAt k trace).flatMap Deed.remarks

def sentTo (k : Nat) (trace : Trace ν) : List (Nat × Command) :=
  trace.filterMap fun d => if d.1 = k then none else d.2.sent?.map fun c => (d.1, c)

theorem deedsAt_append (k : Nat) (trace more : Trace ν) :
    deedsAt k (trace ++ more) = deedsAt k trace ++ deedsAt k more :=
  List.filterMap_append

theorem goneFrom_append (k : Nat) (trace more : Trace ν) :
    goneFrom k (trace ++ more) = goneFrom k trace ++ goneFrom k more := by
  rw [goneFrom, deedsAt_append]
  exact List.filterMap_append

theorem servedAt_append (k : Nat) (trace more : Trace ν) :
    servedAt k (trace ++ more) = servedAt k trace ++ servedAt k more := by
  rw [servedAt, deedsAt_append]
  exact List.filterMap_append

theorem remarksAt_append (k : Nat) (trace more : Trace ν) :
    remarksAt k (trace ++ more) = remarksAt k trace ++ remarksAt k more := by
  rw [remarksAt, deedsAt_append]
  exact List.flatMap_append

theorem sentTo_append (k : Nat) (trace more : Trace ν) :
    sentTo k (trace ++ more) = sentTo k trace ++ sentTo k more :=
  List.filterMap_append

theorem deedsAt_self (k : Nat) (deeds : List (Deed ν)) :
    deedsAt k (deeds.map fun d => (k, d)) = deeds := by
  rw [deedsAt, List.filterMap_map]
  simp

theorem deedsAt_other {j k : Nat} (h : j ≠ k) (deeds : List (Deed ν)) :
    deedsAt k (deeds.map fun d => (j, d)) = [] := by
  rw [deedsAt, List.filterMap_map]
  simp [h]

theorem servedAt_self (k : Nat) (deeds : List (Deed ν)) :
    servedAt k (deeds.map fun d => (k, d)) = deeds.filterMap Deed.served? := by
  rw [servedAt, deedsAt_self]

theorem servedAt_other {j k : Nat} (h : j ≠ k) (deeds : List (Deed ν)) :
    servedAt k (deeds.map fun d => (j, d)) = [] := by
  rw [servedAt, deedsAt_other h]
  rfl

theorem remarksAt_self (k : Nat) (deeds : List (Deed ν)) :
    remarksAt k (deeds.map fun d => (k, d)) = deeds.flatMap Deed.remarks := by
  rw [remarksAt, deedsAt_self]

theorem remarksAt_other {j k : Nat} (h : j ≠ k) (deeds : List (Deed ν)) :
    remarksAt k (deeds.map fun d => (j, d)) = [] := by
  rw [remarksAt, deedsAt_other h]
  rfl

theorem sentTo_self (k : Nat) (deeds : List (Deed ν)) :
    sentTo k (deeds.map fun d => (k, d)) = [] := by
  rw [sentTo, List.filterMap_map]
  simp

theorem sentTo_other {j k : Nat} (h : j ≠ k) (deeds : List (Deed ν)) :
    sentTo k (deeds.map fun d => (j, d)) = (deeds.filterMap Deed.sent?).map fun c => (j, c) := by
  rw [sentTo, List.filterMap_map, List.map_filterMap]
  simp [h]

theorem mem_deedsAt {k : Nat} {trace : Trace ν} {d : Deed ν} :
    d ∈ deedsAt k trace ↔ (k, d) ∈ trace := by
  rw [deedsAt, List.mem_filterMap]
  constructor
  · rintro ⟨⟨j, d'⟩, hmem, hd⟩
    dsimp only at hd
    split at hd
    · next hj =>
      cases hd
      rw [← hj]
      exact hmem
    · cases hd
  · exact fun h => ⟨(k, d), h, if_pos rfl⟩

theorem mem_sentTo {k j : Nat} {trace : Trace ν} {c : Command} (h : (j, c) ∈ sentTo k trace) :
    j ≠ k ∧ c ∈ (deedsAt j trace).filterMap Deed.sent? := by
  obtain ⟨⟨j', d⟩, hmem, hd⟩ := List.mem_filterMap.mp h
  dsimp only at hd
  split at hd
  · cases hd
  · next hne =>
    obtain ⟨c', hc, he⟩ := Option.map_eq_some_iff.mp hd
    cases he
    exact ⟨hne, List.mem_filterMap.mpr ⟨d, mem_deedsAt.mpr hmem, hc⟩⟩

theorem filter_sentTo {j k : Nat} (h : j ≠ k) (trace : Trace ν) :
    ((sentTo k trace).filter fun x => x.1 = j).map Prod.snd =
      (deedsAt j trace).filterMap Deed.sent? := by
  induction trace with
  | nil => rfl
  | cons d trace ih =>
    obtain ⟨i, d⟩ := d
    have hsent := sentTo_append k [(i, d)] trace
    have hdeeds := deedsAt_append j [(i, d)] trace
    rw [List.singleton_append] at hsent hdeeds
    rw [hsent, hdeeds, List.filter_append, List.map_append, ih, List.filterMap_append]
    refine congrArg (· ++ _) ?_
    by_cases hi : i = j
    · subst hi
      have hs := sentTo_other h [d]
      have hd := deedsAt_self i [d]
      rw [List.map_singleton] at hs hd
      rw [hs, hd, List.filter_eq_self.mpr, List.map_map]
      · exact List.map_id _
      · intro x hx
        obtain ⟨c, -, rfl⟩ := List.mem_map.mp hx
        exact decide_eq_true rfl
    · have hd := deedsAt_other hi [d]
      rw [List.map_singleton] at hd
      rw [hd, List.filter_eq_nil_iff.mpr]
      · rfl
      · intro x hx
        obtain ⟨-, hmem⟩ := mem_sentTo (j := x.1) (c := x.2) hx
        intro hx1
        have hx1 := of_decide_eq_true hx1
        obtain ⟨d', hd', -⟩ := List.mem_filterMap.mp hmem
        have hin := mem_deedsAt.mp hd'
        cases List.mem_singleton.mp hin
        exact hi hx1

structure Quiet (deeds : List (Deed ν)) : Prop where
  sent : deeds.filterMap Deed.sent? = []
  gone : deeds.filterMap Deed.gone? = []
  served : deeds.filterMap Deed.served? = []
  inert : ∀ r ∈ deeds.flatMap Deed.remarks, r.isInert

theorem quiet_of_noted {deeds : List (Deed ν)}
    (h : ∀ d ∈ deeds, ∃ log, d = .noted log ∧ ∀ r ∈ log, r.isInert) : Quiet deeds := by
  have hnone : ∀ {α : Type} (f : Deed ν → Option α), (∀ log, f (.noted log) = none) →
      deeds.filterMap f = [] := by
    intro α f hf
    refine List.filterMap_eq_nil_iff.mpr fun d hd => ?_
    obtain ⟨log, rfl, -⟩ := h d hd
    exact hf log
  refine ⟨hnone _ fun _ => rfl, hnone _ fun _ => rfl, hnone _ fun _ => rfl, fun r hr => ?_⟩
  obtain ⟨d, hd, hr⟩ := List.mem_flatMap.mp hr
  obtain ⟨log, rfl, hlog⟩ := h d hd
  exact hlog r hr

theorem quiet_of_reducing {deeds : List (Deed ν)} (h : ∀ d ∈ deeds, ∃ m, d = .reducing m) :
    Quiet deeds := by
  have hnone : ∀ {α : Type} (f : Deed ν → Option α), (∀ m, f (.reducing m) = none) →
      deeds.filterMap f = [] := by
    intro α f hf
    refine List.filterMap_eq_nil_iff.mpr fun d hd => ?_
    obtain ⟨m, rfl⟩ := h d hd
    exact hf m
  refine ⟨hnone _ fun _ => rfl, hnone _ fun _ => rfl, hnone _ fun _ => rfl, fun r hr => ?_⟩
  obtain ⟨d, hd, hr⟩ := List.mem_flatMap.mp hr
  obtain ⟨m, rfl⟩ := h d hd
  cases hr

namespace Mesh

variable {w w' : Mesh} {k : Nat}

theorem broadcasts_of_alike (h : w.Alike w') (j : Nat) : w'.broadcasts j = w.broadcasts j := by
  obtain ⟨-, g, hq⟩ := h
  exact hq.broadcasts fun _ => rfl

theorem broadcasts_of_none {j : Nat} (h : w.endpoints[j]? = none) : w.broadcasts j = [] := by
  rw [broadcasts, h]
  rfl

theorem broadcasts_of_ok (hw : w.Sound) {payload : Bytes} {t : Token}
    (hb : w.broadcast k payload t = (.ok (), w')) :
    w'.broadcasts k = w.broadcasts k ∧
      ∀ j, w.Routed j → w.peer? j ≠ w.peer? k → w'.broadcasts j = w.broadcasts j ++ [payload] := by
  obtain ⟨p, hp, -, hq⟩ := broadcast_ok hw hb
  have hnone : ∀ j, w.peer? j = none → j ∉ w.recipients p := by
    intro j hj hmem
    obtain ⟨⟨q, hq, -⟩, -⟩ := hw.mem_recipients.mp hmem
    rw [hj] at hq
    cases hq
  refine ⟨?_, fun j hj hne => ?_⟩
  · rw [hq.broadcasts fun hn => if_neg (hnone k hn), if_neg]
    exact fun hmem => (hw.mem_recipients.mp hmem).2 hp
  · rw [hq.broadcasts fun hn => if_neg (hnone j hn), if_pos]
    exact hw.mem_recipients.mpr ⟨hj, hp ▸ hne⟩

end Mesh

namespace Task.Effect

variable {k : Nat} {s : Site ν} {w w' : Mesh} {deeds : List (Deed ν)} {i : Interpreter}

theorem queue_self (h : Effect k s w deeds i w') (hw : w.Sound) :
    w.broadcasts k = deeds.filterMap Deed.served? ++ w'.broadcasts k := by
  cases h with
  | quiet ids pump hdeeds hids hpump hmesh =>
    rw [(quiet_of_noted hdeeds).served, Mesh.broadcasts_of_alike hmesh, List.nil_append]
  | called hissued hfits hsend hrest =>
    have hquiet := quiet_of_reducing fun d hd => (hrest d hd).imp fun m hm => hm.1
    rw [List.filterMap_cons_none rfl, hquiet.served, (Mesh.broadcasts_of_ok hw hsend).1,
      List.nil_append]
  | forwarded hout hfits hsend => exact (Mesh.broadcasts_of_ok hw hsend).1.symm
  | dropped hout hfits => rfl
  | served hread hdelivered hmesh => exact hread.symm
  | emitted he job key v => rfl

theorem queue_other (h : Effect k s w deeds i w') (hw : w.Sound) {j : Nat}
    (hj : w.Routed j) (hne : w.peer? j ≠ w.peer? k) :
    w'.broadcasts j =
      w.broadcasts j ++ (deeds.filterMap Deed.sent?).map Command.enveloped := by
  cases h with
  | quiet ids pump hdeeds hids hpump hmesh =>
    rw [(quiet_of_noted hdeeds).sent, Mesh.broadcasts_of_alike hmesh]
    exact (List.append_nil _).symm
  | called hissued hfits hsend hrest =>
    have hquiet := quiet_of_reducing fun d hd => (hrest d hd).imp fun m hm => hm.1
    rw [List.filterMap_cons, hquiet.sent, (Mesh.broadcasts_of_ok hw hsend).2 j hj hne]
    rfl
  | forwarded hout hfits hsend => exact (Mesh.broadcasts_of_ok hw hsend).2 j hj hne
  | dropped hout hfits => exact (List.append_nil _).symm
  | served hread hdelivered hmesh =>
    have hjk : j ≠ k := fun he => hne (congrArg w.peer? he)
    rw [hmesh.broadcasts fun _ => if_neg hjk, if_neg hjk]
    exact (List.append_nil _).symm
  | emitted he job key v => exact (List.append_nil _).symm

end Task.Effect

namespace Cluster

theorem Agrees.routed {w : Mesh} {n k : Nat} {i : Interpreter} (h : Agrees w n k i) :
    w.Routed k :=
  ⟨i.peer, h.peer, h.route⟩

theorem Agrees.peer?_ne {w : Mesh} {n j k : Nat} {i i' : Interpreter} (h : Agrees w n j i)
    (h' : Agrees w n k i') (hne : j ≠ k) : w.peer? j ≠ w.peer? k := by
  rw [h.peer, h'.peer]
  intro he
  have hroute := h.route
  rw [Option.some.inj he, h'.route] at hroute
  exact hne (Option.some.inj hroute).symm

/-- Since `c₀`, a site heard all that the others broadcast, except for what it missed before it
joined: it served that or still has it queued. -/
def Hears (c₀ c : Cluster ν) (j : Nat) (trace : Trace ν) : Prop :=
  ∃ missed heard, sentTo j trace = missed ++ heard ∧
    c₀.mesh.broadcasts j ++ heard.map (fun x => x.2.enveloped) =
      servedAt j trace ++ c.mesh.broadcasts j ∧
    (j < c₀.sites.length → missed = []) ∧ (c.sites.length ≤ j → heard = [])

theorem Sound.broadcasts_of_ge {c : Cluster ν} {n : Nat} (h : c.Sound n) {j : Nat}
    (hj : c.sites.length ≤ j) : c.mesh.broadcasts j = [] := by
  rw [← h.length] at hj
  exact Mesh.broadcasts_of_none (List.getElem?_eq_none hj)

theorem length_perform_task (c : Cluster ν) (k : Nat) (t : Task ν) :
    (c.perform (.task k t)).2.sites.length = c.sites.length := by
  cases hs : c.sites[k]? with
  | none => rw [perform_task_none hs]
  | some s =>
    rw [perform_task hs]
    exact List.length_set

variable {c₀ c : Cluster ν} {n : Nat} {j : Nat} {past : Trace ν}

theorem Hears.task (h : Hears c₀ c j past) (hlen : c₀.sites.length ≤ c.sites.length)
    (hc : c.Sound n) (hn : n + 1 < 2 ^ 64) {k : Nat} {s : Site ν} (hs : c.sites[k]? = some s)
    (t : Task ν) : Hears c₀ (c.perform (.task k t)).2 j (past ++ (c.perform (.task k t)).1) := by
  obtain ⟨missed, heard, hsent, hqueue, hmissed, hheard⟩ := h
  have hk := hc.agrees k s hs
  have he := Task.effect (hc.placed hn hs) t
  have hklt := (List.getElem?_eq_some_iff.mp hs).1
  have hsites := length_perform_task c k t
  rw [Hears, sentTo_append, servedAt_append, hsites, hsent]
  rw [perform_task hs]
  dsimp only
  by_cases hjk : j = k
  · subst hjk
    refine ⟨missed, heard, ?_, ?_, hmissed, hheard⟩
    · rw [sentTo_self, List.append_nil]
    · rw [hqueue, he.queue_self hc.mesh, servedAt_self, List.append_assoc]
  · rw [servedAt_other (Ne.symm hjk), List.append_nil, sentTo_other (Ne.symm hjk)]
    obtain hlt | hge := Nat.lt_or_ge j c.sites.length
    · have hj := hc.agrees j _ (List.getElem?_eq_getElem hlt)
      refine ⟨missed, heard ++ ((t.perform k s c.mesh).1.filterMap Deed.sent?).map fun c => (k, c),
        List.append_assoc .., ?_, hmissed, fun hge => absurd hlt (Nat.not_lt.mpr hge)⟩
      rw [he.queue_other hc.mesh hj.routed (hj.peer?_ne hk hjk), ← List.append_assoc,
        ← hqueue, List.map_append, List.map_map, List.append_assoc]
      rfl
    · have hnone := hheard hge
      subst hnone
      refine ⟨missed ++ ((t.perform k s c.mesh).1.filterMap Deed.sent?).map fun c => (k, c), [],
        ?_, ?_, fun hlt => ?_, fun _ => rfl⟩
      · rw [List.append_nil, List.append_nil]
      · obtain ⟨f, g, hq⟩ := he.requeued hc.mesh
        have hend : c.mesh.endpoints[j]? = none := by
          rw [← hc.length] at hge
          exact List.getElem?_eq_none hge
        have hend' : (t.perform k s c.mesh).2.2.endpoints[j]? = none := by
          rw [hq.endpoints, hend]
          rfl
        rw [Mesh.broadcasts_of_none hend', hqueue, Mesh.broadcasts_of_none hend]
      · exact absurd (Nat.lt_of_lt_of_le hlt hlen) (Nat.not_lt.mpr hge)

theorem Hears.join (h : Hears c₀ c j past) (x : Newcomer) :
    Hears c₀ (c.perform (.join x)).2 j past := by
  obtain ⟨missed, heard, hsent, hqueue, hmissed, hheard⟩ := h
  refine ⟨missed, heard, hsent, ?_, hmissed, fun hge => hheard ?_⟩
  · rw [hqueue]
    exact congrArg (servedAt j past ++ ·) (Mesh.broadcasts_join x.peer j).symm
  · rw [perform_join, List.length_append] at hge
    exact Nat.le_of_succ_le hge

/-- What a site serves in a run and has queued in the end is what it had queued before and what it
heard meanwhile. -/
theorem hears (hc : c.Sound n) {moves : List (Move ν)} (ho : c.Orderly moves)
    (hn : n + moves.length + 1 < 2 ^ 64) (j : Nat) :
    Hears c (c.run moves).2 j (c.run moves).1 := by
  have hstart : Hears c c j [] :=
    ⟨[], [], rfl, List.append_nil _, fun _ => rfl, fun _ => rfl⟩
  obtain ⟨-, hlen, hears⟩ := run_induction (Q := fun _ => True)
    (P := fun _ c' trace => c.sites.length ≤ c'.sites.length ∧ Hears c c' j trace)
    (fun h => h)
    (fun x _ _ h =>
      ⟨Nat.le_trans h.1 (by rw [perform_join, List.length_append]; omega), h.2.join x⟩)
    (fun _ hc' hm hs h => ⟨Nat.le_trans h.1 (Nat.le_of_eq (length_perform_task _ _ _).symm),
      h.2.task h.1 hc' (by omega) hs _⟩)
    (fun _ _ => trivial) hc ho hn ⟨Nat.le_refl _, hstart⟩
  exact hears

end Cluster

end PeerMesh
