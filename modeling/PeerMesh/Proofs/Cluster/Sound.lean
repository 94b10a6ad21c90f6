import PeerMesh.Proofs.Cluster.Effect

namespace PeerMesh

namespace Mesh

variable {w w' : Mesh} {k : Nat}

theorem broadcast_ok (h : w.Sound) {payload : Bytes} {t : Token}
    (hb : w.broadcast k payload t = (.ok (), w')) :
    ∃ p, w.peer? k = some p ∧ w'.delivered = w.delivered.insert t.origin.id t.counter ∧
      Requeued w w' (fun j q => if j ∈ w.recipients p then q ++ [payload] else q)
        (fun _ q => q) := by
  obtain ⟨-, he⟩ | ⟨-, he⟩ | ⟨p, v, hp, -, hok, hd, hq⟩ := broadcast_cases h k payload t
  · rw [hb] at he
    cases he
  · rw [hb] at he
    cases he
  · rw [hb] at hok
    cases hok
    exact ⟨p, hp, hd, hq⟩

theorem last_of_delivered {t : Token} (h : w'.delivered = w.delivered.insert t.origin.id t.counter)
    (p : PeerId) : w'.last p = if p = t.origin then t.counter else w.last p := by
  have hl := last_insert w w'.endpoints t p
  rw [← h] at hl
  exact hl

theorem Requeued.length {f : Nat → List Bytes → List Bytes}
    {g : Nat → List (PeerId × Bytes) → List (PeerId × Bytes)} (h : Requeued w w' f g) :
    w'.endpoints.length = w.endpoints.length := by
  have hnone : ∀ j : Nat, w'.endpoints[j]? = none ↔ w.endpoints[j]? = none := by
    intro j
    rw [h.endpoints, Option.map_eq_none_iff]
  apply Nat.le_antisymm
  · exact List.getElem?_eq_none_iff.mp ((hnone _).mpr (List.getElem?_eq_none (Nat.le_refl _)))
  · exact List.getElem?_eq_none_iff.mp ((hnone _).mp (List.getElem?_eq_none (Nat.le_refl _)))

end Mesh

variable {ν : Type}

namespace Task.Effect

variable {k : Nat} {s : Site ν} {w w' : Mesh} {deeds : List (Deed ν)} {i : Interpreter}

theorem requeued (h : Effect k s w deeds i w') (hw : w.Sound) :
    ∃ f g, Mesh.Requeued w w' f g := by
  cases h with
  | quiet ids pump hdeeds hids hpump hmesh =>
    obtain ⟨-, g, hq⟩ := hmesh
    exact ⟨_, g, hq⟩
  | called hissued hfits hsend hrest =>
    obtain ⟨p, -, -, hq⟩ := Mesh.broadcast_ok hw hsend
    exact ⟨_, _, hq⟩
  | forwarded hout hfits hsend =>
    obtain ⟨p, -, -, hq⟩ := Mesh.broadcast_ok hw hsend
    exact ⟨_, _, hq⟩
  | dropped hout hfits =>
    obtain ⟨-, g, hq⟩ := Mesh.Alike.refl w
    exact ⟨_, g, hq⟩
  | served hread hdelivered hmesh => exact ⟨_, _, hmesh⟩
  | emitted he job key v =>
    obtain ⟨-, g, hq⟩ := Mesh.Alike.refl w
    exact ⟨_, g, hq⟩

theorem clock (h : Effect k s w deeds i w') (hw : w.Sound) :
    (w'.delivered = w.delivered ∧ i.clock = s.interpreter.clock) ∨
    (w'.delivered =
        w.delivered.insert s.interpreter.clock.owner.id s.interpreter.clock.peek.counter ∧
      i.clock = s.interpreter.clock.commit s.interpreter.clock.peek) := by
  cases h with
  | quiet ids pump hdeeds hids hpump hmesh => exact .inl ⟨hmesh.1, rfl⟩
  | called hissued hfits hsend hrest =>
    obtain ⟨p, -, hd, -⟩ := Mesh.broadcast_ok hw hsend
    exact .inr ⟨hd, rfl⟩
  | forwarded hout hfits hsend =>
    obtain ⟨p, -, hd, -⟩ := Mesh.broadcast_ok hw hsend
    exact .inr ⟨hd, rfl⟩
  | dropped hout hfits => exact .inl ⟨rfl, rfl⟩
  | served hread hdelivered hmesh =>
    exact .inl ⟨hdelivered, (s.receiveBroadcast_resembles _ _).clock⟩
  | emitted he job key v => exact .inl ⟨rfl, (Interpreter.Resembles.emit _ _ job key v).clock⟩

theorem frame (h : Effect k s w deeds i w') (ho : s.interpreter.isOpen) :
    i.peer = s.interpreter.peer ∧ i.maxPayload = s.interpreter.maxPayload ∧
      i.jobIds.stem = s.interpreter.jobIds.stem ∧ i.isOpen := by
  cases h with
  | quiet ids pump hdeeds hids hpump hmesh =>
    refine ⟨rfl, rfl, ?_, decide_eq_true hpump⟩
    obtain rfl | rfl := hids
    · rfl
    · rfl
  | called hissued hfits hsend hrest =>
    refine ⟨rfl, rfl, ?_, ho⟩
    cases hissued with
    | rpc | custom => rfl
  | forwarded hout hfits hsend => exact ⟨rfl, rfl, rfl, ho⟩
  | dropped hout hfits => exact ⟨rfl, rfl, rfl, ho⟩
  | served hread hdelivered hmesh =>
    have hr := s.receiveBroadcast_resembles w.neighbours
    exact ⟨(hr _).peer, (hr _).maxPayload, congrArg JobIds.stem (hr _).jobIds,
      (hr _).isOpen.trans ho⟩
  | emitted he job key v =>
    have hr := fun n => Interpreter.Resembles.emit s.interpreter n job key v
    exact ⟨(hr _).peer, (hr _).maxPayload, congrArg JobIds.stem (hr _).jobIds,
      (hr _).isOpen.trans ho⟩

end Task.Effect

namespace Cluster

/-- Site and mesh agree about the peer and about its broadcasts, of which there were at most `n`. -/
structure Agrees (w : Mesh) (n k : Nat) (i : Interpreter) : Prop where
  peer : w.peer? k = some i.peer
  route : w.routes.get? i.peer.id = some k
  owner : i.clock.owner = i.peer
  entry : i.clock.get i.peer = w.last i.peer
  bound : (i.clock.get i.peer).toNat ≤ n
  opened : i.isOpen

structure Sound (c : Cluster ν) (n : Nat) : Prop where
  mesh : c.mesh.Sound
  length : c.mesh.endpoints.length = c.sites.length
  agrees : ∀ (k : Nat) (s : Site ν), c.sites[k]? = some s → Agrees c.mesh n k s.interpreter
  strangers : ∀ p, (∀ k, c.mesh.peer? k ≠ some p) → c.mesh.last p = 0

theorem sound_empty : (empty : Cluster ν).Sound 0 where
  mesh := Mesh.sound_empty
  length := rfl
  agrees k s h := by cases h
  strangers p h := rfl

variable {c : Cluster ν} {n : Nat}

namespace Agrees

variable {w w' : Mesh} {k : Nat} {s : Site ν}

theorem placed (h : Agrees w n k s.interpreter) (hw : w.Sound) (hn : n + 1 < 2 ^ 64) :
    s.Placed k w where
  sound := hw
  routed := ⟨s.interpreter.peer, h.peer, h.route⟩
  fresh := by
    have hbound := h.bound
    have hpeek : s.interpreter.clock.peek.counter =
        s.interpreter.clock.get s.interpreter.peer + 1 := by
      rw [VersionVector.peek, h.owner]
    rw [h.owner, ← h.entry, hpeek, UInt64.lt_iff_toNat_lt, UInt64.toNat_add]
    have hone : (1 : UInt64).toNat = 1 := rfl
    rw [hone, Nat.mod_eq_of_lt (by omega)]
    omega
  opened := h.opened

variable {deeds : List (Deed ν)} {i : Interpreter}

theorem effect (h : Agrees w n k s.interpreter) (hw : w.Sound) (hn : n + 1 < 2 ^ 64)
    (he : Task.Effect k s w deeds i w') : Agrees w' (n + 1) k i := by
  obtain ⟨f, g, hq⟩ := he.requeued hw
  obtain ⟨hpeer, -, -, hopen⟩ := he.frame h.opened
  obtain ⟨hd, hclock⟩ | ⟨hd, hclock⟩ := he.clock hw
  · refine ⟨?_, ?_, ?_, ?_, ?_, hopen⟩
    · rw [hq.peer?, h.peer, hpeer]
    · rw [hq.routes, hpeer, h.route]
    · rw [hclock, hpeer, h.owner]
    · rw [hclock, hpeer, h.entry, Mesh.last, Mesh.last, hd]
    · rw [hclock, hpeer]
      exact Nat.le_succ_of_le h.bound
  · have hbound := h.bound
    rw [← h.owner] at hbound
    have hget := s.interpreter.clock.get_commit_peek (by omega)
    have hpeek : s.interpreter.clock.peek.counter =
        s.interpreter.clock.get s.interpreter.clock.owner + 1 := rfl
    refine ⟨?_, ?_, ?_, ?_, ?_, hopen⟩
    · rw [hq.peer?, h.peer, hpeer]
    · rw [hq.routes, hpeer, h.route]
    · rw [hclock, hpeer, VersionVector.owner_commit, h.owner]
    · have hlast : w'.last i.peer = s.interpreter.clock.peek.counter := by
        rw [Mesh.last_of_delivered (t := s.interpreter.clock.peek) hd i.peer, hpeer, ← h.owner]
        exact if_pos rfl
      rw [hlast, hclock, hpeer, ← h.owner, ← UInt64.toNat_inj, hget, hpeek, UInt64.toNat_add]
      exact (Nat.mod_eq_of_lt (show _ + 1 < 2 ^ 64 by omega)).symm
    · rw [hclock, hpeer, ← h.owner, hget]
      omega

theorem effect_other (h : Agrees w n k s.interpreter) (hw : w.Sound)
    (he : Task.Effect k s w deeds i w') {j : Nat} {i' : Interpreter} (hj : Agrees w n j i')
    (hne : j ≠ k) : Agrees w' (n + 1) j i' := by
  obtain ⟨f, g, hq⟩ := he.requeued hw
  have hpeers : i'.peer ≠ s.interpreter.clock.owner := by
    rw [h.owner]
    intro heq
    have hroute := hj.route
    rw [heq, h.route] at hroute
    exact hne (Option.some.inj hroute).symm
  have hlast : w'.last i'.peer = w.last i'.peer := by
    obtain ⟨hd, -⟩ | ⟨hd, -⟩ := he.clock hw
    · rw [Mesh.last, Mesh.last, hd]
    · rw [Mesh.last_of_delivered (t := s.interpreter.clock.peek) hd i'.peer]
      exact if_neg hpeers
  refine ⟨?_, ?_, hj.owner, ?_, Nat.le_succ_of_le hj.bound, hj.opened⟩
  · rw [hq.peer?, hj.peer]
  · rw [hq.routes, hj.route]
  · rw [hlast, hj.entry]

end Agrees

theorem perform_task {k : Nat} {s : Site ν} (hs : c.sites[k]? = some s) (t : Task ν) :
    c.perform (.task k t) = ((t.perform k s c.mesh).1.map fun d => (k, d),
      ⟨(t.perform k s c.mesh).2.2, c.sites.set k (t.perform k s c.mesh).2.1⟩) := by
  rw [perform, hs]

theorem perform_task_none {k : Nat} (hs : c.sites[k]? = none) (t : Task ν) :
    c.perform (.task k t) = ([], c) := by
  rw [perform, hs]

theorem getElem?_set_site {k : Nat} {s : Site ν} (hs : c.sites[k]? = some s) (s' : Site ν)
    (j : Nat) : (c.sites.set k s')[j]? = if j = k then some s' else c.sites[j]? := by
  have hlt := (List.getElem?_eq_some_iff.mp hs).1
  rw [List.getElem?_set]
  by_cases hj : k = j
  · rw [if_pos hj, if_pos hlt, if_pos hj.symm]
  · rw [if_neg hj, if_neg (Ne.symm hj)]

theorem getElem?_append_site (s' : Site ν) (j : Nat) :
    (c.sites ++ [s'])[j]? = if j = c.sites.length then some s' else c.sites[j]? := by
  by_cases hj : j = c.sites.length
  · rw [if_pos hj, hj, List.getElem?_concat_length]
  · rw [if_neg hj, List.getElem?_append]
    split
    · rfl
    · have hlen : [s'].length ≤ j - c.sites.length := by
        rw [List.length_singleton]
        omega
      rw [List.getElem?_eq_none hlen]
      exact (List.getElem?_eq_none (by omega)).symm

def Fresh (c : Cluster ν) (x : Newcomer) : Prop :=
  ∀ s ∈ c.sites, s.interpreter.peer ≠ x.peer ∧ s.interpreter.jobIds.stem ≠ x.stem

namespace Sound

theorem mono (h : c.Sound n) : c.Sound (n + 1) where
  mesh := h.mesh
  length := h.length
  agrees k s hs :=
    ⟨(h.agrees k s hs).peer, (h.agrees k s hs).route, (h.agrees k s hs).owner,
      (h.agrees k s hs).entry, Nat.le_succ_of_le (h.agrees k s hs).bound,
      (h.agrees k s hs).opened⟩
  strangers := h.strangers

theorem placed (h : c.Sound n) (hn : n + 1 < 2 ^ 64) {k : Nat} {s : Site ν}
    (hs : c.sites[k]? = some s) : s.Placed k c.mesh :=
  (h.agrees k s hs).placed h.mesh hn

theorem task (h : c.Sound n) (hn : n + 1 < 2 ^ 64) {k : Nat} {s : Site ν}
    (hs : c.sites[k]? = some s) (t : Task ν) : (c.perform (.task k t)).2.Sound (n + 1) := by
  have hk := h.agrees k s hs
  have he := Task.effect (h.placed hn hs) t
  obtain ⟨f, g, hq⟩ := he.requeued h.mesh
  rw [perform_task hs]
  refine ⟨hq.sound h.mesh, ?_, ?_, ?_⟩
  · rw [hq.length, h.length]
    exact List.length_set.symm
  · intro j s' hj
    rw [getElem?_set_site hs] at hj
    by_cases hjk : j = k
    · rw [if_pos hjk] at hj
      cases hj
      rw [hjk]
      exact hk.effect h.mesh hn he
    · rw [if_neg hjk] at hj
      exact hk.effect_other h.mesh he (h.agrees j s' hj) hjk
  · intro p hp
    have hold : ∀ j, c.mesh.peer? j ≠ some p := fun j => hq.peer? j ▸ hp j
    obtain ⟨hd, -⟩ | ⟨hd, -⟩ := he.clock h.mesh
    · rw [Mesh.last, hd]
      exact h.strangers p hold
    · rw [Mesh.last_of_delivered (t := s.interpreter.clock.peek) hd p, if_neg]
      · exact h.strangers p hold
      · intro hpeer
        refine hold k ?_
        rw [hk.peer, ← hk.owner]
        exact congrArg some hpeer.symm

theorem peer_ne (h : c.Sound n) {x : Newcomer} (hx : c.Fresh x) (k : Nat) :
    c.mesh.peer? k ≠ some x.peer := by
  intro hp
  have hlt := Mesh.peer?_lt hp
  rw [h.length] at hlt
  have hs := List.getElem?_eq_getElem hlt
  rw [(h.agrees k _ hs).peer] at hp
  exact (hx _ (List.getElem_mem hlt)).1 (Option.some.inj hp)

theorem join (h : c.Sound n) {x : Newcomer} (hx : c.Fresh x) :
    (c.perform (.join x)).2.Sound (n + 1) := by
  have hlast : ∀ p, (c.mesh.join x.peer).2.last p = c.mesh.last p := fun p => rfl
  refine ⟨h.mesh.join x.peer, ?_, ?_, ?_⟩
  · rw [perform_join, Mesh.join]
    dsimp only
    rw [List.length_append, List.length_append, h.length]
    rfl
  · intro k s hs
    rw [perform_join] at hs ⊢
    dsimp only at hs ⊢
    rw [getElem?_append_site] at hs
    by_cases hk : k = c.sites.length
    · rw [if_pos hk] at hs
      cases hs
      rw [hk, ← h.length]
      refine ⟨?_, ?_, rfl, ?_, Nat.zero_le _, rfl⟩
      · rw [Mesh.peer?_join, if_pos rfl]
        rfl
      · exact (Mesh.get?_routes_join x.peer x.peer).trans (if_pos rfl)
      · rw [hlast]
        exact (h.strangers _ (h.peer_ne hx)).symm
    · rw [if_neg hk] at hs
      have hold := h.agrees k s hs
      have hne : s.interpreter.peer ≠ x.peer := (hx s (List.mem_of_getElem? hs)).1
      refine ⟨?_, ?_, hold.owner, ?_, Nat.le_succ_of_le hold.bound, hold.opened⟩
      · rw [Mesh.peer?_join, if_neg (h.length ▸ hk), hold.peer]
      · rw [Mesh.get?_routes_join, if_neg hne, hold.route]
      · rw [hlast, hold.entry]
  · intro p hp
    refine (hlast p).trans (h.strangers p fun k hk => hp k ?_)
    rw [perform_join]
    dsimp only
    rw [Mesh.peer?_join, if_neg (Nat.ne_of_lt (Mesh.peer?_lt hk)), hk]

end Sound

end Cluster

end PeerMesh
