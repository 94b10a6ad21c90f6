import PeerMesh.Proofs.Events.Unfolds

namespace PeerMesh

variable {ν : Type}

theorem Hub.depth_release (h : Hub ν) (name : String) : (h.release name).depth = h.depth := by
  rw [Hub.release]
  split
  · rfl
  · rfl

namespace Chronicle

theorem hub_release (c : Chronicle ν) (name : String) :
    (c.release name).hub = c.hub.release name :=
  ((⟨rfl, rfl⟩ : c.Records c.hub _).release name).hub

/-- The hub has the listeners whose subscriptions are live. What is held under a name is live, and
it is held under no other name and not detached. -/
structure Kept (c : Chronicle ν) : Prop where
  table : c.hub.listeners.map (fun l => (l.id, l.kind)) = live c.past
  numbered : c.hub.Numbered
  held : ∀ name s, c.hub.held.get? name = some s →
    s.id ∈ liveIds c.past ∧ .detached s.id ∉ c.past
  apart : ∀ name other s, c.hub.held.get? name = some s → c.hub.held.get? other = some s →
    name = other
  detached : ∀ id, .detached id ∈ c.past → id ∈ liveIds c.past

/-- From `c` one gets to `c'` by what happens in `new`, with all the calls of the emissions that
begin in there. Of those that began before, only `own` makes calls. -/
structure Grows (depth : Nat) (own : Option Nat) (c c' : Chronicle ν) (new : List (Happening ν)) :
    Prop where
  past : c'.past = c.past ++ new
  limit : c'.hub.depth = c.hub.depth
  kept : c'.Kept
  unfolds : Unfolds depth c.past new
  calls : ∀ n id e, .called n id e ∈ new → n ∈ own ∨ c.past.length ≤ n
  complete : Complete c.past new
  nested : new.countP Happening.isBegan = new.countP Happening.isFinished

namespace Grows

variable {depth : Nat} {own : Option Nat} {c c' c'' : Chronicle ν} {new more : List (Happening ν)}

theorem refl (hc : c.Kept) : Grows depth own c c [] where
  past := (List.append_nil _).symm
  limit := rfl
  kept := hc
  unfolds := trivial
  calls n id e h := by cases h
  complete before e after h := by simp at h
  nested := rfl

theorem trans (h : Grows depth own c c' new) (h' : Grows depth own c' c'' more)
    (hown : ∀ n ∈ own, n < c.past.length) : Grows depth own c c'' (new ++ more) where
  past := by rw [h'.past, h.past, List.append_assoc]
  limit := h'.limit.trans h.limit
  kept := h'.kept
  unfolds := unfolds_append.mpr ⟨h.unfolds, h.past ▸ h'.unfolds⟩
  calls n id e hmem := by
    obtain hmem | hmem := List.mem_append.mp hmem
    · exact h.calls n id e hmem
    · refine (h'.calls n id e hmem).imp_right fun hle => ?_
      rw [h.past, List.length_append] at hle
      omega
  complete := h.complete.append (h.past ▸ h'.complete) hown (h.past ▸ h'.calls)
  nested := by rw [List.countP_append, List.countP_append, h.nested, h'.nested]

theorem le_of_called (h : Grows depth none c c' new) {n id : Nat} {e : Event}
    (hmem : .called n id e ∈ new) : c.past.length ≤ n :=
  (h.calls n id e hmem).resolve_left fun hn => by cases hn

theorem mono (h : Grows depth none c c' new) : Grows depth own c c' new :=
  { h with calls := fun _ _ _ hmem => .inr (h.le_of_called hmem) }

theorem nested_past (h : Grows depth own c c' new) {level : Nat} (hc : Nested level c.past) :
    Nested level c'.past := by
  rw [Nested] at hc ⊢
  rw [h.past, List.countP_append, List.countP_append, hc, h.nested]
  omega

theorem plain {x : Happening ν} {hub : Hub ν} (hlimit : hub.depth = c.hub.depth)
    (hc : (⟨hub, c.past ++ [x]⟩ : Chronicle ν).Kept) (hx : x.Follows depth c.past)
    (hp : x.isPlain) : Grows depth own c ⟨hub, c.past ++ [x]⟩ [x] where
  past := rfl
  limit := hlimit
  kept := hc
  unfolds := ⟨hx, trivial⟩
  calls n id e h := by
    cases List.mem_singleton.mp h
    cases hp
  complete := .single c.past (Happening.isBegan_of_isPlain hp)
  nested := by
    cases x with
    | began | called | finished => cases hp
    | subscribed | ended | detached | counted | noted | refused => rfl

end Grows

namespace Kept

variable (depth : Nat) {own : Option Nat} {c : Chronicle ν}

theorem empty : (empty depth : Chronicle ν).Kept where
  table := rfl
  numbered := .empty depth
  held name s h := by cases h
  apart name other s h := by cases h
  detached id h := by cases h

theorem add (hc : c.Kept) {x : Happening ν} (hx : ∀ ls, x.update ls = ls)
    (hd : ∀ id, x ≠ .detached id) : (c.add x).Kept := by
  have hlive : live (c.past ++ [x]) = live c.past := (live_append c.past x).trans (hx _)
  have hmem : ∀ id, .detached id ∈ c.past ++ [x] → .detached id ∈ c.past :=
    fun id h => detached_of_concat h (hd id)
  constructor
  · exact hc.table.trans hlive.symm
  · exact hc.numbered
  · intro name s h
    rw [Chronicle.add, liveIds, hlive]
    exact ⟨(hc.held name s h).1, mt (hmem s.id) (hc.held name s h).2⟩
  · exact hc.apart
  · intro id h
    rw [Chronicle.add, liveIds, hlive]
    exact hc.detached id (hmem id h)

theorem length_live (hc : c.Kept) : c.hub.count = (live c.past).length := by
  rw [← hc.table, List.length_map, Hub.count]

theorem count (hc : c.Kept) : Grows depth own c c.count [.counted c.hub.count] :=
  .plain rfl (hc.add (fun _ => rfl) fun _ h => by cases h) hc.length_live rfl

theorem note (hc : c.Kept) (what : ν) :
    Grows depth own c (c.add (.noted what)) [.noted what] :=
  .plain rfl (hc.add (fun _ => rfl) fun _ h => by cases h) trivial rfl

theorem id_ne (hc : c.Kept) {name other : String} {s t : Subscription}
    (hs : c.hub.held.get? name = some s) (ht : c.hub.held.get? other = some t)
    (hne : other ≠ name) : t.id ≠ s.id := by
  intro hid
  have heq : t = s := by
    cases t
    cases s
    exact congrArg _ hid
  exact hne (hc.apart other name s (heq ▸ ht) hs)

theorem ended (hc : c.Kept) {name : String} {s : Subscription}
    (hs : c.hub.held.get? name = some s) :
    (⟨c.hub.release name, c.past ++ [.ended s.id]⟩ : Chronicle ν).Kept := by
  have hrelease : c.hub.release name = { c.hub.cancel s with held := c.hub.held.erase name } := by
    rw [Hub.release, hs]
  have hlive : live (c.past ++ [.ended s.id]) = (live c.past).filter fun l => l.1 ≠ s.id :=
    live_append c.past _
  have hstays : ∀ id, id ≠ s.id → id ∈ liveIds c.past →
      id ∈ liveIds (c.past ++ [.ended s.id]) := by
    intro id hne hid
    obtain ⟨l, hl, rfl⟩ := List.mem_map.mp hid
    rw [liveIds, hlive]
    exact List.mem_map_of_mem (List.mem_filter.mpr ⟨hl, decide_eq_true hne⟩)
  have hdetached : ∀ id, .detached id ∈ c.past ++ [.ended s.id] → .detached id ∈ c.past :=
    fun id h => detached_of_concat h fun hx => by cases hx
  rw [hrelease]
  constructor
  · rw [hlive, ← hc.table, List.filter_map]
    rfl
  · exact hc.numbered.cancel s
  · intro other t h
    obtain ⟨hne, ht⟩ := (Dict.get?_erase_eq_some _).mp h
    obtain ⟨hlive, hnot⟩ := hc.held other t ht
    exact ⟨hstays t.id (hc.id_ne hs ht hne) hlive, mt (hdetached t.id) hnot⟩
  · intro name₁ name₂ t h₁ h₂
    obtain ⟨-, h₁⟩ := (Dict.get?_erase_eq_some _).mp h₁
    obtain ⟨-, h₂⟩ := (Dict.get?_erase_eq_some _).mp h₂
    exact hc.apart name₁ name₂ t h₁ h₂
  · intro id h
    have hid := hdetached id h
    refine hstays id ?_ (hc.detached id hid)
    rintro rfl
    exact (hc.held name s hs).2 hid

theorem release (hc : c.Kept) (name : String) (hown : ∀ n ∈ own, n < c.past.length) :
    ∃ new, Grows depth own c (c.release name) new ∧ ∀ id, .detached id ∉ new := by
  rw [Chronicle.release]
  cases hs : c.hub.held.get? name with
  | none => exact ⟨[], .refl hc, fun id h => by cases h⟩
  | some s =>
    have he := hc.ended hs
    have hend : Grows depth own c ⟨c.hub.release name, c.past ++ [.ended s.id]⟩ [.ended s.id] :=
      .plain (c.hub.depth_release name) he (hc.held name s hs).2 rfl
    exact ⟨_, hend.trans (he.count depth) hown, fun id h => by simp at h⟩

theorem subscribed (hc : c.Kept) (kind : EventKind) {hub : Hub ν} {listener : Listener ν}
    (hlisteners : hub.listeners = c.hub.listeners ++ [⟨c.hub.next, kind, listener⟩])
    (hnext : hub.next = c.hub.next + 1) (hheld : hub.held = c.hub.held) :
    (⟨hub, c.past ++ [.subscribed c.hub.next kind]⟩ : Chronicle ν).Kept := by
  have hlive : live (c.past ++ [.subscribed c.hub.next kind]) =
      live c.past ++ [(c.hub.next, kind)] :=
    live_append c.past _
  have hdetached : ∀ id, .detached id ∈ c.past ++ [.subscribed c.hub.next kind] →
      .detached id ∈ c.past :=
    fun id h => detached_of_concat h fun hx => by cases hx
  have hstays : ∀ id, id ∈ liveIds c.past →
      id ∈ liveIds (c.past ++ [.subscribed c.hub.next kind]) := by
    intro id hid
    rw [liveIds, hlive, List.map_append]
    exact List.mem_append_left _ hid
  constructor
  · rw [hlive, ← hc.table, hlisteners, List.map_append]
    rfl
  · intro l hl
    dsimp only at hl ⊢
    rw [hlisteners] at hl
    rw [hnext]
    exact hc.numbered.on kind listener l hl
  · intro name s hs
    dsimp only at hs ⊢
    rw [hheld] at hs
    exact ⟨hstays s.id (hc.held name s hs).1, mt (hdetached s.id) (hc.held name s hs).2⟩
  · intro name other s hs hs'
    dsimp only at hs hs'
    rw [hheld] at hs hs'
    exact hc.apart name other s hs hs'
  · exact fun id h => hstays id (hc.detached id (hdetached id h))

theorem lt_next (hc : c.Kept) {s : Nat × EventKind} (hs : s ∈ live c.past) :
    s.1 < c.hub.next := by
  rw [← hc.table] at hs
  obtain ⟨l, hl, rfl⟩ := List.mem_map.mp hs
  exact hc.numbered l hl

theorem hold {hub : Hub ν} {past : List (Happening ν)} {name : String} {s : Subscription}
    (hc : (⟨hub.release name, past⟩ : Chronicle ν).Kept) (hlive : s.id ∈ liveIds past)
    (hnot : .detached s.id ∉ past) (hfree : ∀ other, hub.held.get? other ≠ some s) :
    (⟨hub.hold name s, past⟩ : Chronicle ν).Kept := by
  have hheld : ∀ other t, (hub.hold name s).held.get? other = some t →
      other = name ∧ t = s ∨
        other ≠ name ∧ hub.held.get? other = some t ∧
          (hub.release name).held.get? other = some t := by
    intro other t h
    rw [Hub.hold, Dict.get?_insert] at h
    split at h
    · next heq =>
      cases h
      exact .inl ⟨heq, rfl⟩
    · next hne =>
      refine .inr ⟨hne, h, ?_⟩
      rw [Hub.release]
      split
      · exact h
      · exact (Dict.get?_erase_eq_some _).mpr ⟨hne, h⟩
  constructor
  · exact hc.table
  · exact hc.numbered
  · intro other t h
    obtain ⟨-, rfl⟩ | ⟨-, -, h⟩ := hheld other t h
    · exact ⟨hlive, hnot⟩
    · exact hc.held other t h
  · intro name₁ name₂ t h₁ h₂
    obtain ⟨rfl, rfl⟩ | ⟨-, hother, hkept⟩ := hheld name₁ t h₁
    · obtain ⟨rfl, -⟩ | ⟨-, hother, -⟩ := hheld name₂ t h₂
      · rfl
      · exact absurd hother (hfree name₂)
    · obtain ⟨-, rfl⟩ | ⟨-, -, hkept'⟩ := hheld name₂ t h₂
      · exact absurd hother (hfree name₁)
      · exact hc.apart name₁ name₂ t hkept hkept'
  · exact hc.detached

theorem subscribe (hc : c.Kept) (name : String) (kind : EventKind) (hub : Hub ν)
    (listener : Listener ν)
    (hlisteners : hub.listeners = c.hub.listeners ++ [⟨c.hub.next, kind, listener⟩])
    (hnext : hub.next = c.hub.next + 1) (hheld : hub.held = c.hub.held)
    (hlimit : hub.depth = c.hub.depth) (hown : ∀ n ∈ own, n < c.past.length) :
    ∃ new, Grows depth own c (c.subscribe name kind hub) new := by
  have hs := hc.subscribed kind hlisteners hnext hheld
  have hstart : Grows depth own c ⟨hub, c.past ++ [.subscribed c.hub.next kind]⟩
      [.subscribed c.hub.next kind] :=
    .plain hlimit hs (fun s hs => hc.lt_next hs) rfl
  have hcount := hstart.trans (hs.count depth) hown
  obtain ⟨more, hrelease, hmore⟩ := hcount.kept.release depth name fun n hn => by
    rw [hcount.past, List.length_append]
    exact Nat.lt_add_right _ (hown n hn)
  have hall := hcount.trans hrelease hown
  have hold : ∀ id, id ∈ liveIds c.past → id ≠ c.hub.next := by
    intro id hid
    obtain ⟨s, hs, rfl⟩ := List.mem_map.mp hid
    exact Nat.ne_of_lt (hc.lt_next hs)
  have hne : ∀ other s, hub.held.get? other = some s → s.id ≠ c.hub.next := by
    intro other s h
    exact hold s.id (hc.held other s (hheld ▸ h)).1
  have hlisted : (⟨c.hub.next, kind, listener⟩ : Registered ν) ∈ (hub.release name).listeners := by
    have hmem : (⟨c.hub.next, kind, listener⟩ : Registered ν) ∈ hub.listeners :=
      hlisteners ▸ List.mem_append_right _ List.mem_cons_self
    rw [Hub.release]
    cases hh : hub.held.get? name with
    | none => exact hmem
    | some s => exact List.mem_filter.mpr ⟨hmem, decide_eq_true (hne name s hh).symm⟩
  let c' : Chronicle ν := Chronicle.count ⟨hub, c.past ++ [.subscribed c.hub.next kind]⟩
  have hkept : (⟨hub.release name, (c'.release name).past⟩ : Chronicle ν).Kept := by
    have hhub : (c'.release name).hub = hub.release name := c'.hub_release name
    exact hhub ▸ hrelease.kept
  have hdepth : (hub.release name).depth = c.hub.depth := (hub.depth_release name).trans hlimit
  refine ⟨_, { hall with
    limit := hdepth
    kept := hkept.hold (s := ⟨c.hub.next⟩) ?_ ?_ ?_ }⟩
  · rw [liveIds, ← hkept.table, List.map_map]
    exact List.mem_map_of_mem hlisted
  · rw [hall.past]
    intro hmem
    obtain hmem | hmem := List.mem_append.mp hmem
    · exact hold _ (hc.detached _ hmem) rfl
    · obtain hmem | hmem := List.mem_append.mp hmem
      · simp at hmem
      · exact hmore _ hmem
  · exact fun other h => hne other _ h rfl

theorem listen (hc : c.Kept) (name : String) (kind : EventKind) (listener : Listener ν)
    (hown : ∀ n ∈ own, n < c.past.length) :
    ∃ new, Grows depth own c (c.listen name kind listener) new :=
  hc.subscribe depth name kind (c.hub.on kind listener).2 listener rfl rfl rfl rfl hown

theorem channel (hc : c.Kept) (name : String) (kind : EventKind)
    (hown : ∀ n ∈ own, n < c.past.length) :
    ∃ new, Grows depth own c (c.channel name kind) new :=
  hc.subscribe depth name kind (c.hub.channel kind).2 (fun e => .post c.hub.next e .done) rfl rfl
    rfl rfl hown

theorem detached_of_held (hc : c.Kept) {name : String} {s : Subscription}
    (hs : c.hub.held.get? name = some s) :
    (⟨c.hub.detach name, c.past ++ [.detached s.id]⟩ : Chronicle ν).Kept := by
  have hlive : live (c.past ++ [.detached s.id]) = live c.past := live_append c.past _
  have hheld : ∀ other t, (c.hub.detach name).held.get? other = some t →
      other ≠ name ∧ c.hub.held.get? other = some t :=
    fun _ _ h => (Dict.get?_erase_eq_some _).mp h
  constructor
  · exact hc.table.trans hlive.symm
  · exact hc.numbered
  · intro other t h
    obtain ⟨hne, ht⟩ := hheld other t h
    rw [liveIds, hlive]
    refine ⟨(hc.held other t ht).1, fun hmem => ?_⟩
    obtain hmem | hmem := List.mem_append.mp hmem
    · exact (hc.held other t ht).2 hmem
    · exact hc.id_ne hs ht hne (Happening.detached.inj (List.mem_singleton.mp hmem))
  · intro name₁ name₂ t h₁ h₂
    exact hc.apart name₁ name₂ t (hheld name₁ t h₁).2 (hheld name₂ t h₂).2
  · intro id h
    rw [liveIds, hlive]
    obtain h | h := List.mem_append.mp h
    · exact hc.detached id h
    · cases List.mem_singleton.mp h
      exact (hc.held name s hs).1

theorem detach (hc : c.Kept) (name : String) :
    ∃ new, Grows depth own c (c.detach name) new := by
  rw [Chronicle.detach]
  cases hs : c.hub.held.get? name with
  | none =>
    have hheld : ∀ other t, (c.hub.detach name).held.get? other = some t →
        c.hub.held.get? other = some t :=
      fun _ _ h => ((Dict.get?_erase_eq_some _).mp h).2
    refine ⟨[], { Grows.refl hc with past := rfl, limit := rfl, kept := ?_ }⟩
    rw [Option.toList_none, List.map_nil, List.append_nil]
    exact ⟨hc.table, hc.numbered, fun other t h => hc.held other t (hheld other t h),
      fun name₁ name₂ t h₁ h₂ => hc.apart name₁ name₂ t (hheld name₁ t h₁) (hheld name₂ t h₂),
      hc.detached⟩
  | some s => exact ⟨_, .plain rfl (hc.detached_of_held hs) (hc.held name s hs).1 rfl⟩

theorem post (hc : c.Kept) (mailbox : Nat) (e : Event) :
    ({ c with hub := c.hub.post mailbox e } : Chronicle ν).Kept :=
  ⟨hc.table, hc.numbered, hc.held, hc.apart, hc.detached⟩

end Kept

end Chronicle

end PeerMesh
