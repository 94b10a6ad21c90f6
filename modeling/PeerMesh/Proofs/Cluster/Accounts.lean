import PeerMesh.Proofs.Cluster.Traffic

namespace PeerMesh

variable {ν : Type}

/-- Calls are no responses and fit the limit, responses were broadcast if they fit it, and mappers
were called for what was served within it only. -/
def Deed.Within (limit : Nat) : Deed ν → Prop
  | called c => c.fits limit ∧ ∀ job, c.answer? job = none
  | forwarded c sent => sent = c.fits limit
  | served _ s _ => s.interpreter.maxPayload = limit
  | noted log => ∀ job, mappings job log = []
  | reducing _ => True

def Deed.issued? : Deed ν → Option JobId
  | called (.custom job _ _ _) => some job
  | _ => none

namespace Task.Effect

variable {k : Nat} {s : Site ν} {w w' : Mesh} {deeds : List (Deed ν)} {i : Interpreter}
  {gone : List Command} {past : List (Remark ν)}

theorem books (h : Effect k s w deeds i w') (ho : s.interpreter.isOpen)
    (hb : Books s.interpreter gone past) :
    Books i (gone ++ deeds.filterMap Deed.gone?) (past ++ deeds.flatMap Deed.remarks) := by
  cases h with
  | quiet ids pump hdeeds hids hpump hmesh =>
    have hquiet := quiet_of_noted hdeeds
    have hinert := hb.inert hquiet.inert
    rw [hquiet.gone, List.append_nil]
    exact hinert.congr rfl rfl
  | called hissued hfits hsend hrest =>
    have hquiet := quiet_of_reducing fun d hd => (hrest d hd).imp fun m hm => hm.1
    have hinert := hb.inert hquiet.inert
    rw [List.filterMap_cons, hquiet.gone, List.flatMap_cons]
    dsimp only [Deed.gone?, Deed.remarks]
    rw [List.append_nil, List.nil_append]
    exact hinert.congr rfl rfl
  | forwarded hout hfits hsend =>
    rw [List.flatMap_singleton]
    dsimp only [Deed.remarks]
    rw [List.append_nil]
    exact hb.forward hout rfl rfl
  | dropped hout hfits =>
    rw [List.flatMap_singleton]
    dsimp only [Deed.remarks]
    rw [List.append_nil]
    exact hb.forward hout rfl rfl
  | served hread hdelivered hmesh =>
    rw [List.flatMap_singleton]
    have hserved := Site.receiveBroadcast_books w.neighbours hb ho
    exact (List.append_nil gone).symm ▸ hserved _
  | emitted he job key v =>
    rw [List.flatMap_singleton]
    exact (List.append_nil gone).symm ▸ hb.emit ho he job key v

theorem within (h : Effect k s w deeds i w') :
    ∀ d ∈ deeds, d.Within s.interpreter.maxPayload := by
  intro d hd
  cases h with
  | quiet ids pump hdeeds hids hpump hmesh =>
    obtain ⟨log, rfl, hlog⟩ := hdeeds d hd
    exact mappings_of_isInert hlog
  | called hissued hfits hsend hrest =>
    obtain rfl | hd := List.mem_cons.mp hd
    · refine ⟨hfits, fun job => ?_⟩
      cases hissued with
      | rpc | custom => rfl
    · obtain ⟨m, rfl, -⟩ := hrest d hd
      trivial
  | forwarded hout hfits hsend =>
    cases List.mem_singleton.mp hd
    exact hfits.symm
  | dropped hout hfits =>
    cases List.mem_singleton.mp hd
    exact hfits.symm
  | served hread hdelivered hmesh =>
    cases List.mem_singleton.mp hd
    rfl
  | emitted he job key v =>
    cases List.mem_singleton.mp hd
    exact fun job => rfl

theorem issued (h : Effect k s w deeds i w') :
    (deeds.filterMap Deed.issued? = [] ∧ (i.jobIds = s.interpreter.jobIds ∨
      i.jobIds = s.interpreter.jobIds.next.2)) ∨
    (deeds.filterMap Deed.issued? = [s.interpreter.jobIds.next.1] ∧
      i.jobIds = s.interpreter.jobIds.next.2) := by
  have hrest : ∀ {c : Command} {rest : List (Deed ν)},
      (∀ d ∈ rest, ∃ m, d = .reducing m ∧ c.job? = some m.job) →
      rest.filterMap Deed.issued? = [] := by
    intro c rest hr
    refine List.filterMap_eq_nil_iff.mpr fun d hd => ?_
    obtain ⟨m, rfl, -⟩ := hr d hd
    rfl
  cases h with
  | quiet ids pump hdeeds hids hpump hmesh =>
    refine .inl ⟨List.filterMap_eq_nil_iff.mpr fun d hd => ?_, hids⟩
    obtain ⟨log, rfl, -⟩ := hdeeds d hd
    rfl
  | called hissued hfits hsend hr =>
    rw [List.filterMap_cons, hrest hr]
    cases hissued with
    | rpc name args => exact .inl ⟨rfl, .inl rfl⟩
    | custom key mapper shape => exact .inr ⟨rfl, rfl⟩
  | forwarded hout hfits hsend => exact .inl ⟨rfl, .inl rfl⟩
  | dropped hout hfits => exact .inl ⟨rfl, .inl rfl⟩
  | served hread hdelivered hmesh =>
    exact .inl ⟨rfl, .inl (s.receiveBroadcast_resembles _ _).jobIds⟩
  | emitted he job key v =>
    exact .inl ⟨rfl, .inl (Interpreter.Resembles.emit _ _ job key v).jobIds⟩

theorem outbox_of_called {c : Command} (h : Effect k s w (.called c :: deeds) i w') :
    i.outbox = s.interpreter.outbox := by
  cases h with
  | quiet ids pump hdeeds hids hpump hmesh =>
    obtain ⟨log, he, -⟩ := hdeeds _ List.mem_cons_self
    cases he
  | called hissued hfits hsend hrest => rfl

theorem reducing (h : Effect k s w deeds i w') {m : MapReduce} (hm : .reducing m ∈ deeds) :
    m.job ∈ deeds.filterMap Deed.issued? := by
  cases h with
  | quiet ids pump hdeeds hids hpump hmesh =>
    obtain ⟨log, he, -⟩ := hdeeds _ hm
    cases he
  | called hissued hfits hsend hrest =>
    obtain he | hm := List.mem_cons.mp hm
    · cases he
    · obtain ⟨m', he, hjob⟩ := hrest _ hm
      cases he
      rw [List.filterMap_cons]
      cases hissued with
      | rpc name args => cases hjob
      | custom key mapper shape =>
        have hj : s.interpreter.jobIds.next.1 = m.job := Option.some.inj hjob
        rw [← hj]
        exact List.mem_cons_self
  | forwarded hout hfits hsend => cases List.mem_singleton.mp hm
  | dropped hout hfits => cases List.mem_singleton.mp hm
  | served hread hdelivered hmesh => cases List.mem_singleton.mp hm
  | emitted he job key v => cases List.mem_singleton.mp hm

end Task.Effect

def issuedBy (k : Nat) (trace : Trace ν) : List JobId :=
  (deedsAt k trace).filterMap Deed.issued?

theorem issuedBy_append (k : Nat) (trace more : Trace ν) :
    issuedBy k (trace ++ more) = issuedBy k trace ++ issuedBy k more := by
  rw [issuedBy, deedsAt_append]
  exact List.filterMap_append

namespace Cluster

variable {c₀ c : Cluster ν} {n : Nat} {past : Trace ν}

/-- The accounts of all sites are right, and nothing was done where no site is. -/
structure Accounts (c : Cluster ν) (past : Trace ν) : Prop where
  books : ∀ (k : Nat) (s : Site ν), c.sites[k]? = some s →
    Books s.interpreter (goneFrom k past) (remarksAt k past)
  within : ∀ (k : Nat) (s : Site ν), c.sites[k]? = some s →
    ∀ d ∈ deedsAt k past, d.Within s.interpreter.maxPayload
  nowhere : ∀ k, c.sites.length ≤ k → deedsAt k past = []

theorem accounts_empty : Accounts (empty : Cluster ν) [] where
  books k s hs := by cases hs
  within k s hs := by cases hs
  nowhere k hk := rfl

namespace Accounts

theorem join (h : Accounts c past) (x : Newcomer) :
    Accounts (c.perform (.join x)).2 past := by
  have hnone := h.nowhere c.sites.length (Nat.le_refl _)
  refine ⟨?_, ?_, ?_⟩
  · intro k s hs
    rw [perform_join, getElem?_append_site] at hs
    by_cases hk : k = c.sites.length
    · rw [if_pos hk] at hs
      cases hs
      rw [goneFrom, remarksAt, hk, hnone]
      exact .start rfl rfl
    · rw [if_neg hk] at hs
      exact h.books k s hs
  · intro k s hs
    rw [perform_join, getElem?_append_site] at hs
    by_cases hk : k = c.sites.length
    · intro d hd
      rw [hk, hnone] at hd
      cases hd
    · rw [if_neg hk] at hs
      exact h.within k s hs
  · intro k hk
    rw [perform_join, List.length_append] at hk
    exact h.nowhere k (Nat.le_of_succ_le hk)

theorem task (h : Accounts c past) (hc : c.Sound n) (hn : n + 1 < 2 ^ 64) {k : Nat} {s : Site ν}
    (hs : c.sites[k]? = some s) (t : Task ν) :
    Accounts (c.perform (.task k t)).2 (past ++ (c.perform (.task k t)).1) := by
  have ho := (hc.agrees k s hs).opened
  have he := Task.effect (hc.placed hn hs) t
  have hlen := length_perform_task c k t
  rw [perform_task hs] at hlen ⊢
  dsimp only at hlen ⊢
  have hother : ∀ j, j ≠ k →
      deedsAt j (past ++ (t.perform k s c.mesh).1.map fun d => (k, d)) = deedsAt j past := by
    intro j hj
    rw [deedsAt_append, deedsAt_other (Ne.symm hj), List.append_nil]
  have hself : deedsAt k (past ++ (t.perform k s c.mesh).1.map fun d => (k, d)) =
      deedsAt k past ++ (t.perform k s c.mesh).1 := by
    rw [deedsAt_append, deedsAt_self]
  refine ⟨?_, ?_, ?_⟩
  · intro j s' hj
    rw [getElem?_set_site hs] at hj
    by_cases hjk : j = k
    · rw [if_pos hjk] at hj
      cases hj
      rw [hjk, goneFrom, remarksAt, hself, List.filterMap_append, List.flatMap_append]
      exact he.books ho (h.books k s hs)
    · rw [if_neg hjk] at hj
      rw [goneFrom, remarksAt, hother j hjk]
      exact h.books j s' hj
  · intro j s' hj
    rw [getElem?_set_site hs] at hj
    by_cases hjk : j = k
    · rw [if_pos hjk] at hj
      cases hj
      rw [hjk, hself, (he.frame ho).2.1]
      intro d hd
      obtain hd | hd := List.mem_append.mp hd
      · exact h.within k s hs d hd
      · exact he.within d hd
    · rw [if_neg hjk] at hj
      rw [hother j hjk]
      exact h.within j s' hj
  · intro j hj
    rw [hlen] at hj
    have hlt := (List.getElem?_eq_some_iff.mp hs).1
    rw [hother j (by omega)]
    exact h.nowhere j hj

end Accounts

def outboxAt (c : Cluster ν) (k : Nat) : List Command :=
  (c.sites[k]?.map fun s => s.interpreter.outbox).getD []

theorem outboxAt_eq {k : Nat} {s : Site ν} (h : c.sites[k]? = some s) :
    c.outboxAt k = s.interpreter.outbox := by
  rw [outboxAt, h]
  rfl

/-- What a site let through left its outbox or waits there. -/
theorem Accounts.responses_eq (h : Accounts c past) (k : Nat) :
    responses [] (remarksAt k past) = goneFrom k past ++ c.outboxAt k := by
  cases hs : c.sites[k]? with
  | none =>
    have hnil := h.nowhere k (List.getElem?_eq_none_iff.mp hs)
    rw [remarksAt, goneFrom, outboxAt, hnil, hs]
    rfl
  | some s => rw [outboxAt_eq hs, (h.books k s hs).outbox]

theorem accounts (hc : c.Sound n) {moves : List (Move ν)} (ho : c.Orderly moves)
    (hn : n + moves.length + 1 < 2 ^ 64) (h : Accounts c past) :
    Accounts (c.run moves).2 (past ++ (c.run moves).1) :=
  (run_induction (Q := fun _ => True) (P := fun _ c past => Accounts c past) (fun h => h)
    (fun x _ _ h => h.join x) (fun _ hc hm hs h => h.task hc (by omega) hs _)
    (fun _ _ => trivial) hc ho hn h).2

end Cluster

end PeerMesh
