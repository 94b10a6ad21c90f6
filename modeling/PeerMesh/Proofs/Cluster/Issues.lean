import PeerMesh.Proofs.Cluster.Accounts

namespace PeerMesh

variable {ν : Type}

namespace Cluster

variable {c₀ c : Cluster ν} {n : Nat} {past : Trace ν}

def Distinct (c : Cluster ν) : Prop :=
  ∀ (j k : Nat) (s t : Site ν), c.sites[j]? = some s → c.sites[k]? = some t →
    s.interpreter.jobIds.stem = t.interpreter.jobIds.stem → j = k

structure Lasts (i j : Interpreter) : Prop where
  maxPayload : j.maxPayload = i.maxPayload
  stem : j.jobIds.stem = i.jobIds.stem
  seq : i.jobIds.seq.toNat ≤ j.jobIds.seq.toNat

theorem Lasts.refl (i : Interpreter) : Lasts i i :=
  ⟨rfl, rfl, Nat.le_refl _⟩

theorem Lasts.trans {i j k : Interpreter} (h : Lasts i j) (h' : Lasts j k) : Lasts i k :=
  ⟨h'.maxPayload.trans h.maxPayload, h'.stem.trans h.stem, Nat.le_trans h.seq h'.seq⟩

section Effects

variable {k : Nat} {s : Site ν} {w w' : Mesh} {deeds : List (Deed ν)} {i : Interpreter}

theorem lasts_of_effect (he : Task.Effect k s w deeds i w') (ho : s.interpreter.isOpen)
    (hseq : s.interpreter.jobIds.seq.toNat + 1 < 2 ^ 64) :
    Lasts s.interpreter i ∧
      i.jobIds.seq.toNat ≤ s.interpreter.jobIds.seq.toNat + 1 := by
  obtain ⟨-, hmax, hstem, -⟩ := he.frame ho
  have hnext := JobIds.seq_next hseq
  obtain ⟨-, hids | hids⟩ | ⟨-, hids⟩ := he.issued
  · refine ⟨⟨hmax, hstem, ?_⟩, ?_⟩
    · rw [hids]
    · rw [hids]
      exact Nat.le_succ _
  all_goals
    refine ⟨⟨hmax, hstem, ?_⟩, ?_⟩
    · rw [hids, hnext]
      exact Nat.le_succ _
    · rw [hids, hnext]

theorem issued_of_effect (he : Task.Effect k s w deeds i w')
    (hseq : s.interpreter.jobIds.seq.toNat + 1 < 2 ^ 64) {job : JobId}
    (hjob : job ∈ deeds.filterMap Deed.issued?) :
    job = JobIds.nth s.interpreter.jobIds.stem s.interpreter.jobIds.seq.toNat ∧
      s.interpreter.jobIds.seq.toNat < i.jobIds.seq.toNat := by
  obtain ⟨hnil, -⟩ | ⟨hone, hids⟩ := he.issued
  · rw [hnil] at hjob
    cases hjob
  · rw [hone] at hjob
    cases List.mem_singleton.mp hjob
    rw [hids, JobIds.seq_next hseq]
    exact ⟨rfl, Nat.lt_succ_self _⟩

end Effects

theorem Distinct.set (h : c.Distinct) {k : Nat} {s : Site ν} (hs : c.sites[k]? = some s)
    {s' : Site ν} (hstem : s'.interpreter.jobIds.stem = s.interpreter.jobIds.stem) (w : Mesh) :
    Distinct ⟨w, c.sites.set k s'⟩ := by
  have hold : ∀ (l : Nat) (u : Site ν), (c.sites.set k s')[l]? = some u →
      ∃ u', c.sites[l]? = some u' ∧ u.interpreter.jobIds.stem = u'.interpreter.jobIds.stem := by
    intro l u hl
    rw [getElem?_set_site hs] at hl
    split at hl
    · next hlk =>
      cases hl
      exact ⟨s, hlk ▸ hs, hstem⟩
    · exact ⟨u, hl, rfl⟩
  intro i j u v hi hj huv
  obtain ⟨u', hi', hu⟩ := hold i u hi
  obtain ⟨v', hj', hv⟩ := hold j v hj
  exact h i j u' v' hi' hj' (hu.symm.trans (huv.trans hv))

/-- Since `c₀`, every site gave its next identifiers to its jobs. -/
structure Issues (c₀ c : Cluster ν) (n : Nat) (trace : Trace ν) : Prop where
  distinct : c.Distinct
  seq : ∀ (k : Nat) (s : Site ν), c.sites[k]? = some s → s.interpreter.jobIds.seq.toNat ≤ n + 1
  lasts : ∀ (k : Nat) (s₀ : Site ν), c₀.sites[k]? = some s₀ →
    ∃ s, c.sites[k]? = some s ∧ Lasts s₀.interpreter s.interpreter
  issued : ∀ (k : Nat) (s : Site ν), c.sites[k]? = some s → ∀ job ∈ issuedBy k trace,
    ∃ i, job = JobIds.nth s.interpreter.jobIds.stem i ∧ i < s.interpreter.jobIds.seq.toNat ∧
      ∀ s₀, c₀.sites[k]? = some s₀ → s₀.interpreter.jobIds.seq.toNat ≤ i
  nowhere : ∀ k, c.sites.length ≤ k → issuedBy k trace = []
  reducing : ∀ k m, .reducing m ∈ deedsAt k trace → m.job ∈ issuedBy k trace

namespace Issues

theorem start (hd : c.Distinct) (hs : ∀ (k : Nat) (s : Site ν), c.sites[k]? = some s →
    s.interpreter.jobIds.seq.toNat ≤ n + 1) : Issues c c n [] where
  distinct := hd
  seq := hs
  lasts k s h := ⟨s, h, .refl _⟩
  issued k s h job hjob := by cases hjob
  nowhere k hk := rfl
  reducing k m hm := by cases hm

theorem mono (h : Issues c₀ c n past) : Issues c₀ c (n + 1) past where
  distinct := h.distinct
  seq k s hs := Nat.le_succ_of_le (h.seq k s hs)
  lasts := h.lasts
  issued := h.issued
  nowhere := h.nowhere
  reducing := h.reducing

theorem join (h : Issues c₀ c n past) {x : Newcomer} (hx : c.Fresh x) :
    Issues c₀ (c.perform (.join x)).2 (n + 1) past := by
  have hget := c.getElem?_append_site x.site
  have hnew : ∀ s ∈ c.sites, s.interpreter.jobIds.stem ≠ x.stem := fun s hs => (hx s hs).2
  refine ⟨?_, ?_, ?_, ?_, ?_, h.reducing⟩
  · intro j k s t hj hk hst
    rw [perform_join, hget] at hj hk
    by_cases hjn : j = c.sites.length
    · rw [if_pos hjn] at hj
      cases hj
      by_cases hkn : k = c.sites.length
      · rw [hjn, hkn]
      · rw [if_neg hkn] at hk
        exact absurd hst.symm (hnew t (List.mem_of_getElem? hk))
    · rw [if_neg hjn] at hj
      by_cases hkn : k = c.sites.length
      · rw [if_pos hkn] at hk
        cases hk
        exact absurd hst (hnew s (List.mem_of_getElem? hj))
      · rw [if_neg hkn] at hk
        exact h.distinct j k s t hj hk hst
  · intro k s hs
    rw [perform_join, hget] at hs
    split at hs
    · cases hs
      exact Nat.le_add_left 1 _
    · exact Nat.le_succ_of_le (h.seq k s hs)
  · intro k s₀ hs₀
    obtain ⟨s, hs, hlasts⟩ := h.lasts k s₀ hs₀
    refine ⟨s, ?_, hlasts⟩
    rw [perform_join, hget, if_neg, hs]
    exact Nat.ne_of_lt (List.getElem?_eq_some_iff.mp hs).1
  · intro k s hs job hjob
    rw [perform_join, hget] at hs
    split at hs
    · next hk =>
      rw [hk, h.nowhere _ (Nat.le_refl _)] at hjob
      cases hjob
    · exact h.issued k s hs job hjob
  · intro k hk
    rw [perform_join, List.length_append] at hk
    exact h.nowhere k (Nat.le_of_succ_le hk)

theorem task (h : Issues c₀ c n past) (hc : c.Sound n) (hn : n + 2 < 2 ^ 64) {k : Nat}
    {s : Site ν} (hs : c.sites[k]? = some s) (t : Task ν) :
    Issues c₀ (c.perform (.task k t)).2 (n + 1) (past ++ (c.perform (.task k t)).1) := by
  have he := Task.effect (hc.placed (by omega) hs) t
  have hlen := length_perform_task c k t
  have hseq := h.seq k s hs
  obtain ⟨hself, hle⟩ := lasts_of_effect he (hc.agrees k s hs).opened (by omega)
  rw [perform_task hs] at hlen ⊢
  dsimp only at hlen ⊢
  have hother : ∀ j, j ≠ k →
      issuedBy j (past ++ (t.perform k s c.mesh).1.map fun d => (k, d)) = issuedBy j past := by
    intro j hj
    rw [issuedBy_append, issuedBy, issuedBy, deedsAt_other (Ne.symm hj), List.filterMap_nil,
      List.append_nil]
  refine ⟨h.distinct.set hs hself.stem _, ?_, ?_, ?_, ?_, ?_⟩
  · intro j u hj
    rw [getElem?_set_site hs] at hj
    split at hj
    · cases hj
      omega
    · exact Nat.le_succ_of_le (h.seq j u hj)
  · intro j s₀ hs₀
    obtain ⟨u, hu, hlasts⟩ := h.lasts j s₀ hs₀
    rw [getElem?_set_site hs]
    by_cases hjk : j = k
    · rw [if_pos hjk]
      rw [hjk, hs] at hu
      cases hu
      exact ⟨_, rfl, hlasts.trans hself⟩
    · rw [if_neg hjk]
      exact ⟨u, hu, hlasts⟩
  · intro j u hj job hjob
    rw [getElem?_set_site hs] at hj
    by_cases hjk : j = k
    · subst hjk
      rw [if_pos rfl] at hj
      cases hj
      rw [hself.stem]
      obtain hjob | hjob := List.mem_append.mp (issuedBy_append .. ▸ hjob)
      · obtain ⟨i, hi, hlt, hge⟩ := h.issued j s hs job hjob
        exact ⟨i, hi, Nat.lt_of_lt_of_le hlt hself.seq, hge⟩
      · rw [issuedBy, deedsAt_self] at hjob
        obtain ⟨hi, hlt⟩ := issued_of_effect he (by omega) hjob
        refine ⟨_, hi, hlt, fun s₀ hs₀ => ?_⟩
        obtain ⟨u, hu, hlasts⟩ := h.lasts j s₀ hs₀
        cases hs.symm.trans hu
        exact hlasts.seq
    · rw [if_neg hjk] at hj
      rw [hother j hjk] at hjob
      exact h.issued j u hj job hjob
  · intro j hj
    rw [hlen] at hj
    have hlt := (List.getElem?_eq_some_iff.mp hs).1
    rw [hother j (by omega)]
    exact h.nowhere j hj
  · intro j m hm
    rw [issuedBy_append]
    obtain hm | hm := List.mem_append.mp (deedsAt_append .. ▸ hm)
    · exact List.mem_append_left _ (h.reducing j m hm)
    · refine List.mem_append_right _ ?_
      by_cases hjk : j = k
      · subst hjk
        rw [issuedBy, deedsAt_self]
        rw [deedsAt_self] at hm
        exact he.reducing hm
      · rw [deedsAt_other (Ne.symm hjk)] at hm
        cases hm

end Issues

theorem issues (hc : c.Sound n) {moves : List (Move ν)} (ho : c.Orderly moves)
    (hn : n + moves.length + 1 < 2 ^ 64) (h : Issues c₀ c n past) :
    Issues c₀ (c.run moves).2 (n + moves.length) (past ++ (c.run moves).1) :=
  (run_induction (Q := fun _ => True) (P := fun n c past => Issues c₀ c n past) Issues.mono
    (fun _ _ hx h => h.join hx) (fun _ hc hm hs h => h.task hc hm hs _)
    (fun _ _ => trivial) hc ho hn h).2

end Cluster

end PeerMesh
