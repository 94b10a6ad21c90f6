import PeerMesh.Proofs.Cluster.Sound

namespace PeerMesh

variable {ν : Type}

namespace Cluster

variable {c : Cluster ν} {n : Nat}

def newcomers (moves : List (Move ν)) : List Newcomer :=
  moves.filterMap fun m =>
    match m with
    | .join x => some x
    | _ => none

/-- Every peer joins once, with a stem of its own, and stays. -/
structure Orderly (c : Cluster ν) (moves : List (Move ν)) : Prop where
  peers : (c.sites.map (fun s => s.interpreter.peer) ++
    (newcomers moves).map Newcomer.peer).Nodup
  stems : (c.sites.map (fun s => s.interpreter.jobIds.stem) ++
    (newcomers moves).map Newcomer.stem).Nodup
  stays : ∀ p, .leave p ∉ moves

namespace Orderly

variable {x : Newcomer} {k : Nat} {t : Task ν} {moves : List (Move ν)}

theorem fresh (h : c.Orderly (.join x :: moves)) : c.Fresh x := by
  intro s hs
  have hpeers := (List.nodup_append.mp h.peers).2.2
  have hstems := (List.nodup_append.mp h.stems).2.2
  exact ⟨hpeers _ (List.mem_map_of_mem hs) _ List.mem_cons_self,
    hstems _ (List.mem_map_of_mem hs) _ List.mem_cons_self⟩

theorem join (h : c.Orderly (.join x :: moves)) :
    (c.perform (.join x)).2.Orderly moves := by
  refine ⟨?_, ?_, fun p hp => h.stays p (List.mem_cons_of_mem _ hp)⟩
  · have hp := h.peers
    rw [perform_join]
    dsimp only
    rw [List.map_append, List.append_assoc]
    exact hp
  · have hs := h.stems
    rw [perform_join]
    dsimp only
    rw [List.map_append, List.append_assoc]
    exact hs

theorem task (h : c.Orderly (.task k t :: moves)) (hc : c.Sound n) (hn : n + 1 < 2 ^ 64) :
    (c.perform (.task k t)).2.Orderly moves := by
  cases hs : c.sites[k]? with
  | none =>
    rw [perform_task_none hs]
    exact ⟨h.peers, h.stems, fun p hp => h.stays p (List.mem_cons_of_mem _ hp)⟩
  | some s =>
    have he := Task.effect (hc.placed hn hs) t
    obtain ⟨hpeer, -, hstem, -⟩ := he.frame (hc.agrees k s hs).opened
    have hsame : ∀ {α : Type} (f : Site ν → α), f (t.perform k s c.mesh).2.1 = f s →
        (c.sites.set k (t.perform k s c.mesh).2.1).map f = c.sites.map f := by
      intro α f hf
      apply List.ext_getElem?
      intro j
      rw [List.getElem?_map, List.getElem?_map, getElem?_set_site hs]
      split
      · next hj => rw [hj, hs, Option.map_some, Option.map_some, hf]
      · rfl
    rw [perform_task hs]
    refine ⟨?_, ?_, fun p hp => h.stays p (List.mem_cons_of_mem _ hp)⟩
    · dsimp only
      rw [hsame _ hpeer]
      exact h.peers
    · dsimp only
      rw [hsame _ hstem]
      exact h.stems

theorem left {more : List (Move ν)} (h : c.Orderly (moves ++ more)) : c.Orderly moves := by
  have hp := h.peers
  have hs := h.stems
  rw [newcomers, List.filterMap_append, List.map_append, ← List.append_assoc] at hp hs
  exact ⟨(List.nodup_append.mp hp).1, (List.nodup_append.mp hs).1,
    fun p hp => h.stays p (List.mem_append_left _ hp)⟩

end Orderly

/-- What joins and tasks preserve, a run in which nobody leaves does. -/
theorem run_induction {Q : Move ν → Prop} {P : Nat → Cluster ν → Trace ν → Prop}
    (hidle : ∀ {m c past}, P m c past → P (m + 1) c past)
    (hjoin : ∀ {m c past} (x : Newcomer), c.Sound m → c.Fresh x → P m c past →
      P (m + 1) (c.perform (.join x)).2 past)
    (htask : ∀ {m c past} {k : Nat} {s : Site ν} {t : Task ν}, Q (.task k t) → c.Sound m →
      m + 2 < 2 ^ 64 → c.sites[k]? = some s → P m c past →
      P (m + 1) (c.perform (.task k t)).2 (past ++ (c.perform (.task k t)).1))
    {moves : List (Move ν)} (hQ : ∀ m ∈ moves, Q m) {d : Trace ν} (hc : c.Sound n)
    (ho : c.Orderly moves) (hn : n + moves.length + 1 < 2 ^ 64) (hP : P n c d) :
    (c.run moves).2.Sound (n + moves.length) ∧
      P (n + moves.length) (c.run moves).2 (d ++ (c.run moves).1) := by
  induction moves generalizing c n d with
  | nil => exact ⟨hc, (List.append_nil d).symm ▸ hP⟩
  | cons m moves ih =>
    have hlen : n + (m :: moves).length = n + 1 + moves.length := by
      rw [List.length_cons]
      omega
    have hQ' : ∀ m ∈ moves, Q m := fun m' hm' => hQ m' (List.mem_cons_of_mem _ hm')
    rw [hlen] at hn ⊢
    rw [run]
    dsimp only
    rw [← List.append_assoc]
    cases m with
    | leave p => exact absurd List.mem_cons_self (ho.stays p)
    | join x =>
      have hnil : (c.perform (.join x)).1 = [] := rfl
      rw [hnil, List.append_nil]
      exact ih hQ' (hc.join ho.fresh) ho.join hn (hjoin x hc ho.fresh hP)
    | task k t =>
      have hlt : n + 1 < 2 ^ 64 := by omega
      have hlt' : n + 2 < 2 ^ 64 := by omega
      have ho' := ho.task hc hlt
      cases hs : c.sites[k]? with
      | none =>
        rw [perform_task_none hs] at ho' ⊢
        rw [List.append_nil]
        exact ih hQ' hc.mono ho' hn (hidle hP)
      | some s =>
        exact ih hQ' (hc.task hlt hs t) ho' hn
          (htask (hQ _ List.mem_cons_self) hc hlt' hs hP)

theorem Sound.run {moves : List (Move ν)} (hc : c.Sound n) (ho : c.Orderly moves)
    (hn : n + moves.length + 1 < 2 ^ 64) : (c.run moves).2.Sound (n + moves.length) :=
  (run_induction (Q := fun _ => True) (P := fun _ _ _ => True) (d := []) (fun _ => trivial)
    (fun _ _ _ _ => trivial) (fun _ _ _ _ _ => trivial) (fun _ _ => trivial) hc ho hn trivial).1

theorem Orderly.run {moves more : List (Move ν)} (h : c.Orderly (moves ++ more)) (hc : c.Sound n)
    (hn : n + moves.length + 1 < 2 ^ 64) : (c.run moves).2.Orderly more := by
  induction moves generalizing c n with
  | nil => exact h
  | cons m moves ih =>
    rw [List.length_cons] at hn
    rw [List.cons_append] at h
    have hlt : n + 1 < 2 ^ 64 := by omega
    rw [Cluster.run]
    dsimp only
    cases m with
    | leave p => exact absurd List.mem_cons_self (h.stays p)
    | join x => exact ih h.join (hc.join h.fresh) (by omega)
    | task k t =>
      have h' := h.task hc hlt
      cases hs : c.sites[k]? with
      | none =>
        rw [perform_task_none hs] at h' ⊢
        exact ih h' hc.mono (by omega)
      | some s => exact ih h' (hc.task hlt hs t) (by omega)

end Cluster

end PeerMesh
