import PeerMesh.Proofs.Events.Chronicle

namespace PeerMesh

variable {ν : Type}

theorem live_append (past : List (Happening ν)) (x : Happening ν) :
    live (past ++ [x]) = x.update (live past) := by
  rw [live, List.foldl_append]
  rfl

def liveIds (past : List (Happening ν)) : List Nat :=
  (live past).map (·.1)

theorem callsOf_append (n : Nat) (log more : List (Happening ν)) :
    callsOf n (log ++ more) = callsOf n log ++ callsOf n more :=
  List.filterMap_append

theorem callsOf_eq_nil {n : Nat} {log : List (Happening ν)}
    (h : ∀ id e, .called n id e ∉ log) : callsOf n log = [] := by
  refine List.filterMap_eq_nil_iff.mpr fun x hx => ?_
  cases x with
  | called m id e =>
    refine if_neg ?_
    rintro rfl
    exact h id e hx
  | subscribed | ended | detached | counted | began | noted | finished | refused => rfl

theorem detached_of_concat {past : List (Happening ν)} {x : Happening ν} {id : Nat}
    (h : .detached id ∈ past ++ [x]) (hx : x ≠ .detached id) : .detached id ∈ past := by
  obtain h | h := List.mem_append.mp h
  · exact h
  · exact absurd (List.mem_singleton.mp h).symm hx

namespace Happening

/-- What has to hold of the past for this to happen next. -/
def Follows (depth : Nat) (past : List (Happening ν)) : Happening ν → Prop
  | subscribed id _ => ∀ s ∈ live past, s.1 < id
  | ended id => .detached id ∉ past
  | detached id => id ∈ liveIds past
  | counted n => n = (live past).length
  | refused _ => Nested depth past
  | _ => True

def isPlain : Happening ν → Bool
  | began _ => false
  | called .. => false
  | finished _ => false
  | _ => true

theorem isBegan_of_isPlain {x : Happening ν} (h : x.isPlain) : x.isBegan = false := by
  cases x with
  | began => cases h
  | subscribed | ended | detached | counted | called | noted | finished | refused => rfl

end Happening

/-- One happening follows the other, and all of them follow `past`. -/
def Unfolds (depth : Nat) (past : List (Happening ν)) : List (Happening ν) → Prop
  | [] => True
  | x :: rest => x.Follows depth past ∧ Unfolds depth (past ++ [x]) rest

theorem unfolds_append {depth : Nat} {past new more : List (Happening ν)} :
    Unfolds depth past (new ++ more) ↔
      Unfolds depth past new ∧ Unfolds depth (past ++ new) more := by
  induction new generalizing past with
  | nil => simp [Unfolds]
  | cons x new ih =>
    rw [List.cons_append, Unfolds, Unfolds, ih, List.append_assoc, List.singleton_append, and_assoc]

/-- Each emission that begins in `new` makes the calls that are due, and no others. -/
def Complete (past new : List (Happening ν)) : Prop :=
  ∀ before e after, new = before ++ .began e :: after →
    callsOf (past.length + before.length) after =
      (addressees (past ++ before) e.kind).map fun id => (id, e)

theorem Complete.append {own : Option Nat} {past new more : List (Happening ν)}
    (h : Complete past new) (hmore : Complete (past ++ new) more)
    (hown : ∀ n ∈ own, n < past.length)
    (hcalls : ∀ n id e, .called n id e ∈ more → n ∈ own ∨ (past ++ new).length ≤ n) :
    Complete past (new ++ more) := by
  intro before e after heq
  obtain ⟨mid, hbefore, hafter⟩ | ⟨mid, hnew, hmid⟩ := List.append_eq_append_iff.mp heq
  · have hm := hmore mid e after hafter
    rw [List.length_append, Nat.add_assoc, ← List.length_append, List.append_assoc,
      ← hbefore] at hm
    exact hm
  · cases mid with
    | nil =>
      rw [List.append_nil] at hnew
      subst hnew
      have hm := hmore [] e after hmid.symm
      rw [List.append_nil, List.length_nil, Nat.add_zero, List.length_append] at hm
      exact hm
    | cons x mid =>
      rw [List.cons_append] at hmid
      obtain ⟨rfl, rfl⟩ := List.cons.inj hmid
      have hnone : callsOf (past.length + before.length) more = [] := by
        refine callsOf_eq_nil fun id e' hmem => ?_
        obtain hmem | hle := hcalls _ id e' hmem
        · have hlt := hown _ hmem
          omega
        · rw [List.length_append, hnew, List.length_append, List.length_cons] at hle
          omega
      rw [callsOf_append, hnone, List.append_nil]
      exact h before e mid hnew

theorem Complete.single (past : List (Happening ν)) {x : Happening ν} (hx : x.isBegan = false) :
    Complete past [x] := by
  intro before e after heq
  have hmem : .began e ∈ [x] := heq ▸ List.mem_append_right _ List.mem_cons_self
  cases List.mem_singleton.mp hmem
  cases hx

theorem Complete.emission {past new : List (Happening ν)} {e : Event}
    (h : Complete (past ++ [.began e]) new)
    (hcalls : callsOf past.length new = (addressees past e.kind).map fun id => (id, e)) :
    Complete past (.began e :: new) := by
  intro before e' after heq
  cases before with
  | nil =>
    obtain ⟨he, rfl⟩ := List.cons.inj heq
    cases he
    rw [List.append_nil]
    exact hcalls
  | cons x before =>
    obtain ⟨rfl, hnew⟩ := List.cons.inj heq
    have hm := h before e' after hnew
    rw [List.length_append, List.append_assoc, Nat.add_assoc] at hm
    rw [List.length_cons, Nat.add_comm before.length]
    exact hm

namespace Unfolds

variable {depth : Nat} {past new : List (Happening ν)}

theorem follows {x : Happening ν} {after : List (Happening ν)}
    (h : Unfolds depth [] (past ++ x :: after)) : x.Follows depth past :=
  (unfolds_append.mp h).2.1

theorem ascending (h : Unfolds depth past new) (hlive : (live past).Pairwise fun s t => s.1 < t.1) :
    (live (past ++ new)).Pairwise fun s t => s.1 < t.1 := by
  induction new generalizing past with
  | nil =>
    rw [List.append_nil]
    exact hlive
  | cons x new ih =>
    obtain ⟨hx, hnew⟩ := h
    rw [List.append_cons]
    refine ih hnew ?_
    rw [live_append]
    cases x with
    | subscribed id kind =>
      refine List.pairwise_append.mpr ⟨hlive, List.pairwise_singleton .., fun s hs t ht => ?_⟩
      cases List.mem_singleton.mp ht
      exact hx s hs
    | ended id => exact hlive.filter _
    | detached | counted | began | called | noted | finished | refused => exact hlive

/-- A subscription that was detached does not end. -/
theorem stays (h : Unfolds depth past new) {id : Nat} (hdetached : .detached id ∈ past)
    (hlive : id ∈ liveIds past) : id ∈ liveIds (past ++ new) := by
  induction new generalizing past with
  | nil =>
    rw [List.append_nil]
    exact hlive
  | cons x new ih =>
    obtain ⟨hx, hnew⟩ := h
    rw [List.append_cons]
    refine ih hnew (List.mem_append_left _ hdetached) ?_
    obtain ⟨s, hs, rfl⟩ := List.mem_map.mp hlive
    refine List.mem_map_of_mem ?_
    rw [live_append]
    cases x with
    | subscribed id kind => exact List.mem_append_left _ hs
    | ended id =>
      refine List.mem_filter.mpr ⟨hs, decide_eq_true ?_⟩
      rintro rfl
      exact hx hdetached
    | detached | counted | began | called | noted | finished | refused => exact hs

end Unfolds

end PeerMesh
