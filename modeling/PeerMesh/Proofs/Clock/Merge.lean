import Mathlib.Data.List.Perm.Basic
import PeerMesh.Proofs.Clock

namespace PeerMesh.VersionVector

theorem toNat_max (a b : UInt64) : (max a b).toNat = max a.toNat b.toNat := by
  have hmax : max a b = if a ≤ b then b else a := rfl
  rw [hmax]
  split
  · next hle => exact (Nat.max_eq_right (UInt64.le_iff_toNat_le.mp hle)).symm
  · next hle =>
    have hlt := UInt64.lt_iff_toNat_lt.mp (UInt64.not_le.mp hle)
    exact (Nat.max_eq_left (Nat.le_of_lt hlt)).symm

theorem max_eq_or_eq (a b : UInt64) : max a b = a ∨ max a b = b := by
  have hmax : max a b = if a ≤ b then b else a := rfl
  rw [hmax]
  split
  · exact .inr rfl
  · exact .inl rfl

def raised (n : UInt64) (old? : Option UInt64) : Option UInt64 :=
  some (max n (old?.getD 0))

theorem raised_comm (m n : UInt64) (old? : Option UInt64) :
    raised m (raised n old?) = raised n (raised m old?) := by
  simp only [raised, Option.getD_some, Option.some.injEq, ← UInt64.toNat_inj, toNat_max]
  omega

theorem raised_self (n : UInt64) (old? : Option UInt64) :
    raised n (raised n old?) = raised n old? := by
  simp only [raised, Option.getD_some, Option.some.injEq, ← UInt64.toNat_inj, toNat_max]
  omega

theorem elim_raised (n : UInt64) (other? old? : Option UInt64) :
    (raised n other?).elim old? (raised · old?) =
      raised n (other?.elim old? (raised · old?)) := by
  cases other? with
  | none | some m =>
    simp only [raised, Option.elim_some, Option.elim_none, Option.getD_none, Option.getD_some,
      Option.some.injEq, ← UInt64.toNat_inj, toNat_max, UInt64.toNat_zero]
    omega

variable (c : VersionVector)

theorem entry_observe (t : Token) (k : String) :
    (c.observe t).entries.get? k =
      if k = t.origin.id then raised t.counter (c.entries.get? k) else c.entries.get? k := by
  rw [observe, Dict.get?_insert]
  split
  · next hk =>
    rw [hk]
    rfl
  · rfl

theorem eq_of_entries {c d : VersionVector} (howner : c.owner = d.owner)
    (h : ∀ k, c.entries.get? k = d.entries.get? k) : c = d := by
  have hentries := Dict.ext_get? h
  cases c
  cases d
  cases howner
  cases hentries
  rfl

theorem observe_comm (s t : Token) : (c.observe s).observe t = (c.observe t).observe s := by
  refine eq_of_entries rfl fun k => ?_
  simp only [entry_observe]
  by_cases hs : k = s.origin.id
  · by_cases ht : k = t.origin.id
    · rw [if_pos hs, if_pos ht, if_pos ht, if_pos hs, raised_comm]
    · rw [if_pos hs, if_neg ht, if_neg ht, if_pos hs]
  · rw [if_neg hs, if_neg hs]

theorem observe_self (t : Token) : (c.observe t).observe t = c.observe t := by
  refine eq_of_entries rfl fun k => ?_
  simp only [entry_observe]
  by_cases ht : k = t.origin.id
  · rw [if_pos ht, if_pos ht, raised_self]
  · rw [if_neg ht, if_neg ht]

def observeAll (c : VersionVector) (ts : List Token) : VersionVector :=
  ts.foldl observe c

theorem observeAll_append (ts us : List Token) :
    c.observeAll (ts ++ us) = (c.observeAll ts).observeAll us :=
  List.foldl_append

theorem owner_observeAll (ts : List Token) : (c.observeAll ts).owner = c.owner := by
  induction ts generalizing c with
  | nil => rfl
  | cons t ts ih => exact ih (c.observe t)

theorem observeAll_observe (ts : List Token) (t : Token) :
    (c.observeAll ts).observe t = (c.observe t).observeAll ts := by
  induction ts generalizing c with
  | nil => rfl
  | cons s ts ih =>
    show ((c.observe s).observeAll ts).observe t = ((c.observe t).observe s).observeAll ts
    rw [ih, observe_comm]

theorem observeAll_observe_of_mem {ts : List Token} {t : Token} (h : t ∈ ts) :
    (c.observeAll ts).observe t = c.observeAll ts := by
  obtain ⟨before, after, rfl⟩ := List.append_of_mem h
  rw [observeAll_append, observeAll_observe]
  exact congrArg (observeAll · after) (observe_self _ t)

theorem observeAll_of_subset {ts us : List Token} (h : us ⊆ ts) :
    (c.observeAll ts).observeAll us = c.observeAll ts := by
  induction us with
  | nil => rfl
  | cons u us ih =>
    obtain ⟨hu, hus⟩ := List.cons_subset.mp h
    show ((c.observeAll ts).observe u).observeAll us = _
    rw [c.observeAll_observe_of_mem hu, ih hus]

theorem observeAll_congr {ts us : List Token} (h : ∀ t, t ∈ ts ↔ t ∈ us) :
    c.observeAll ts = c.observeAll us := by
  have : RightCommutative observe := ⟨observe_comm⟩
  calc c.observeAll ts = (c.observeAll ts).observeAll us :=
        (c.observeAll_of_subset fun t ht => (h t).mpr ht).symm
    _ = c.observeAll (ts ++ us) := (c.observeAll_append ts us).symm
    _ = c.observeAll (us ++ ts) := List.perm_append_comm.foldl_eq c
    _ = (c.observeAll us).observeAll ts := c.observeAll_append us ts
    _ = c.observeAll us := c.observeAll_of_subset fun t ht => (h t).mp ht

def tokens (d : VersionVector) : List Token :=
  d.entries.fields.map fun f => ⟨⟨f.1⟩, f.2⟩

/-- Takes note of all that `d` has seen. -/
def absorb (c d : VersionVector) : VersionVector :=
  c.observeAll d.tokens

theorem entry_observeAll {fs : Fields UInt64} (h : fs.Ascending) (k : String) :
    (c.observeAll (fs.map fun f => ⟨⟨f.1⟩, f.2⟩)).entries.get? k =
      (fs.lookup k).elim (c.entries.get? k) (raised · (c.entries.get? k)) := by
  induction fs generalizing c with
  | nil => rfl
  | cons f fs ih =>
    obtain ⟨hf, hfs⟩ := List.pairwise_cons.mp h
    have htail := ih (c.observe ⟨⟨f.1⟩, f.2⟩) hfs
    rw [entry_observe] at htail
    rw [Fields.lookup_cons_eq_ite]
    refine htail.trans ?_
    by_cases hk : k = f.1
    · have hnone : fs.lookup k = none := by
        cases hl : fs.lookup k with
        | none => rfl
        | some n =>
          have hlt := hf (k, n) (Fields.mem_of_lookup hl)
          rw [hk] at hlt
          exact absurd hlt (String.lt_irrefl _)
      rw [if_pos hk, if_pos hk, hnone]
      rfl
    · rw [if_neg hk, if_neg hk]

theorem entry_absorb (d : VersionVector) (k : String) :
    (c.absorb d).entries.get? k =
      (d.entries.get? k).elim (c.entries.get? k) (raised · (c.entries.get? k)) :=
  c.entry_observeAll d.entries.ascending k

/-- A token counts the same whether it is observed before the vector is absorbed or after. -/
theorem absorb_observe (d : VersionVector) (t : Token) :
    c.absorb (d.observe t) = (c.absorb d).observe t := by
  refine eq_of_entries ?_ fun k => ?_
  · exact (c.owner_observeAll _).trans (c.owner_observeAll _).symm
  · rw [entry_absorb, entry_observe, entry_observe, entry_absorb]
    by_cases ht : k = t.origin.id
    · rw [if_pos ht, if_pos ht, elim_raised]
    · rw [if_neg ht, if_neg ht]

/-- The highest counter of an origin among the tokens, and zero if there is none. -/
def IsHighest (p : PeerId) (ts : List Token) (n : UInt64) : Prop :=
  (∀ t ∈ ts, t.origin = p → t.counter ≤ n) ∧
  (n = 0 ∨ ∃ t ∈ ts, t.origin = p ∧ t.counter = n)

theorem get_observe (t : Token) (p : PeerId) :
    (c.observe t).get p = if p = t.origin then max t.counter (c.get p) else c.get p :=
  c.get_commit t p

theorem get_le_observe (t : Token) (p : PeerId) : c.get p ≤ (c.observe t).get p := by
  rw [get_observe]
  split
  · rw [UInt64.le_iff_toNat_le, toNat_max]
    exact Nat.le_max_right _ _
  · exact UInt64.le_refl _

theorem get_le_observeAll (ts : List Token) (p : PeerId) :
    c.get p ≤ (c.observeAll ts).get p := by
  induction ts generalizing c with
  | nil => exact UInt64.le_refl _
  | cons t ts ih => exact UInt64.le_trans (c.get_le_observe t p) (ih (c.observe t))

theorem counter_le_get {ts : List Token} {t : Token} (h : t ∈ ts) :
    t.counter ≤ (c.observeAll ts).get t.origin := by
  rw [← c.observeAll_observe_of_mem h, get_observe, if_pos rfl, UInt64.le_iff_toNat_le, toNat_max]
  exact Nat.le_max_left _ _

theorem get_observeAll_cases (ts : List Token) (p : PeerId) :
    (c.observeAll ts).get p = c.get p ∨
    ∃ t ∈ ts, t.origin = p ∧ t.counter = (c.observeAll ts).get p := by
  induction ts generalizing c with
  | nil => exact .inl rfl
  | cons t ts ih =>
    obtain hsame | ⟨u, hu, hget⟩ := ih (c.observe t)
    · have hone : (c.observeAll (t :: ts)).get p =
          if p = t.origin then max t.counter (c.get p) else c.get p :=
        hsame.trans (c.get_observe t p)
      rw [hone]
      split
      · next hp =>
        obtain hmax | hmax := max_eq_or_eq t.counter (c.get p)
        · exact .inr ⟨t, List.mem_cons_self, hp.symm, hmax.symm⟩
        · exact .inl hmax
      · exact .inl rfl
    · exact .inr ⟨u, List.mem_cons_of_mem _ hu, hget⟩

theorem isHighest_observeAll (owner : PeerId) (ts : List Token) (p : PeerId) :
    IsHighest p ts (((ofOwner owner).observeAll ts).get p) := by
  refine ⟨fun t ht hp => ?_, (ofOwner owner).get_observeAll_cases ts p⟩
  rw [← hp]
  exact (ofOwner owner).counter_le_get ht

inductive Use
  | observe (t : Token)
  | commit (t : Token)
  | peek
  | increment

namespace Use

def perform : Use → VersionVector → VersionVector
  | observe t, c => c.observe t
  | commit t, c => c.commit t
  | peek, c => c
  | increment, c => c.increment.2

def noted? : Use → VersionVector → Option Token
  | observe t, _ => some t
  | commit t, _ => some t
  | peek, _ => none
  | increment, c => some c.increment.1

end Use

def after (c : VersionVector) (uses : List Use) : VersionVector :=
  uses.foldl (fun c u => u.perform c) c

/-- All tokens that are noted, in their order. -/
def noted (c : VersionVector) : List Use → List Token
  | [] => []
  | u :: uses => (u.noted? c).toList ++ noted (u.perform c) uses

theorem after_append (done rest : List Use) :
    c.after (done ++ rest) = (c.after done).after rest :=
  List.foldl_append

theorem perform_eq (u : Use) : u.perform c = c.observeAll (u.noted? c).toList := by
  cases u <;> rfl

theorem after_eq (uses : List Use) : c.after uses = c.observeAll (c.noted uses) := by
  induction uses generalizing c with
  | nil => rfl
  | cons u uses ih =>
    rw [noted, observeAll_append, ← perform_eq, ← ih]
    rfl

theorem owner_after (uses : List Use) : (c.after uses).owner = c.owner := by
  rw [after_eq, owner_observeAll]

theorem increment_token (h : (c.get c.owner).toNat + 1 < 2 ^ 64) :
    c.increment.1.origin = c.owner ∧
    c.increment.1.counter.toNat = (c.get c.owner).toNat + 1 := by
  refine ⟨rfl, ?_⟩
  show (c.get c.owner + 1).toNat = _
  rw [UInt64.toNat_add]
  exact Nat.mod_eq_of_lt h

/-- At every moment a version vector holds the highest counter of each origin that was noted, and
what was noted is all that it depends on. An increment goes one above its own entry. Observing is
taking a least upper bound. -/
theorem holds_highest (owner : PeerId) (uses : List Use) :
    (∀ done rest, uses = done ++ rest → ∀ p,
      let c := (ofOwner owner).after done
      IsHighest p ((ofOwner owner).noted done) (c.get p) ∧
      c.get p ≤ ((ofOwner owner).after uses).get p) ∧
    (∀ done rest, uses = done ++ .increment :: rest →
      let c := (ofOwner owner).after done
      (c.get owner).toNat + 1 < 2 ^ 64 →
        c.increment.1.origin = owner ∧
        c.increment.1.counter.toNat = (c.get owner).toNat + 1 ∧
        ∀ t ∈ (ofOwner owner).noted done, t.origin = owner →
          t.counter < c.increment.1.counter) ∧
    (∀ other, (∀ t, t ∈ (ofOwner owner).noted other ↔ t ∈ (ofOwner owner).noted uses) →
      (ofOwner owner).after other = (ofOwner owner).after uses) ∧
    ∀ (c d : VersionVector) (s t : Token),
      (c.observe s).observe t = (c.observe t).observe s ∧
      (c.absorb d).observe t = c.absorb (d.observe t) ∧
      (c.observe t).observe t = c.observe t := by
  have hhighest : ∀ done p,
      IsHighest p ((ofOwner owner).noted done) (((ofOwner owner).after done).get p) := by
    intro done p
    rw [after_eq]
    exact isHighest_observeAll owner _ p
  refine ⟨?_, ?_, fun other hnoted => ?_, fun c d s t => ?_⟩
  · rintro done rest rfl p
    refine ⟨hhighest done p, ?_⟩
    rw [after_append, after_eq _ rest]
    exact get_le_observeAll _ _ p
  · rintro done rest rfl c hlimit
    have howner : c.owner = owner := (ofOwner owner).owner_after done
    obtain ⟨horigin, hcounter⟩ := c.increment_token (by rwa [howner])
    rw [howner] at horigin hcounter
    refine ⟨horigin, hcounter, fun t ht hp => ?_⟩
    have hle := UInt64.le_iff_toNat_le.mp ((hhighest done owner).1 t ht hp)
    rw [UInt64.lt_iff_toNat_lt, hcounter]
    exact Nat.lt_succ_of_le hle
  · rw [after_eq, after_eq]
    exact observeAll_congr _ hnoted
  · exact ⟨c.observe_comm s t, (c.absorb_observe d t).symm, c.observe_self t⟩

def mixture : List Use :=
  [.observe ⟨⟨"a"⟩, 5⟩, .increment, .peek, .observe ⟨⟨"b"⟩, 18446744073709551615⟩,
    .commit ⟨⟨"a"⟩, 2⟩, .observe ⟨⟨"b"⟩, 7⟩, .increment]

def shuffled : List Use :=
  [.observe ⟨⟨"a"⟩, 7⟩, .observe ⟨⟨"b"⟩, 7⟩, .commit ⟨⟨"a"⟩, 6⟩, .observe ⟨⟨"b"⟩, 7⟩,
    .observe ⟨⟨"a"⟩, 2⟩, .commit ⟨⟨"b"⟩, 18446744073709551615⟩, .observe ⟨⟨"a"⟩, 5⟩]

theorem holds_highest_mixture :
    let a := ofOwner ⟨"a"⟩
    a.noted mixture = [⟨⟨"a"⟩, 5⟩, ⟨⟨"a"⟩, 6⟩, ⟨⟨"b"⟩, 18446744073709551615⟩, ⟨⟨"a"⟩, 2⟩,
      ⟨⟨"b"⟩, 7⟩, ⟨⟨"a"⟩, 7⟩] ∧
    IsHighest ⟨"b"⟩ (a.noted mixture) 18446744073709551615 ∧
    (a.after (mixture.take 6)).increment.1.counter.toNat = 6 + 1 ∧
    a.after shuffled = a.after mixture := by
  intro a
  obtain ⟨hhighest, hincrement, hsame, -⟩ := holds_highest ⟨"a"⟩ mixture
  obtain ⟨-, hcounter, -⟩ := hincrement (mixture.take 6) [] rfl (by decide +kernel)
  have hb : (a.after mixture).get ⟨"b"⟩ = 18446744073709551615 := by decide +kernel
  have hsix : ((a.after (mixture.take 6)).get ⟨"a"⟩).toNat = 6 := by decide +kernel
  have hfrom : a.noted mixture ⊆ a.noted shuffled := by decide +kernel
  have hto : a.noted shuffled ⊆ a.noted mixture := by decide +kernel
  refine ⟨by decide +kernel, ?_, hcounter.trans (congrArg (· + 1) hsix),
    hsame shuffled fun t => ⟨(hto ·), (hfrom ·)⟩⟩
  rw [← hb]
  exact (hhighest mixture [] rfl ⟨"b"⟩).1

end PeerMesh.VersionVector
