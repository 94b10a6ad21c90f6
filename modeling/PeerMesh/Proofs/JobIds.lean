import PeerMesh.Basic
import PeerMesh.Proofs.Decimal

namespace PeerMesh

/-- The stem and the number of an identifier, which is cut at its last separator. -/
def JobId.parts? (j : JobId) : Option (String × Nat) :=
  let chars := j.id.toList.reverse
  match chars.dropWhile (· ≠ '-') with
  | [] => none
  | _ :: stem =>
    some (String.ofList stem.reverse,
      Nat.ofDigitChars 10 (chars.takeWhile (· ≠ '-')).reverse 0)

namespace JobIds

def nth (stem : String) (n : Nat) : JobId :=
  ⟨stem ++ "-" ++ toString n⟩

theorem separator_not_mem (n : Nat) : '-' ∉ Nat.toDigits 10 n := by
  intro h
  have hdigit := isDigit_toDigits h
  revert hdigit
  decide

theorem toList_nth (stem : String) (n : Nat) :
    (nth stem n).id.toList = stem.toList ++ '-' :: Nat.toDigits 10 n := by
  simp [nth, Nat.repr]

/-- Digits are no separators, so the number is what stands behind the last one, whatever there is
in the stem. -/
theorem parts?_nth (stem : String) (n : Nat) : (nth stem n).parts? = some (stem, n) := by
  have hdigits : ∀ c ∈ (Nat.toDigits 10 n).reverse, decide (c ≠ '-') = true := by
    intro c hc
    rw [List.mem_reverse] at hc
    exact decide_eq_true fun he => separator_not_mem n (he ▸ hc)
  have hchars : (nth stem n).id.toList.reverse =
      (Nat.toDigits 10 n).reverse ++ '-' :: stem.toList.reverse := by
    simp [toList_nth]
  simp only [JobId.parts?, hchars]
  rw [List.takeWhile_append_of_pos hdigits, List.dropWhile_append_of_pos hdigits]
  simp

theorem nth_injective {s t : String} {n m : Nat} (h : nth s n = nth t m) : s = t ∧ n = m := by
  have hparts := congrArg JobId.parts? h
  simpa only [parts?_nth, Option.some.injEq, Prod.mk.injEq] using hparts

theorem seq_next {g : JobIds} (h : g.seq.toNat + 1 < 2 ^ 64) :
    g.next.2.seq.toNat = g.seq.toNat + 1 := by
  have hadd : g.next.2.seq.toNat = (g.seq.toNat + 1) % 2 ^ 64 := UInt64.toNat_add ..
  rw [hadd, Nat.mod_eq_of_lt h]

theorem take_eq_map (g : JobIds) {n : Nat} (hn : g.seq.toNat + n ≤ 2 ^ 64) :
    g.take n = (List.range' g.seq.toNat n).map (nth g.stem) := by
  induction n generalizing g with
  | zero => rfl
  | succ n ih =>
    rw [take, List.range'_succ, List.map_cons]
    refine congrArg (nth g.stem g.seq.toNat :: ·) ?_
    cases n with
    | zero => rfl
    | succ n =>
      have hnext : g.next.2.seq.toNat = g.seq.toNat + 1 := seq_next (by omega)
      have hrest := ih g.next.2 (by omega)
      rw [hnext] at hrest
      exact hrest

theorem take_ofStem (stem : String) {n : Nat} (hn : n < 2 ^ 64) :
    (ofStem stem).take n = (List.range' 1 n).map (nth stem) :=
  have hone : (ofStem stem).seq.toNat = 1 := rfl
  (ofStem stem).take_eq_map (by omega)

def drop (g : JobIds) (n : Nat) : JobIds :=
  { g with seq := g.seq + UInt64.ofNat n }

theorem drop_drop (g : JobIds) (m n : Nat) : (g.drop m).drop n = g.drop (m + n) := by
  simp [drop, UInt64.ofNat_add, UInt64.add_assoc]

theorem take_add (g : JobIds) (m n : Nat) : g.take (m + n) = g.take m ++ (g.drop m).take n := by
  induction m generalizing g with
  | zero => simp [take, drop]
  | succ m ih =>
    have hdrop : g.next.2.drop m = g.drop (m + 1) := by
      rw [Nat.add_comm m 1, ← drop_drop]
      rfl
    rw [Nat.succ_add, take, take, ih, hdrop, List.cons_append]

theorem mem_take {g : JobIds} {n : Nat} {j : JobId} (h : j ∈ g.take n) :
    ∃ k < n, j = nth g.stem (g.drop k).seq.toNat := by
  induction n with
  | zero => cases h
  | succ n ih =>
    rw [take_add, List.mem_append] at h
    obtain h | h := h
    · obtain ⟨k, hk, hj⟩ := ih h
      exact ⟨k, Nat.lt_succ_of_lt hk, hj⟩
    · exact ⟨n, Nat.lt_succ_self n, List.mem_singleton.mp h⟩

theorem nodup_take (g : JobIds) {n : Nat} (hn : n ≤ 2 ^ 64) : (g.take n).Nodup := by
  induction n with
  | zero => exact .nil
  | succ n ih =>
    rw [take_add]
    refine List.nodup_append.mpr ⟨ih (by omega), List.pairwise_singleton _ _, ?_⟩
    rintro j hj last hlast rfl
    obtain ⟨k, hk, rfl⟩ := mem_take hj
    have hnth := (nth_injective (List.mem_singleton.mp hlast)).2
    have hseq : g.seq + UInt64.ofNat k = g.seq + UInt64.ofNat n := UInt64.toNat_inj.mp hnth
    have hk' := congrArg UInt64.toNat ((UInt64.add_right_inj g.seq).mp hseq)
    have hnlt : (UInt64.ofNat n).toNat = n := UInt64.toNat_ofNat_of_lt' hn
    have hklt : (UInt64.ofNat k).toNat = k := UInt64.toNat_ofNat_of_lt' (hk.trans hn)
    omega

/-- Of what a generator makes before its numbers start again, each identifier gives back the stem
and its own number. So it makes none of them twice, and generators with other stems make none of
them, be one stem the beginning of the other or not. -/
theorem recoverable (s t : String) {n m : Nat} (hn : n < 2 ^ 64) (hm : m < 2 ^ 64) :
    ((ofStem s).take n).map JobId.parts? = (List.range' 1 n).map (fun k => some (s, k)) ∧
    ((ofStem s).take n).Nodup ∧
    (s ≠ t → ∀ j ∈ (ofStem s).take n, j ∉ (ofStem t).take m) := by
  rw [take_ofStem s hn, take_ofStem t hm]
  refine ⟨?_, ?_, fun hst j hj hj' => ?_⟩
  · simp [parts?_nth]
  · rw [← take_ofStem s hn]
    exact (ofStem s).nodup_take hn.le
  · obtain ⟨k, -, rfl⟩ := List.mem_map.mp hj
    obtain ⟨l, -, he⟩ := List.mem_map.mp hj'
    exact hst (nth_injective he).1.symm

/-- The eleventh identifier of `a` and the first one of `a-1` differ by a separator only. -/
theorem recoverable_prefix :
    (ofStem "a").take 11 = ((ofStem "a").take 10).concat ⟨"a-11"⟩ ∧
    (ofStem "a-1").take 1 = [⟨"a-1-1"⟩] ∧
    ((ofStem "a-1").take 1).map JobId.parts? = [some ("a-1", 1)] ∧
    ∀ j ∈ (ofStem "a").take 11, j ∉ (ofStem "a-1").take 1 := by
  obtain ⟨-, -, hapart⟩ := recoverable "a" "a-1" (n := 11) (m := 1) (by decide) (by decide)
  obtain ⟨hparts, -⟩ := recoverable "a-1" "a" (n := 1) (m := 11) (by decide) (by decide)
  exact ⟨by decide +kernel, by decide +kernel, hparts, hapart (by decide)⟩

end JobIds

end PeerMesh
