import Mathlib.Tactic.NormNum
import Mathlib.Tactic.Ring
import PeerMesh.Binary64
import PeerMesh.Proofs.Decimal

namespace PeerMesh

namespace Decimal

theorem ofNat_spec {m : Nat} (hm : 0 < m) (e : Int) :
    ∃ k : Nat, (ofNat m e).exponent = e + k ∧ (ofNat m e).significand * 10 ^ k = m ∧
      (ofNat m e).point = (Nat.toDigits 10 m).length + e ∧ (ofNat m e).digits ≠ [] := by
  obtain ⟨a, core, b, hds, h, hn⟩ := exists_normal (Nat.toDigits 10 m) e
  have hvalue : Nat.ofDigitChars 10 core 0 * 10 ^ b = m := by
    rw [← Nat.ofDigitChars_ten_toDigits (n := m), hds, Nat.ofDigitChars_append,
      Nat.ofDigitChars_replicate_zero, Nat.mul_zero, Nat.ofDigitChars_append,
      Nat.ofDigitChars_replicate_zero, Nat.mul_comm]
  have hne : core ≠ [] := by
    rintro rfl
    simp at hvalue
    omega
  have ha : a = 0 := by
    cases a with
    | zero => rfl
    | succ a =>
      have hzero : (Nat.toDigits 10 m).head? = some '0' := by rw [hds]; rfl
      obtain hone | ⟨-, hhead⟩ := toDigits_leading m
      · rw [hone, List.replicate_succ, List.cons_append] at hds
        have hnil := List.append_eq_nil_iff.mp (List.cons.inj hds).2.symm
        exact absurd (List.append_eq_nil_iff.mp hnil.2).1 hne
      · exact absurd rfl (hhead '0' hzero)
  have hlen := congrArg List.length hds
  simp only [ha, List.replicate_zero, List.nil_append, List.length_append,
    List.length_replicate] at hlen
  have hofNat : ofNat m e = ⟨core, e + b⟩ := by rw [ofNat, hn, if_neg hne]
  refine ⟨b, by rw [hofNat], by rw [hofNat]; exact hvalue, ?_, by rw [hofNat]; exact hne⟩
  rw [hofNat, hlen, point]
  push_cast
  ring

theorem ofNat_zero : ofNat 0 0 = ⟨[], 0⟩ := by
  rw [ofNat, Nat.toDigits_zero]
  exact normal_zeros 1 0 0

theorem magnitude?_zero : magnitude? ⟨[], 0⟩ = some 0 := by
  rw [magnitude?, if_pos rfl]

theorem isDigit_ofNat {m : Nat} {e : Int} : ∀ c ∈ (ofNat m e).digits, c.isDigit :=
  fun _ h => isDigit_toDigits (mem_of_mem_normal h)

end Decimal

namespace Binary64

theorem roundQuotient_mul (q : Nat) {b : Nat} (hb : 0 < b) : roundQuotient .even (q * b) b = q := by
  simp [roundQuotient, hb]

theorem units_of_lt {n : Nat} (h : n < 2 ^ 52) : units n = n := by
  rw [units, Nat.one_shiftLeft, if_pos h]

theorem units_of_le {n : Nat} (h : 2 ^ 52 ≤ n) :
    units n = (2 ^ 52 + n % 2 ^ 52) * 2 ^ (n / 2 ^ 52 - 1) := by
  rw [units, Nat.one_shiftLeft, if_neg (by omega), Nat.shiftLeft_eq, Nat.shiftRight_eq_div_pow]

theorem units_pos {n : Nat} (h : 0 < n) : 0 < units n := by
  by_cases hn : n < 2 ^ 52
  · rwa [units_of_lt hn]
  · rw [units_of_le (by omega)]
    positivity

theorem log2_units_of_le {n : Nat} (h : 2 ^ 52 ≤ n) :
    (units n).log2 = 52 + (n / 2 ^ 52 - 1) := by
  have hr : n % 2 ^ 52 < 2 ^ 52 := Nat.mod_lt _ (by positivity)
  rw [Nat.log2_eq_iff (units_pos (by omega)).ne', units_of_le h]
  constructor
  · rw [pow_add]
    exact Nat.mul_le_mul_right _ (by omega)
  · rw [show 52 + (n / 2 ^ 52 - 1) + 1 = 53 + (n / 2 ^ 52 - 1) by omega, pow_add]
    exact Nat.mul_lt_mul_of_pos_right (by omega) (by positivity)

/-- Rounding is exact on what is a pattern's value. -/
theorem nearest_units (n : Nat) {b : Nat} (hb : 0 < b) : nearest (units n * b) b = n := by
  have hq : units n * b / b = units n := Nat.mul_div_cancel _ hb
  unfold nearest
  simp only [hq, Nat.shiftLeft_eq]
  by_cases hn : n < 2 ^ 52
  · have hlog : (units n).log2 - 52 = 0 := by
      rw [units_of_lt hn]
      by_cases hz : n = 0
      · simp [hz]
      · have := (Nat.log2_lt hz).mpr hn
        omega
    rw [hlog, pow_zero, Nat.mul_one, roundQuotient_mul _ hb, units_of_lt hn]
    omega
  · have hle : 2 ^ 52 ≤ n := by omega
    have hscale : (units n).log2 - 52 = n / 2 ^ 52 - 1 := by
      rw [log2_units_of_le hle]
      omega
    have hmul : units n * b = (2 ^ 52 + n % 2 ^ 52) * (b * 2 ^ (n / 2 ^ 52 - 1)) := by
      rw [units_of_le hle]
      ring
    rw [hscale, hmul, roundQuotient_mul _ (by positivity)]
    omega

theorem units_lt {n : Nat} (h : n < infinity) : units n < 2 ^ 2098 := by
  have hi : infinity = 2047 * 2 ^ 52 := by rw [infinity, Nat.shiftLeft_eq]
  by_cases hn : n < 2 ^ 52
  · rw [units_of_lt hn]
    exact hn.trans (Nat.pow_lt_pow_right one_lt_two (by norm_num))
  · have hr : n % 2 ^ 52 < 2 ^ 52 := Nat.mod_lt _ (by positivity)
    have he : n / 2 ^ 52 - 1 ≤ 2045 := by omega
    rw [units_of_le (by omega)]
    calc (2 ^ 52 + n % 2 ^ 52) * 2 ^ (n / 2 ^ 52 - 1)
        < 2 ^ 53 * 2 ^ (n / 2 ^ 52 - 1) := Nat.mul_lt_mul_of_pos_right (by omega) (by positivity)
      _ ≤ 2 ^ 53 * 2 ^ 2045 := Nat.mul_le_mul_left _ (Nat.pow_le_pow_right (by decide) he)
      _ = 2 ^ 2098 := by rw [← pow_add]

theorem two_pow_744_le : 2 ^ 744 ≤ 5 ^ 330 := by
  have h : (2 ^ 124) ^ 6 ≤ (5 ^ 55) ^ 6 := Nat.pow_le_pow_left (by norm_num) 6
  rwa [← pow_mul, ← pow_mul] at h

theorem two_pow_714_le : 2 ^ 714 ≤ 5 ^ 310 := by
  have h : (2 ^ 143) ^ 5 ≤ (5 ^ 62) ^ 5 := Nat.pow_le_pow_left (by norm_num) 5
  rw [← pow_mul, ← pow_mul] at h
  exact (Nat.pow_le_pow_right two_pos (by norm_num)).trans h

theorem units_exact_low {n : Nat} (h : 0 < n) : 10 ^ 744 ≤ units n * 5 ^ 1074 := by
  calc 10 ^ 744 = 2 ^ 744 * 5 ^ 744 := by rw [← Nat.mul_pow]
    _ ≤ 5 ^ 330 * 5 ^ 744 := Nat.mul_le_mul_right _ two_pow_744_le
    _ = 1 * 5 ^ 1074 := by rw [← pow_add, Nat.one_mul]
    _ ≤ units n * 5 ^ 1074 := Nat.mul_le_mul_right _ (units_pos h)

theorem units_exact_high {n : Nat} (h : n < infinity) : units n * 5 ^ 1074 < 10 ^ 1384 := by
  calc units n * 5 ^ 1074 < 2 ^ 2098 * 5 ^ 1074 :=
        Nat.mul_lt_mul_of_pos_right (units_lt h) (by positivity)
    _ = 2 ^ 1384 * (2 ^ 714 * 5 ^ 1074) := by rw [← Nat.mul_assoc, ← pow_add]
    _ ≤ 2 ^ 1384 * (5 ^ 310 * 5 ^ 1074) :=
        Nat.mul_le_mul_left _ (Nat.mul_le_mul_right _ two_pow_714_le)
    _ = 10 ^ 1384 := by rw [← pow_add, ← Nat.mul_pow]

theorem point_exact {n : Nat} (h0 : 0 < n) (h : n < infinity) :
    -330 ≤ (exact n).point ∧ (exact n).point ≤ 310 := by
  have hm : 0 < units n * 5 ^ 1074 := Nat.mul_pos (units_pos h0) (by positivity)
  obtain ⟨-, -, -, hpoint, -⟩ := Decimal.ofNat_spec hm (-1074)
  have hlen₁ := (Nat.length_toDigits_le_iff (b := 10) (k := 1384) (by decide) (by decide)).mpr
    (units_exact_high h)
  have hlen₀ := mt (Nat.length_toDigits_le_iff (b := 10) (k := 744) (by decide) (by decide)).mp
    (not_lt.mpr (units_exact_low h0))
  have he : (exact n).point = (Nat.toDigits 10 (units n * 5 ^ 1074)).length + (-1074) := hpoint
  omega

theorem mul_two_pow_of_lt {s u k t : Nat} (h : s * 10 ^ k = u * 5 ^ t) (hk : k < t) :
    s * 2 ^ t = u * 10 ^ (t - k) := by
  apply Nat.eq_of_mul_eq_mul_right (show 0 < 10 ^ k by positivity)
  calc s * 2 ^ t * 10 ^ k = s * 10 ^ k * 2 ^ t := by ring
    _ = u * (5 * 2) ^ t := by rw [h, Nat.mul_pow, Nat.mul_assoc]
    _ = u * 10 ^ (t - k) * 10 ^ k := by rw [Nat.mul_assoc, ← pow_add, Nat.sub_add_cancel hk.le]

theorem mul_two_pow_of_le {s u k t : Nat} (h : s * 10 ^ k = u * 5 ^ t) (hk : t ≤ k) :
    s * 10 ^ (k - t) * 2 ^ t = u := by
  apply Nat.eq_of_mul_eq_mul_right (show 0 < 5 ^ t by positivity)
  calc s * 10 ^ (k - t) * 2 ^ t * 5 ^ t = s * (10 ^ (k - t) * (2 * 5) ^ t) := by
        rw [Nat.mul_pow]
        ring
    _ = u * 5 ^ t := by rw [← h, ← pow_add, Nat.sub_add_cancel hk]

theorem quotient_exact {n : Nat} (h0 : 0 < n) :
    ∃ b, 0 < b ∧ (exact n).quotient = (units n * b, b) := by
  have hm : 0 < units n * 5 ^ 1074 := Nat.mul_pos (units_pos h0) (by positivity)
  obtain ⟨k, hexp, hsig, -⟩ := Decimal.ofNat_spec hm (-1074)
  have he : (exact n).exponent = -1074 + k := hexp
  have hs : (exact n).significand * 10 ^ k = units n * 5 ^ 1074 := hsig
  unfold Decimal.quotient
  rw [he]
  by_cases hk : k < 1074
  · have habs : (-1074 + k : Int).natAbs = 1074 - k := by omega
    refine ⟨10 ^ (1074 - k), by positivity, ?_⟩
    rw [if_pos (by omega), habs, Nat.shiftLeft_eq, mul_two_pow_of_lt hs hk]
    rfl
  · have habs : (-1074 + k : Int).natAbs = k - 1074 := by omega
    refine ⟨1, one_pos, ?_⟩
    rw [if_neg (by omega), habs, Nat.shiftLeft_eq, Nat.mul_one]
    exact congrArg (·, 1) (mul_two_pow_of_le hs (by omega))

theorem magnitude?_exact {n : Nat} (h0 : 0 < n) (h : n < infinity) :
    (exact n).magnitude? = some n := by
  obtain ⟨b, hb, hq⟩ := quotient_exact h0
  obtain ⟨hlow, hhigh⟩ := point_exact h0 h
  have hm : 0 < units n * 5 ^ 1074 := Nat.mul_pos (units_pos h0) (by positivity)
  obtain ⟨-, -, -, -, hne⟩ := Decimal.ofNat_spec hm (-1074)
  have hn : (exact n).digits ≠ [] := hne
  rw [Decimal.magnitude?, if_neg hn, if_neg (by omega), if_neg (by omega), hq]
  simp [nearest_units n hb, h]

theorem onGrid?_eq_some {tie : Tie} {n : Nat} {e : Int} {d : Decimal}
    (h : onGrid? tie n e = some d) : (∃ m, d = Decimal.ofNat m e) ∧ d.magnitude? = some n := by
  have hround {d : Decimal} (h : roundsTo n d = true) : d.magnitude? = some n := by
    simpa [roundsTo] using h
  simp only [onGrid?] at h
  split at h
  next hboth =>
    rw [Bool.and_eq_true] at hboth
    cases h
    split
    · exact ⟨⟨_, rfl⟩, hround hboth.1⟩
    · exact ⟨⟨_, rfl⟩, hround hboth.2⟩
  next =>
    split at h
    next hlow =>
      cases h
      exact ⟨⟨_, rfl⟩, hround hlow⟩
    next =>
      split at h
      next hhigh =>
        cases h
        exact ⟨⟨_, rfl⟩, hround hhigh⟩
      next => cases h

theorem shortest_spec (tie : Tie) {n : Nat} (h : n < infinity) :
    (∃ m e, shortest tie n = Decimal.ofNat m e) ∧ (shortest tie n).magnitude? = some n := by
  unfold shortest
  by_cases h0 : n = 0
  · rw [if_pos h0, h0]
    exact ⟨⟨0, 0, Decimal.ofNat_zero.symm⟩, Decimal.magnitude?_zero⟩
  · rw [if_neg h0]
    cases hf : (List.range 17).findSome? fun (p : Nat) =>
        onGrid? tie n (point n - (p + 1 : Nat)) with
    | none =>
      rw [Option.getD_none]
      exact ⟨⟨_, _, rfl⟩, magnitude?_exact (Nat.pos_of_ne_zero h0) h⟩
    | some d =>
      obtain ⟨p, -, hp⟩ := List.exists_of_findSome?_eq_some hf
      obtain ⟨⟨m, hm⟩, hd⟩ := onGrid?_eq_some hp
      exact ⟨⟨m, _, hm⟩, hd⟩

theorem ofMagnitude_magnitude (x : Binary64) : ofMagnitude x.negative x.magnitude = x := by
  obtain ⟨bits⟩ := x
  have hlt := bits.toNat_lt
  have hn : (1 <<< 63 : Nat) = 2 ^ 63 := Nat.one_shiftLeft 63
  simp only [ofMagnitude, negative, magnitude, hn, decide_eq_true_eq]
  congr 1
  split
  next h =>
    rw [show 2 ^ 63 + bits.toNat % 2 ^ 63 = bits.toNat by omega, UInt64.ofNat_toNat]
  next h => rw [Nat.mod_eq_of_lt (by omega), UInt64.ofNat_toNat]

end Binary64

end PeerMesh
