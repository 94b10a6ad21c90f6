import Mathlib.Algebra.Order.Field.Basic
import Mathlib.Tactic.FieldSimp
import Mathlib.Tactic.Linarith
import PeerMesh.Proofs.Number

namespace PeerMesh

namespace Binary64

theorem roundQuotient_le (a b : Nat) : roundQuotient .even a b ≤ a / b + 1 := by
  unfold roundQuotient
  split
  · omega
  · split
    · omega
    · dsimp only
      omega

theorem roundQuotient_le_of_lt {a b n : Nat} (hb : 0 < b) (h : 2 * a < (2 * n + 1) * b) :
    roundQuotient .even a b ≤ n := by
  have hdiv : b * (a / b) + a % b = a := Nat.div_add_mod a b
  have hle : a / b ≤ n := by
    rw [← Nat.lt_succ_iff, Nat.div_lt_iff_lt_mul hb, Nat.succ_eq_add_one]
    linarith
  obtain hlt | heq := hle.lt_or_eq
  · exact (roundQuotient_le a b).trans hlt
  · have hmod : 2 * (a % b) < b := by
      rw [heq] at hdiv
      nlinarith
    rw [roundQuotient, if_pos hmod, heq]

theorem div_two_pow_lt {a b s : Nat} (h : (a / b).log2 - 52 ≤ s) : a / (b * 2 ^ s) < 2 ^ 53 := by
  rw [← Nat.div_div_eq_div_mul, Nat.div_lt_iff_lt_mul (by positivity), ← pow_add]
  exact Nat.lt_log2_self.trans_le (Nat.pow_le_pow_right two_pos (by omega))

theorem nearest_lt_infinity {a b : Nat} (hb : 0 < b) (h : a < (2 ^ 54 - 1) * 2 ^ 2044 * b) :
    nearest a b < infinity := by
  have hi : infinity = 2047 * 2 ^ 52 := by rw [infinity, Nat.shiftLeft_eq]
  have hq : a / b < 2 ^ 2098 := by
    rw [Nat.div_lt_iff_lt_mul hb]
    refine h.trans_le (Nat.mul_le_mul_right _ ?_)
    calc (2 ^ 54 - 1) * 2 ^ 2044 ≤ 2 ^ 54 * 2 ^ 2044 := Nat.mul_le_mul_right _ (Nat.sub_le _ _)
      _ = 2 ^ 2098 := by rw [← pow_add]
  have hscale : (a / b).log2 - 52 ≤ 2045 := by
    by_cases hz : a / b = 0
    · simp [hz]
    · have := (Nat.log2_lt hz).mpr hq
      omega
  unfold nearest
  simp only [Nat.shiftLeft_eq]
  -- only at the largest scale can rounding up reach infinity, and there the bound forbids it
  obtain hlt | heq := hscale.lt_or_eq
  · have hround := roundQuotient_le a (b * 2 ^ ((a / b).log2 - 52))
    have hfit := div_two_pow_lt (le_refl ((a / b).log2 - 52))
    omega
  · have hround : roundQuotient .even a (b * 2 ^ ((a / b).log2 - 52)) ≤ 2 ^ 53 - 1 := by
      rw [heq]
      refine roundQuotient_le_of_lt (by positivity) ?_
      calc 2 * a < 2 * ((2 ^ 54 - 1) * 2 ^ 2044 * b) := by omega
        _ = (2 * (2 ^ 53 - 1) + 1) * (b * 2 ^ 2045) := by
          rw [pow_succ 2 2044]
          generalize 2 ^ 2044 = t
          ring
    omega

theorem ofMagnitude_isFinite (negative : Bool) {m : Nat} (h : m < infinity) :
    (ofMagnitude negative m).isFinite := by
  have hi : infinity = 2047 * 2 ^ 52 := by rw [infinity, Nat.shiftLeft_eq]
  have hm : (ofMagnitude negative m).magnitude = m := by
    unfold ofMagnitude magnitude
    rw [Nat.one_shiftLeft, UInt64.toNat_ofNat']
    cases negative <;> simp only [Bool.false_eq_true, if_false, if_true] <;> omega
  rw [isFinite, hm]
  exact decide_eq_true h

theorem shiftLeft_le {n k : Nat} (h : n ≤ 2 ^ 64) : n <<< k ≤ 2 ^ (64 + k) := by
  rw [Nat.shiftLeft_eq, pow_add]
  exact Nat.mul_le_mul_right _ h

theorem ofInt_isFinite {n : Int} (h : n.natAbs ≤ 2 ^ 64) : (ofInt n).isFinite := by
  have hhigh : 2 ^ (64 + 1074) < 2 ^ 2044 := pow_lt_pow_right₀ one_lt_two (by norm_num)
  have hunits : n.natAbs <<< 1074 < (2 ^ 54 - 1) * 2 ^ 2044 * 1 := by
    rw [Nat.mul_one]
    exact ((shiftLeft_le h).trans_lt hhigh).trans_le (Nat.le_mul_of_pos_left _ (by norm_num))
  exact ofMagnitude_isFinite _ ((min_le_left _ _).trans_lt (nearest_lt_infinity one_pos hunits))

end Binary64

namespace Decimal

def value (d : Decimal) : ℚ :=
  d.significand * 10 ^ d.exponent

theorem value_normal (ds : List Char) (e : Int) :
    (normal ds e).value = (Nat.ofDigitChars 10 ds 0 : ℚ) * 10 ^ e := by
  obtain ⟨a, core, b, hds, -, hn⟩ := exists_normal ds e
  have hdigits : Nat.ofDigitChars 10 ds 0 = 10 ^ b * Nat.ofDigitChars 10 core 0 := by
    rw [hds, Nat.ofDigitChars_append, Nat.ofDigitChars_replicate_zero, Nat.mul_zero,
      Nat.ofDigitChars_append, Nat.ofDigitChars_replicate_zero]
  rw [hn, hdigits]
  by_cases hne : core = []
  · simp [hne, value, significand]
  · rw [if_neg hne, value, significand, zpow_add₀ (by norm_num), zpow_natCast]
    push_cast
    ring

theorem pow_le_significand {c : Char} {cs : List Char} (hc : c.isDigit) (hz : c ≠ '0') :
    10 ^ cs.length ≤ Nat.ofDigitChars 10 (c :: cs) 0 := by
  have hv : 48 ≤ c.toNat ∧ c.toNat ≤ 57 := Char.isDigit_iff_toNat.mp hc
  have hne : c.toNat ≠ 48 := fun he => hz (Char.toNat_inj.mp he)
  rw [Nat.ofDigitChars_cons, Nat.ofDigitChars_eq_ofDigitChars_zero]
  have hone : 1 ≤ 10 * 0 + (c.toNat - '0'.toNat) := by
    change 1 ≤ 10 * 0 + (c.toNat - 48)
    omega
  exact (Nat.le_mul_of_pos_right _ hone).trans (Nat.le_add_right _ _)

theorem two_pow_1024_le : (2 : ℚ) ^ 1024 ≤ 10 ^ 310 := by
  have h : ((2 : ℚ) ^ 205) ^ 5 ≤ (10 ^ 62) ^ 5 := pow_le_pow_left₀ (by norm_num) (by norm_num) 5
  rw [← pow_mul, ← pow_mul] at h
  exact (pow_le_pow_right₀ one_le_two (by norm_num)).trans h

theorem two_pow_le_value {d : Decimal} (hn : d.IsNormal) (hd : ∀ c ∈ d.digits, c.isDigit)
    (hne : d.digits ≠ []) (h : 310 < d.point) : 2 ^ 1024 ≤ d.value := by
  obtain ⟨digits, e⟩ := d
  cases digits with
  | nil => exact absurd rfl hne
  | cons c cs =>
    have hlow : (10 : ℚ) ^ cs.length ≤ significand ⟨c :: cs, e⟩ := by
      exact_mod_cast pow_le_significand (hd c List.mem_cons_self) (hn.1.1 c rfl)
    have he : ((310 : Nat) : Int) ≤ cs.length + e := by
      simp only [point, List.length_cons] at h
      push_cast at h
      omega
    calc (2 : ℚ) ^ 1024 ≤ 10 ^ 310 := two_pow_1024_le
      _ = 10 ^ ((310 : Nat) : Int) := (zpow_natCast _ _).symm
      _ ≤ 10 ^ (cs.length + e : Int) := zpow_le_zpow_right₀ (by norm_num) he
      _ = 10 ^ cs.length * 10 ^ e := by rw [zpow_add₀ (by norm_num), zpow_natCast]
      _ ≤ value ⟨c :: cs, e⟩ :=
        mul_le_mul_of_nonneg_right hlow (zpow_nonneg (by norm_num) e)

theorem cast_shiftLeft (n k : Nat) : ((n <<< k : Nat) : ℚ) = n * 2 ^ k := by
  rw [Nat.shiftLeft_eq, Nat.cast_mul, Nat.cast_pow, Nat.cast_ofNat]

theorem quotient_spec (d : Decimal) :
    0 < d.quotient.2 ∧ (d.quotient.1 : ℚ) = d.value * 2 ^ 1074 * d.quotient.2 := by
  unfold quotient
  split
  next he =>
    have habs : d.exponent = -(d.exponent.natAbs : Int) := by omega
    have hpos : (0 : ℚ) < 10 ^ d.exponent.natAbs := by positivity
    refine ⟨Nat.pow_pos (by decide), ?_⟩
    rw [value, habs, zpow_neg, zpow_natCast, Int.natAbs_neg, Int.natAbs_natCast]
    rw [cast_shiftLeft, Nat.pow_eq, Nat.cast_pow, Nat.cast_ofNat]
    generalize (2 : ℚ) ^ 1074 = u
    field_simp
  next he =>
    have habs : d.exponent = (d.exponent.natAbs : Int) := by omega
    refine ⟨one_pos, ?_⟩
    rw [value, habs, zpow_natCast, Int.natAbs_natCast]
    rw [cast_shiftLeft, Nat.cast_mul, Nat.pow_eq, Nat.cast_pow, Nat.cast_ofNat, Nat.cast_one]
    generalize (2 : ℚ) ^ 1074 = u
    ring

theorem limit_units (k l : Nat) :
    ((2 : ℚ) ^ (54 + k) - 2 ^ k) * 2 ^ l = (2 ^ 54 - 1) * 2 ^ (k + l) := by
  rw [pow_add, pow_add]
  ring

theorem quotient_lt {d : Decimal} (h : d.value < 2 ^ 1024 - 2 ^ 970) :
    d.quotient.1 < (2 ^ 54 - 1) * 2 ^ 2044 * d.quotient.2 := by
  obtain ⟨hpos, hq⟩ := d.quotient_spec
  have hpos : (0 : ℚ) < d.quotient.2 := Nat.cast_pos.mpr hpos
  have hlt : (d.quotient.1 : ℚ) < (2 ^ 54 - 1) * 2 ^ 2044 * d.quotient.2 := by
    rw [hq]
    refine mul_lt_mul_of_pos_right ?_ hpos
    exact (mul_lt_mul_of_pos_right h (by positivity)).trans_eq (limit_units 970 1074)
  rw [← Nat.cast_lt (α := ℚ), Nat.cast_mul, Nat.cast_mul, Nat.cast_pow,
    show ((2 ^ 54 - 1 : Nat) : ℚ) = 2 ^ 54 - 1 by norm_num]
  exact hlt

theorem exists_magnitude? {d : Decimal} (hn : d.IsNormal) (hd : ∀ c ∈ d.digits, c.isDigit)
    (h : d.value < 2 ^ 1024 - 2 ^ 970) : ∃ m, d.magnitude? = some m := by
  unfold magnitude?
  by_cases hne : d.digits = []
  · exact ⟨0, if_pos hne⟩
  rw [if_neg hne]
  have hpoint : ¬310 < d.point := fun hlt =>
    ((h.trans_le (sub_le_self _ (by positivity))).trans_le (two_pow_le_value hn hd hne hlt)).false
  rw [if_neg hpoint]
  split
  · exact ⟨0, rfl⟩
  exact ⟨_, if_pos (Binary64.nearest_lt_infinity (quotient_spec d).1 (quotient_lt h))⟩

end Decimal

namespace Numeral

/-- The number that is written, without its sign. -/
def value (n : Numeral) : ℚ :=
  (Nat.ofDigitChars 10 (n.whole ++ n.fraction) 0 : ℚ) * 10 ^ (n.scale - n.fraction.length)

def integer (n : Numeral) : Int :=
  if n.negative then -(Nat.ofDigitChars 10 n.whole 0 : Nat)
  else (Nat.ofDigitChars 10 n.whole 0 : Nat)

theorem exists_magnitude? {n : Numeral} (h : n.WellFormed) (hv : n.value < 2 ^ 1024 - 2 ^ 970) :
    ∃ m, n.decimal.magnitude? = some m := by
  refine Decimal.exists_magnitude? (Decimal.isNormal_normal _ _) (fun c hc => ?_) ?_
  · obtain hc | hc := List.mem_append.mp (Decimal.mem_of_mem_normal hc)
    · exact h.wholeDigits c hc
    · exact h.fractionDigits c hc
  · rwa [decimal, Decimal.value_normal]

end Numeral

theorem Decimal.lt_of_magnitude? {d : Decimal} {m : Nat} (h : d.magnitude? = some m) :
    m < Binary64.infinity := by
  have hzero : 0 < Binary64.infinity := by decide
  unfold magnitude? at h
  split at h
  · cases h
    exact hzero
  · split at h
    · cases h
    · split at h
      · cases h
        exact hzero
      · dsimp only at h
        split at h
        next hlt =>
          cases h
          exact hlt
        next => cases h

namespace Json.Number

variable {n : Numeral} {m : Number}

theorem exists_float? (h : n.WellFormed) (hv : n.value < 2 ^ 1024 - 2 ^ 970) :
    ∃ m, float? n = some m := by
  obtain ⟨p, hp⟩ := Numeral.exists_magnitude? h hv
  exact ⟨_, by rw [float?, hp]; rfl⟩

theorem float?_eq_some (h : float? n = some m) : ∃ x : Binary64, m = float x ∧ x.isFinite := by
  obtain ⟨p, hp, rfl⟩ := Option.map_eq_some_iff.mp h
  exact ⟨_, rfl, Binary64.ofMagnitude_isFinite _ (Decimal.lt_of_magnitude? hp)⟩

theorem exists_ofNumeral? (h : n.WellFormed) (hv : n.value < 2 ^ 1024 - 2 ^ 970) :
    ∃ m, ofNumeral? n = some m := by
  have hfloat := exists_float? h hv
  unfold ofNumeral?
  dsimp only
  split
  · exact hfloat
  · split
    · split
      · exact hfloat
      · exact ⟨_, rfl⟩
    · split
      · exact ⟨_, rfl⟩
      · exact hfloat

/-- What stays whole is an integer that fits 64 bits, but for the negative zero. -/
theorem ofNumeral?_eq_int_iff {k : Int} :
    ofNumeral? n = some (int k) ↔ n.isInteger ∧ n.integer = k ∧ (n.negative → k ≠ 0) ∧
      -2 ^ 63 ≤ k ∧ k < 2 ^ 64 := by
  have hfloat : float? n ≠ some (int k) := by
    intro h
    obtain ⟨x, hx, -⟩ := float?_eq_some h
    cases hx
  unfold ofNumeral? Numeral.integer
  generalize Nat.ofDigitChars 10 n.whole 0 = d
  dsimp only
  rw [Nat.one_shiftLeft, UInt64.size]
  cases hi : n.isInteger with
  | false => simp [hfloat]
  | true =>
    cases hn : n.negative with
    | true =>
      simp only [Bool.not_true, Bool.false_eq_true, if_false, if_true, Bool.or_eq_true,
        decide_eq_true_eq, true_and, forall_const]
      split
      next hd => exact iff_of_false hfloat (by omega)
      next hd =>
        rw [Option.some.injEq, int.injEq]
        omega
    | false =>
      simp only [Bool.not_true, Bool.false_eq_true, if_false, true_and, false_imp_iff]
      split
      next hd =>
        rw [Option.some.injEq, int.injEq]
        omega
      next hd => exact iff_of_false hfloat (by omega)

theorem writable_of_ofNumeral? (h : ofNumeral? n = some m) : m.Writable := by
  have hfloat (h : float? n = some m) : m.Writable := by
    obtain ⟨x, rfl, hx⟩ := float?_eq_some h
    exact hx
  cases m with
  | int k =>
    obtain ⟨-, -, -, hlow, hhigh⟩ := ofNumeral?_eq_int_iff.mp h
    rw [Writable, Nat.one_shiftLeft, UInt64.size]
    exact ⟨by simpa using hlow, by simpa using hhigh⟩
  | float x =>
    unfold ofNumeral? at h
    dsimp only at h
    split at h
    · exact hfloat h
    · split at h
      · split at h
        · exact hfloat h
        · cases h
      · split at h
        · cases h
        · exact hfloat h

theorem toBinary64_isFinite (h : m.Writable) : m.toBinary64.isFinite := by
  cases m with
  | int k =>
    obtain ⟨hlow, hhigh⟩ := h
    refine Binary64.ofInt_isFinite ?_
    rw [Nat.one_shiftLeft] at hlow
    rw [UInt64.size] at hhigh
    omega
  | float x => exact h

end Json.Number

end PeerMesh
