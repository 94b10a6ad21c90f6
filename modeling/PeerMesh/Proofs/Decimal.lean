import Mathlib.Tactic.IntervalCases
import PeerMesh.Decimal

namespace PeerMesh

def Trimmed (ds : List Char) : Prop :=
  (∀ c ∈ ds.head?, c ≠ '0') ∧ ∀ c ∈ ds.getLast?, c ≠ '0'

theorem dropWhile_zeros (n : Nat) (ds : List Char) :
    (List.replicate n '0' ++ ds).dropWhile (· == '0') = ds.dropWhile (· == '0') := by
  induction n with
  | zero => rfl
  | succ n ih => rw [List.replicate_succ, List.cons_append, List.dropWhile_cons_of_pos rfl, ih]

theorem dropWhile_eq_self {ds : List Char} (h : ∀ c ∈ ds.head?, c ≠ '0') :
    ds.dropWhile (· == '0') = ds := by
  cases ds with
  | nil => rfl
  | cons c ds =>
    have hc : c ≠ '0' := h c rfl
    simp [hc]

theorem exists_trimmed (ds : List Char) :
    ∃ a core b, ds = List.replicate a '0' ++ (core ++ List.replicate b '0') ∧ Trimmed core := by
  have hfront (ds : List Char) : ∃ a rest,
      ds = List.replicate a '0' ++ rest ∧ ∀ c ∈ rest.head?, c ≠ '0' := by
    induction ds with
    | nil => exact ⟨0, [], rfl, by simp⟩
    | cons c ds ih =>
      by_cases hc : c = '0'
      · obtain ⟨a, rest, rfl, h⟩ := ih
        exact ⟨a + 1, rest, by simp [hc, List.replicate_succ], h⟩
      · exact ⟨0, c :: ds, rfl, by simpa using hc⟩
  obtain ⟨a, rest, rfl, hhead⟩ := hfront ds
  obtain ⟨b, core, hrest, hlast⟩ := hfront rest.reverse
  have hrest' : rest = core.reverse ++ List.replicate b '0' := by
    simpa using congrArg List.reverse hrest
  refine ⟨a, core.reverse, b, by rw [hrest'], ?_, by simpa using hlast⟩
  intro c hc
  apply hhead
  rw [hrest', List.head?_append, Option.mem_def.mp hc]
  rfl

namespace Decimal

theorem normal_zeros (a b : Nat) (e : Int) :
    normal (List.replicate a '0' ++ List.replicate b '0') e = ⟨[], 0⟩ := by
  simp [normal]

theorem normal_of_trimmed {core : List Char} (h : Trimmed core) (hne : core ≠ []) (a b : Nat)
    (e : Int) :
    normal (List.replicate a '0' ++ (core ++ List.replicate b '0')) e = ⟨core, e + b⟩ := by
  have hfront : (core ++ List.replicate b '0').dropWhile (· == '0') =
      core ++ List.replicate b '0' := by
    apply dropWhile_eq_self
    intro c hc
    cases core with
    | nil => exact absurd rfl hne
    | cons d core => exact h.1 c hc
  have hback : (core ++ List.replicate b '0').reverse.dropWhile (· == '0') = core.reverse := by
    rw [List.reverse_append, List.reverse_replicate, dropWhile_zeros]
    exact dropWhile_eq_self (by simpa using h.2)
  simp only [normal, dropWhile_zeros, hfront, hback, List.reverse_reverse, if_neg hne,
    List.length_append, List.length_replicate, Nat.add_sub_cancel_left]

/-- Without a zero at either end; zero is written in one way. -/
def IsNormal (d : Decimal) : Prop :=
  Trimmed d.digits ∧ (d.digits = [] → d.exponent = 0)

theorem exists_normal (ds : List Char) (e : Int) :
    ∃ a core b, ds = List.replicate a '0' ++ (core ++ List.replicate b '0') ∧ Trimmed core ∧
      normal ds e = if core = [] then ⟨[], 0⟩ else ⟨core, e + b⟩ := by
  obtain ⟨a, core, b, hds, h⟩ := exists_trimmed ds
  refine ⟨a, core, b, hds, h, ?_⟩
  by_cases hne : core = []
  · rw [hds, if_pos hne, hne, List.nil_append, normal_zeros]
  · rw [hds, if_neg hne, normal_of_trimmed h hne]

theorem isNormal_normal (ds : List Char) (e : Int) : (normal ds e).IsNormal := by
  obtain ⟨a, core, b, -, h, hn⟩ := exists_normal ds e
  rw [hn]
  by_cases hne : core = []
  · rw [if_pos hne]
    exact ⟨⟨by simp, by simp⟩, fun _ => rfl⟩
  · rw [if_neg hne]
    exact ⟨h, fun h => absurd h hne⟩

theorem mem_of_mem_normal {ds : List Char} {e : Int} {c : Char} (h : c ∈ (normal ds e).digits) :
    c ∈ ds := by
  obtain ⟨a, core, b, hds, -, hn⟩ := exists_normal ds e
  rw [hn] at h
  by_cases hne : core = []
  · simp [hne] at h
  · rw [if_neg hne] at h
    rw [hds]
    simp [show c ∈ core from h]

theorem normal_eq_of_isNormal {d : Decimal} (h : d.IsNormal) (hne : d.digits ≠ []) (a b : Nat)
    {e : Int} (he : d.exponent = e + b) :
    normal (List.replicate a '0' ++ (d.digits ++ List.replicate b '0')) e = d := by
  rw [normal_of_trimmed h.1 hne, ← he]

end Decimal

def Leading (ds : List Char) : Prop :=
  ds = ['0'] ∨ ds ≠ [] ∧ ∀ c ∈ ds.head?, c ≠ '0'

/-- What a scanner can read: digits where they belong, and a sign only in front of an exponent. -/
structure Numeral.WellFormed (n : Numeral) : Prop where
  whole : Leading n.whole
  wholeDigits : ∀ c ∈ n.whole, c.isDigit
  fractionDigits : ∀ c ∈ n.fraction, c.isDigit
  exponentDigits : ∀ c ∈ n.exponent, c.isDigit
  sign : n.sign = [] ∨ n.sign = ['-'] ∨ n.sign = ['+']
  unsigned : n.exponent = [] → n.sign = []

theorem toDigits_leading (n : Nat) : Leading (Nat.toDigits 10 n) := by
  induction n using Nat.strong_induction_on with
  | _ n ih =>
    by_cases hn : n < 10
    · rw [Nat.toDigits_of_lt_base hn]
      interval_cases n
      · exact .inl rfl
      all_goals exact .inr (by simp [Nat.digitChar])
    · have hlt : n / 10 < n := by omega
      rw [Nat.toDigits_of_base_le (by decide) (by omega)]
      obtain h | ⟨hne, h⟩ := ih (n / 10) hlt
      · have hv := congrArg (fun ds => Nat.ofDigitChars 10 ds 0) h
        simp only [Nat.ofDigitChars_ten_toDigits] at hv
        have : n / 10 = 0 := hv
        omega
      · refine .inr ⟨by simp, ?_⟩
        rwa [List.head?_append, Option.or_of_isSome (List.isSome_head?.mpr hne)]

theorem isDigit_toDigits {n : Nat} {c : Char} (h : c ∈ Nat.toDigits 10 n) : c.isDigit :=
  Nat.isDigit_of_mem_toDigits (by decide) (by decide) h

theorem Numeral.ofInt_wellFormed (n : Int) : (Numeral.ofInt n).WellFormed where
  whole := toDigits_leading _
  wholeDigits _ h := isDigit_toDigits h
  fractionDigits := by simp [Numeral.ofInt]
  exponentDigits := by simp [Numeral.ofInt]
  sign := .inl rfl
  unsigned _ := rfl

namespace Decimal

variable (negative : Bool) {d : Decimal}

theorem decimal_positional (h : d.IsNormal) (hne : d.digits ≠ []) :
    (positional negative d).decimal = d := by
  have hscale (w f : List Char) : (Numeral.mk negative w f [] []).scale = 0 := rfl
  have hpos : d.point = d.digits.length + d.exponent := rfl
  unfold positional Numeral.decimal
  split
  · have hz := normal_eq_of_isNormal h hne (d.point.natAbs + 1) 0
      (e := -((d.point.natAbs + d.digits.length : Nat) : Int)) (by omega)
    simpa [hscale, List.replicate_succ] using hz
  · split
    · next hlen =>
      have hz := normal_eq_of_isNormal h hne 0 (d.point.natAbs - d.digits.length + 1) (e := -1)
        (by omega)
      simpa [hscale, List.replicate_succ'] using hz
    · next hlen =>
      have hz := normal_eq_of_isNormal h hne 0 0
        (e := -((d.digits.length - d.point.natAbs : Nat) : Int)) (by omega)
      simpa [hscale] using hz

theorem decimal_scientific (style : Style) (hs : style.sign ≠ ['-']) (h : d.IsNormal)
    (hne : d.digits ≠ []) : (scientific style negative d).decimal = d := by
  have hpos : d.point = d.digits.length + d.exponent := rfl
  have hlen : 0 < d.digits.length := List.length_pos_iff.mpr hne
  have hscale : (scientific style negative d).scale = d.point - 1 := by
    unfold scientific Numeral.scale
    rw [Nat.ofDigitChars_ten_toDigits]
    by_cases he : d.point - 1 < 0
    · simp only [if_pos he, ↓reduceIte]
      omega
    · simp only [if_neg he, if_neg hs]
      omega
  have hz := normal_eq_of_isNormal h hne 0 0 (e := d.point - 1 - (d.digits.length - 1 : Nat))
    (by omega)
  have hdigits : (scientific style negative d).whole ++ (scientific style negative d).fraction =
      d.digits := List.take_append_drop 1 d.digits
  have hfraction : (scientific style negative d).fraction.length = d.digits.length - 1 :=
    List.length_drop
  rw [Numeral.decimal, hscale, hdigits, hfraction]
  simpa using hz

/-- A numeral stands for the number that it was chosen for. -/
theorem decimal_numeral (style : Style) (hs : style.sign ≠ ['-']) (h : d.IsNormal) :
    (d.numeral style negative).decimal = d := by
  unfold numeral
  by_cases hne : d.digits = []
  · have he := h.2 hne
    have hd : d = ⟨[], 0⟩ := by
      cases d
      simp_all
    rw [if_pos hne, hd]
    exact normal_zeros 1 1 (-1)
  · rw [if_neg hne]
    split
    · exact decimal_positional negative h hne
    · exact decimal_scientific negative style hs h hne

theorem leading_append {ds es : List Char} (hne : ds ≠ []) (h : ∀ c ∈ ds.head?, c ≠ '0') :
    Leading (ds ++ es) := by
  refine .inr ⟨by simp [hne], ?_⟩
  rwa [List.head?_append, Option.or_of_isSome (List.isSome_head?.mpr hne)]

theorem leading_take {ds : List Char} {n : Nat} (hn : n ≠ 0) (hne : ds ≠ [])
    (h : ∀ c ∈ ds.head?, c ≠ '0') : Leading (ds.take n) := by
  refine .inr ⟨by simp [hn, hne], ?_⟩
  rwa [List.head?_take, if_neg hn]

theorem isDigit_zeros (n : Nat) : ∀ c ∈ List.replicate n '0', c.isDigit := by
  intro c hc
  rw [List.eq_of_mem_replicate hc]
  rfl

theorem wellFormed_positional (h : d.IsNormal) (hd : ∀ c ∈ d.digits, c.isDigit)
    (hne : d.digits ≠ []) : (positional negative d).WellFormed := by
  unfold positional
  split
  · exact ⟨.inl rfl, isDigit_zeros 1, List.forall_mem_append.mpr ⟨isDigit_zeros _, hd⟩, by simp,
      .inl rfl, fun _ => rfl⟩
  · split
    · exact ⟨leading_append hne h.1.1, List.forall_mem_append.mpr ⟨hd, isDigit_zeros _⟩,
        isDigit_zeros 1, by simp,
        .inl rfl, fun _ => rfl⟩
    · exact ⟨leading_take (by omega) hne h.1.1, fun c hc => hd c (List.mem_of_mem_take hc),
        fun c hc => hd c (List.mem_of_mem_drop hc), by simp, .inl rfl, fun _ => rfl⟩

theorem wellFormed_scientific {style : Style} (hs : style.sign = [] ∨ style.sign = ['+'])
    (h : d.IsNormal) (hd : ∀ c ∈ d.digits, c.isDigit) (hne : d.digits ≠ []) :
    (scientific style negative d).WellFormed where
  whole := leading_take one_ne_zero hne h.1.1
  wholeDigits c hc := hd c (List.mem_of_mem_take hc)
  fractionDigits c hc := hd c (List.mem_of_mem_drop hc)
  exponentDigits _ hc := isDigit_toDigits hc
  sign := by
    simp only [scientific]
    split
    · exact .inr (.inl rfl)
    · exact hs.imp_right .inr
  unsigned he := absurd he Nat.toDigits_ne_nil

theorem wellFormed_numeral {style : Style} (hs : style.sign = [] ∨ style.sign = ['+'])
    (h : d.IsNormal) (hd : ∀ c ∈ d.digits, c.isDigit) :
    (d.numeral style negative).WellFormed := by
  unfold numeral
  split
  · exact ⟨.inl rfl, isDigit_zeros 1, isDigit_zeros 1, by simp, .inl rfl, fun _ => rfl⟩
  · next hne =>
    split
    · exact wellFormed_positional negative h hd hne
    · exact wellFormed_scientific negative hs h hd hne

theorem isInteger_numeral (style : Style) : (d.numeral style negative).isInteger = false := by
  unfold numeral
  split
  · rfl
  · next hne =>
    split
    · unfold positional
      split
      · simp [Numeral.isInteger, hne]
      · split
        · simp [Numeral.isInteger]
        · have hdrop : d.digits.drop d.point.natAbs ≠ [] := by
            rw [ne_eq, List.drop_eq_nil_iff]
            omega
          simp [Numeral.isInteger, hdrop]
    · have he : Nat.toDigits 10 (d.point - 1).natAbs ≠ [] := Nat.toDigits_ne_nil
      simp [Numeral.isInteger, scientific, he]

end Decimal

end PeerMesh
