import PeerMesh.Json.Token
import PeerMesh.Proofs.Shortest

namespace PeerMesh.Json

theorem ascii_digit {c : Char} (h : c.isDigit) :
    isDigit (ascii c) = true ∧ Char.ofNat (ascii c).toNat = c := by
  have hv : 48 ≤ c.toNat ∧ c.toNat ≤ 57 := Char.isDigit_iff_toNat.mp h
  have hn : (ascii c).toNat = c.toNat := by
    rw [ascii, UInt8.toNat_ofNat']
    omega
  refine ⟨?_, by rw [hn, Char.ofNat_toNat]⟩
  simp only [isDigit, Bool.and_eq_true, decide_eq_true_eq, UInt8.le_iff_toNat_le, hn]
  exact hv

/-- A text that no numeral in front of it can go on into. -/
def Stops (rest : Bytes) : Prop :=
  ∀ b ∈ rest.head?, isDigit b = false ∧ b ≠ ascii '.' ∧ b ≠ ascii 'e' ∧ b ≠ ascii 'E'

theorem takeWhile_digits {ds : List Char} (hd : ∀ c ∈ ds, c.isDigit) {rest : Bytes}
    (hr : ∀ b ∈ rest.head?, isDigit b = false) :
    (ds.map ascii ++ rest).takeWhile isDigit = ds.map ascii ∧
      (ds.map ascii ++ rest).dropWhile isDigit = rest := by
  have hds : ∀ b ∈ ds.map ascii, isDigit b := by
    simpa using fun c hc => (ascii_digit (hd c hc)).1
  have hrest : rest.takeWhile isDigit = [] ∧ rest.dropWhile isDigit = rest := by
    cases rest with
    | nil => exact ⟨rfl, rfl⟩
    | cons b rest =>
      have hb : isDigit b = false := hr b rfl
      simp [hb]
  rw [List.takeWhile_append_of_pos hds, List.dropWhile_append_of_pos hds, hrest.1, hrest.2]
  exact ⟨List.append_nil _, rfl⟩

theorem digits_append {ds : List Char} (hd : ∀ c ∈ ds, c.isDigit) {rest : Bytes}
    (hr : ∀ b ∈ rest.head?, isDigit b = false) : digits (ds.map ascii ++ rest) = ds := by
  rw [digits, (takeWhile_digits hd hr).1, List.map_map]
  exact (List.map_congr_left fun c hc => (ascii_digit (hd c hc)).2).trans (List.map_id ds)

theorem afterDigits_append {ds : List Char} (hd : ∀ c ∈ ds, c.isDigit) {rest : Bytes}
    (hr : ∀ b ∈ rest.head?, isDigit b = false) : afterDigits (ds.map ascii ++ rest) = rest :=
  (takeWhile_digits hd hr).2

theorem scanWhole_append {ds : List Char} (h : Leading ds) (hd : ∀ c ∈ ds, c.isDigit)
    {rest : Bytes} (hr : ∀ b ∈ rest.head?, isDigit b = false) :
    scanWhole (ds.map ascii ++ rest) = some (ds, rest) := by
  obtain rfl | ⟨hne, hhead⟩ := h
  · rfl
  · have hdigits := digits_append hd hr
    have hafter := afterDigits_append hd hr
    cases ds with
    | nil => exact absurd rfl hne
    | cons c ds =>
      obtain ⟨hc, hchar⟩ := ascii_digit (hd c List.mem_cons_self)
      have hzero : ascii c ≠ ascii '0' := by
        intro he
        rw [he] at hchar
        exact hhead c rfl hchar.symm
      rw [List.map_cons, List.cons_append] at hdigits hafter ⊢
      rw [scanWhole, if_neg hzero, if_pos hc, hdigits, hafter]

theorem scanFraction_append {ds : List Char} (hd : ∀ c ∈ ds, c.isDigit) {rest : Bytes}
    (hr : ∀ b ∈ rest.head?, isDigit b = false ∧ b ≠ ascii '.') :
    scanFraction ((if ds = [] then [] else '.' :: ds).map ascii ++ rest) = some (ds, rest) := by
  by_cases hne : ds = []
  · rw [if_pos hne, List.map_nil, List.nil_append, hne]
    cases rest with
    | nil => rfl
    | cons b rest => rw [scanFraction, if_neg (hr b rfl).2]
  · have hdigits := digits_append hd fun b hb => (hr b hb).1
    have hafter := afterDigits_append hd fun b hb => (hr b hb).1
    rw [if_neg hne, List.map_cons, List.cons_append, scanFraction, if_pos rfl, hdigits, hafter,
      if_neg hne]

theorem scanSign_append {sign ds : List Char}
    (hs : sign = [] ∨ sign = ['-'] ∨ sign = ['+']) (hne : ds ≠ []) (hd : ∀ c ∈ ds, c.isDigit)
    (rest : Bytes) :
    scanSign (sign.map ascii ++ (ds.map ascii ++ rest)) = (sign, ds.map ascii ++ rest) := by
  obtain rfl | rfl | rfl := hs
  · cases ds with
    | nil => exact absurd rfl hne
    | cons c ds =>
      have hc := (ascii_digit (hd c List.mem_cons_self)).1
      have hminus : ascii c ≠ ascii '-' := fun he => absurd (he ▸ hc) (by decide)
      have hplus : ascii c ≠ ascii '+' := fun he => absurd (he ▸ hc) (by decide)
      rw [List.map_nil, List.nil_append, List.map_cons, List.cons_append, scanSign,
        if_neg hminus, if_neg hplus]
  · rfl
  · rfl

theorem scanExponent_append {mark : Char} (hm : mark = 'e' ∨ mark = 'E') {sign ds : List Char}
    (hs : sign = [] ∨ sign = ['-'] ∨ sign = ['+']) (hu : ds = [] → sign = [])
    (hd : ∀ c ∈ ds, c.isDigit) {rest : Bytes} (hr : Stops rest) :
    scanExponent ((if ds = [] then [] else mark :: (sign ++ ds)).map ascii ++ rest) =
      some ((sign, ds), rest) := by
  by_cases hne : ds = []
  · rw [if_pos hne, List.map_nil, List.nil_append, hu hne, hne]
    cases rest with
    | nil => rfl
    | cons b rest =>
      obtain ⟨-, -, he, hE⟩ := hr b rfl
      rw [scanExponent, if_neg (not_or.mpr ⟨he, hE⟩)]
  · have hdigits := digits_append hd fun b hb => (hr b hb).1
    have hafter := afterDigits_append hd fun b hb => (hr b hb).1
    have hsign := scanSign_append hs hne hd rest
    have hmark : ascii mark = ascii 'e' ∨ ascii mark = ascii 'E' :=
      hm.imp (congrArg ascii) (congrArg ascii)
    rw [if_neg hne, List.map_cons, List.map_append, List.cons_append, List.append_assoc,
      scanExponent, if_pos hmark, hsign]
    simp only [hdigits, hafter, if_neg hne]

def fractionChars (n : Numeral) : List Char :=
  if n.fraction = [] then [] else '.' :: n.fraction

def exponentChars (mark : Char) (n : Numeral) : List Char :=
  if n.exponent = [] then [] else mark :: (n.sign ++ n.exponent)

theorem exponentChars_stop {mark : Char} (hm : mark = 'e' ∨ mark = 'E') (n : Numeral)
    {rest : Bytes} (hr : Stops rest) :
    ∀ b ∈ ((exponentChars mark n).map ascii ++ rest).head?, isDigit b = false ∧ b ≠ ascii '.' := by
  unfold exponentChars
  by_cases he : n.exponent = []
  · rw [if_pos he]
    exact fun b hb => ⟨(hr b hb).1, (hr b hb).2.1⟩
  · rw [if_neg he]
    intro b hb
    cases hb
    obtain rfl | rfl := hm <;> decide

theorem fractionChars_stop (n : Numeral) {rest : Bytes}
    (hr : ∀ b ∈ rest.head?, isDigit b = false ∧ b ≠ ascii '.') :
    ∀ b ∈ ((fractionChars n).map ascii ++ rest).head?, isDigit b = false := by
  unfold fractionChars
  by_cases hf : n.fraction = []
  · rw [if_pos hf]
    exact fun b hb => (hr b hb).1
  · rw [if_neg hf]
    intro b hb
    cases hb
    decide

theorem scanUnsigned_append {mark : Char} (hm : mark = 'e' ∨ mark = 'E') {n : Numeral}
    (h : n.WellFormed) {rest : Bytes} (hr : Stops rest) :
    scanUnsigned n.negative
      (n.whole.map ascii ++
        ((fractionChars n).map ascii ++ ((exponentChars mark n).map ascii ++ rest))) =
      some (n, rest) := by
  have hexp := exponentChars_stop hm n hr
  have h₁ := scanWhole_append h.whole h.wholeDigits (fractionChars_stop n hexp)
  have h₂ : scanFraction
      ((fractionChars n).map ascii ++ ((exponentChars mark n).map ascii ++ rest)) =
        some (n.fraction, (exponentChars mark n).map ascii ++ rest) :=
    scanFraction_append h.fractionDigits hexp
  have h₃ : scanExponent ((exponentChars mark n).map ascii ++ rest) =
      some ((n.sign, n.exponent), rest) :=
    scanExponent_append hm h.sign h.unsigned h.exponentDigits hr
  simp only [scanUnsigned, h₁, h₂, h₃, Option.bind_eq_bind, Option.bind_some]
  rfl

/-- The texts of a numeral. Its exponent stands behind an `e` of either case. -/
def NumeralText (n : Numeral) (text : Bytes) : Prop :=
  n.WellFormed ∧ ∃ mark, (mark = 'e' ∨ mark = 'E') ∧
    text = ((if n.negative then ['-'] else []) ++ n.whole ++ fractionChars n ++
      exponentChars mark n).map ascii

theorem numeralText_chars {n : Numeral} (h : n.WellFormed) :
    NumeralText n (n.chars.map ascii) :=
  ⟨h, 'e', .inl rfl, rfl⟩

theorem NumeralText.scan {n : Numeral} {text : Bytes} (h : NumeralText n text) {rest : Bytes}
    (hr : Stops rest) : scanNumeral (text ++ rest) = some (n, rest) := by
  obtain ⟨hn, mark, hm, rfl⟩ := h
  have hu := scanUnsigned_append hm hn hr
  simp only [List.map_append, List.append_assoc]
  cases hneg : n.negative with
  | true =>
    rw [hneg] at hu
    exact hu
  | false =>
    rw [hneg] at hu
    have hne : n.whole ≠ [] := by
      obtain he | he := hn.whole
      · simp [he]
      · exact he.1
    cases hw : n.whole with
    | nil => exact absurd hw hne
    | cons c ds =>
      have hc : isDigit (ascii c) = true :=
        (ascii_digit (hn.wholeDigits c (by simp [hw]))).1
      have hminus : ascii c ≠ ascii '-' := fun he => absurd (he ▸ hc) (by decide)
      rw [hw] at hu
      simp only [Bool.false_eq_true, ↓reduceIte, List.map_nil, List.nil_append, List.map_cons,
        List.cons_append] at hu ⊢
      rw [scanNumeral, if_neg hminus, hu]

theorem NumeralText.exists_cons {n : Numeral} {text : Bytes} (h : NumeralText n text) :
    ∃ b bs, text = b :: bs ∧ (b = ascii '-' ∨ isDigit b = true) := by
  obtain ⟨hn, mark, -, rfl⟩ := h
  have hne : n.whole ≠ [] := by
    obtain he | he := hn.whole
    · simp [he]
    · exact he.1
  cases hneg : n.negative with
  | true => exact ⟨ascii '-', _, rfl, .inl rfl⟩
  | false =>
    cases hw : n.whole with
    | nil => exact absurd hw hne
    | cons c ds => exact ⟨ascii c, _, rfl, .inr (ascii_digit (hn.wholeDigits c (by simp [hw]))).1⟩

theorem digit_ascii {b : UInt8} (h : isDigit b = true) :
    (Char.ofNat b.toNat).isDigit ∧ ascii (Char.ofNat b.toNat) = b := by
  simp only [isDigit, Bool.and_eq_true, decide_eq_true_eq, UInt8.le_iff_toNat_le] at h
  obtain ⟨hlow, hhigh⟩ := h
  have hlow : 48 ≤ b.toNat := hlow
  have hhigh : b.toNat ≤ 57 := hhigh
  have hc : (Char.ofNat b.toNat).toNat = b.toNat := by
    rw [Char.ofNat, dif_pos (.inl (by omega))]
    rfl
  refine ⟨Char.isDigit_iff_toNat.mpr (by rw [hc]; exact ⟨hlow, hhigh⟩), ?_⟩
  rw [ascii, hc, UInt8.ofNat_toNat]

theorem map_ascii_digits (bs : Bytes) : (digits bs).map ascii = bs.takeWhile isDigit := by
  rw [digits, List.map_map]
  refine (List.map_congr_left fun b hb => ?_).trans (List.map_id _)
  exact (digit_ascii (List.all_eq_true.mp List.all_takeWhile b hb)).2

theorem digits_append_afterDigits (bs : Bytes) : (digits bs).map ascii ++ afterDigits bs = bs := by
  rw [map_ascii_digits, afterDigits, List.takeWhile_append_dropWhile]

theorem isDigit_digits {bs : Bytes} {c : Char} (h : c ∈ digits bs) : c.isDigit := by
  obtain ⟨b, hb, rfl⟩ := List.mem_map.mp h
  exact (digit_ascii (List.all_eq_true.mp List.all_takeWhile b hb)).1

theorem eq_of_scanWhole {bs rest : Bytes} {ds : List Char} (h : scanWhole bs = some (ds, rest)) :
    bs = ds.map ascii ++ rest ∧ Leading ds ∧ ∀ c ∈ ds, c.isDigit := by
  cases bs with
  | nil => cases h
  | cons b bs =>
    rw [scanWhole] at h
    split at h
    next hzero =>
      cases h
      exact ⟨by rw [hzero]; rfl, .inl rfl, by simp⟩
    next hzero =>
      split at h
      next hd =>
        cases h
        refine ⟨(digits_append_afterDigits _).symm, .inr ⟨?_, ?_⟩, fun c hc => isDigit_digits hc⟩
        · simp [digits, hd]
        · intro c hc he
          have hhead : c = Char.ofNat b.toNat := by simpa [digits, hd] using hc.symm
          refine hzero ?_
          rw [← (digit_ascii hd).2, ← hhead, he]
      next => cases h

theorem eq_of_scanFraction {bs rest : Bytes} {ds : List Char}
    (h : scanFraction bs = some (ds, rest)) :
    bs = (if ds = [] then [] else '.' :: ds).map ascii ++ rest ∧ ∀ c ∈ ds, c.isDigit := by
  cases bs with
  | nil =>
    cases h
    simp
  | cons b bs =>
    rw [scanFraction] at h
    split at h
    next hpoint =>
      split at h
      next => cases h
      next hne =>
        cases h
        refine ⟨?_, fun c hc => isDigit_digits hc⟩
        rw [if_neg hne, List.map_cons, List.cons_append, digits_append_afterDigits, hpoint]
    next =>
      cases h
      simp

theorem eq_of_scanSign (bs : Bytes) :
    bs = (scanSign bs).1.map ascii ++ (scanSign bs).2 ∧
      ((scanSign bs).1 = [] ∨ (scanSign bs).1 = ['-'] ∨ (scanSign bs).1 = ['+']) := by
  cases bs with
  | nil => exact ⟨rfl, .inl rfl⟩
  | cons b bs =>
    rw [scanSign]
    split
    next hb => exact ⟨by rw [hb]; rfl, .inr (.inl rfl)⟩
    next =>
      split
      next hb => exact ⟨by rw [hb]; rfl, .inr (.inr rfl)⟩
      next => exact ⟨rfl, .inl rfl⟩

theorem eq_of_scanExponent {bs rest : Bytes} {sign ds : List Char}
    (h : scanExponent bs = some ((sign, ds), rest)) :
    (∃ mark, (mark = 'e' ∨ mark = 'E') ∧
      bs = (if ds = [] then [] else mark :: (sign ++ ds)).map ascii ++ rest) ∧
      (∀ c ∈ ds, c.isDigit) ∧ (sign = [] ∨ sign = ['-'] ∨ sign = ['+']) ∧
      (ds = [] → sign = []) := by
  cases bs with
  | nil =>
    cases h
    exact ⟨⟨'e', .inl rfl, rfl⟩, by simp, .inl rfl, fun _ => rfl⟩
  | cons b bs =>
    rw [scanExponent] at h
    split at h
    next hmark =>
      obtain ⟨hbs, hsign⟩ := eq_of_scanSign bs
      dsimp only at h
      split at h
      next => cases h
      next hne =>
        cases h
        refine ⟨?_, fun c hc => isDigit_digits hc, hsign, fun he => absurd he hne⟩
        obtain ⟨mark, hm, hb⟩ : ∃ mark, (mark = 'e' ∨ mark = 'E') ∧ b = ascii mark :=
          hmark.elim (fun hb => ⟨'e', .inl rfl, hb⟩) fun hb => ⟨'E', .inr rfl, hb⟩
        refine ⟨mark, hm, ?_⟩
        rw [if_neg hne, List.map_cons, List.map_append, List.cons_append, List.append_assoc,
          digits_append_afterDigits, ← hbs, hb]
    next =>
      cases h
      exact ⟨⟨'e', .inl rfl, rfl⟩, by simp, .inl rfl, fun _ => rfl⟩

theorem eq_of_scanUnsigned {negative : Bool} {bs rest : Bytes} {n : Numeral}
    (h : scanUnsigned negative bs = some (n, rest)) :
    n.negative = negative ∧ n.WellFormed ∧ ∃ mark, (mark = 'e' ∨ mark = 'E') ∧
      bs = (n.whole ++ fractionChars n ++ exponentChars mark n).map ascii ++ rest := by
  simp only [scanUnsigned, Option.bind_eq_bind, Option.bind_eq_some_iff] at h
  obtain ⟨⟨whole, bs₁⟩, hw, ⟨fraction, bs₂⟩, hf, ⟨⟨sign, exponent⟩, bs₃⟩, he, h⟩ := h
  dsimp only at hf he h
  cases h
  obtain ⟨hbs, hlead, hwhole⟩ := eq_of_scanWhole hw
  obtain ⟨hbs₁, hfraction⟩ := eq_of_scanFraction hf
  obtain ⟨⟨mark, hm, hbs₂⟩, hexponent, hsign, hunsigned⟩ := eq_of_scanExponent he
  refine ⟨rfl, ⟨hlead, hwhole, hfraction, hexponent, hsign, hunsigned⟩, mark, hm, ?_⟩
  rw [List.map_append, List.map_append, List.append_assoc, List.append_assoc, hbs, hbs₁, hbs₂]
  rfl

theorem numeralText_of_scan {bs rest : Bytes} {n : Numeral}
    (h : scanNumeral bs = some (n, rest)) : ∃ text, NumeralText n text ∧ bs = text ++ rest := by
  cases bs with
  | nil => cases h
  | cons b bs =>
    rw [scanNumeral] at h
    split at h
    next hminus =>
      obtain ⟨hneg, hn, mark, hm, hbs⟩ := eq_of_scanUnsigned h
      refine ⟨_, ⟨hn, mark, hm, rfl⟩, ?_⟩
      rw [hneg, if_pos rfl, hbs, hminus]
      simp
    next =>
      obtain ⟨hneg, hn, mark, hm, hbs⟩ := eq_of_scanUnsigned h
      refine ⟨_, ⟨hn, mark, hm, rfl⟩, ?_⟩
      rw [hneg, if_neg Bool.false_ne_true, hbs]
      simp

namespace Number

/-- The numbers that a text can carry: the integers that fit 64 bits, and finite floats. -/
def Writable : Number → Prop
  | int n => -(1 <<< 63 : Nat) ≤ n ∧ n < UInt64.size
  | float x => x.isFinite

theorem float?_numeral {x : Binary64} (h : x.isFinite) :
    float? (x.numeral style) = some (float x) := by
  have hx : x.magnitude < Binary64.infinity := of_decide_eq_true h
  obtain ⟨⟨m, e, hm⟩, hround⟩ := Binary64.shortest_spec style.tie hx
  have hnormal : (Binary64.shortest style.tie x.magnitude).IsNormal :=
    hm ▸ Decimal.isNormal_normal _ _
  have hdecimal := Decimal.decimal_numeral x.negative style (by decide) hnormal
  have hnegative : (x.numeral style).negative = x.negative := by
    unfold Binary64.numeral Decimal.numeral Decimal.positional Decimal.scientific
    split_ifs <;> rfl
  rw [float?, hnegative, Binary64.numeral, hdecimal, hround, Option.map_some,
    Binary64.ofMagnitude_magnitude]

theorem ofNumeral?_ofInt {n : Int} (hlow : -(1 <<< 63 : Nat) ≤ n) (hhigh : n < UInt64.size) :
    ofNumeral? (Numeral.ofInt n) = some (int n) := by
  have hk : Nat.ofDigitChars 10 (Numeral.ofInt n).whole 0 = n.natAbs :=
    Nat.ofDigitChars_ten_toDigits
  have hi : (Numeral.ofInt n).isInteger = true := rfl
  have hneg : (Numeral.ofInt n).negative = decide (n < 0) := rfl
  simp only [ofNumeral?, hk, hi, hneg, Bool.not_true, Bool.false_eq_true, if_false,
    decide_eq_true_eq, Bool.or_eq_true]
  by_cases hn : n < 0
  · have hfit : ¬(n.natAbs = 0 ∨ 1 <<< 63 < n.natAbs) := by omega
    have habs : -(n.natAbs : Int) = n := by omega
    rw [if_pos hn, if_neg hfit, habs]
  · have hfit : n.natAbs < UInt64.size := by omega
    have habs : (n.natAbs : Int) = n := by omega
    rw [if_neg hn, if_pos hfit, habs]

theorem ofNumeral?_numeral {n : Number} (h : n.Writable) : ofNumeral? n.numeral = some n := by
  cases n with
  | int n => exact ofNumeral?_ofInt h.1 h.2
  | float x =>
    have hi : (x.numeral style).isInteger = false := Decimal.isInteger_numeral _ _
    rw [numeral, ofNumeral?, hi, if_pos (by rfl), float?_numeral h]

theorem wellFormed_numeral {n : Number} (h : n.Writable) : n.numeral.WellFormed := by
  cases n with
  | int n => exact Numeral.ofInt_wellFormed n
  | float x =>
    have hx : x.magnitude < Binary64.infinity := of_decide_eq_true h
    obtain ⟨⟨m, e, hm⟩, -⟩ := Binary64.shortest_spec style.tie hx
    rw [numeral, Binary64.numeral, hm]
    exact Decimal.wellFormed_numeral _ (.inr rfl) (Decimal.isNormal_normal _ _)
      Decimal.isDigit_ofNat

end Number

end PeerMesh.Json
