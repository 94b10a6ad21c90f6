import PeerMesh.Json.Escape
import PeerMesh.Json.Number

namespace PeerMesh.Json

inductive Scalar
  | null
  | bool (b : Bool)
  | number (n : Numeral)
  | string (body : Bytes)

inductive Token
  | openArray
  | closeArray
  | openObject
  | closeObject
  | colon
  | comma
  | scalar (s : Scalar)

/-- Where the next byte of a string's body stands: in plain text, behind a backslash, or in front of
hexadecimal digits that are still due. -/
inductive Position
  | plain
  | escape
  | hex (due : Nat)

/-- The body of a string up to its closing quotation mark, and what follows that. Escapes have the
right form, and control characters do not occur. -/
def scanBody (done : Bytes) : Position → Bytes → Option (Bytes × Bytes)
  | _, [] => none
  | .plain, b :: rest =>
    if b = 0x22 then some (done.reverse, rest)
    else if b = 0x5c then scanBody (b :: done) .escape rest
    else if b < 0x20 then none
    else scanBody (b :: done) .plain rest
  | .escape, b :: rest =>
    if b = 0x75 then scanBody (b :: done) (.hex 3) rest
    else if (shortEscape? b).isSome then scanBody (b :: done) .plain rest
    else none
  | .hex due, b :: rest =>
    if (hexValue? b).isNone then none
    else match due with
      | 0 => scanBody (b :: done) .plain rest
      | due + 1 => scanBody (b :: done) (.hex due) rest

def afterWord : Bytes → Bytes → Option Bytes
  | [], rest => some rest
  | _ :: _, [] => none
  | w :: word, b :: rest => if b = w then afterWord word rest else none

def isBlank (b : UInt8) : Bool :=
  b == 0x20 || b == 0x09 || b == 0x0a || b == 0x0d

def mark? (b : UInt8) : Option Token :=
  if b = ascii '[' then some .openArray
  else if b = ascii ']' then some .closeArray
  else if b = ascii '{' then some .openObject
  else if b = ascii '}' then some .closeObject
  else if b = ascii ':' then some .colon
  else if b = ascii ',' then some .comma
  else none

def scanScalar (b : UInt8) (rest : Bytes) : Option (Scalar × Bytes) :=
  if b = ascii '"' then (scanBody [] .plain rest).map fun (body, rest) => (.string body, rest)
  else if b = ascii 'n' then (afterWord (utf8 "ull") rest).map (.null, ·)
  else if b = ascii 't' then (afterWord (utf8 "rue") rest).map (.bool true, ·)
  else if b = ascii 'f' then (afterWord (utf8 "alse") rest).map (.bool false, ·)
  else (scanNumeral (b :: rest)).map fun (n, rest) => (.number n, rest)

def scanToken (b : UInt8) (rest : Bytes) : Option (Token × Bytes) :=
  match mark? b with
  | some t => some (t, rest)
  | none => (scanScalar b rest).map fun (s, rest) => (.scalar s, rest)

theorem length_of_scanBody {bs done body rest : Bytes} {p : Position}
    (h : scanBody done p bs = some (body, rest)) : rest.length < bs.length := by
  induction bs generalizing done p with
  | nil => cases p <;> cases h
  | cons b bs ih =>
    have hstep {done' : Bytes} {p' : Position} (h : scanBody done' p' bs = some (body, rest)) :
        rest.length < (b :: bs).length := Nat.lt_succ_of_lt (ih h)
    cases p with
    | plain =>
      simp only [scanBody] at h
      split at h
      · cases h
        exact Nat.lt_succ_self _
      · split at h
        · exact hstep h
        · split at h
          · cases h
          · exact hstep h
    | escape =>
      simp only [scanBody] at h
      split at h
      · exact hstep h
      · split at h
        · exact hstep h
        · cases h
    | hex due =>
      simp only [scanBody] at h
      split at h
      · cases h
      · split at h <;> exact hstep h

theorem length_of_afterWord {word bs rest : Bytes} (h : afterWord word bs = some rest) :
    rest.length ≤ bs.length := by
  induction word generalizing bs with
  | nil =>
    cases h
    exact Nat.le_refl _
  | cons w word ih =>
    cases bs with
    | nil => cases h
    | cons b bs =>
      simp only [afterWord] at h
      split at h
      · exact Nat.le_succ_of_le (ih h)
      · cases h

theorem length_afterDigits_le (bs : Bytes) : (afterDigits bs).length ≤ bs.length :=
  (List.dropWhile_suffix _).length_le

theorem length_of_scanWhole {bs rest : Bytes} {ds : List Char}
    (h : scanWhole bs = some (ds, rest)) : rest.length < bs.length := by
  cases bs with
  | nil => cases h
  | cons b bs =>
    simp only [scanWhole] at h
    split at h
    · cases h
      exact Nat.lt_succ_self _
    · split at h
      next hd =>
        cases h
        simp only [afterDigits, List.dropWhile_cons, hd, if_true]
        exact Nat.lt_succ_of_le (length_afterDigits_le bs)
      · cases h

theorem length_of_scanFraction {bs rest : Bytes} {ds : List Char}
    (h : scanFraction bs = some (ds, rest)) : rest.length ≤ bs.length := by
  cases bs with
  | nil =>
    cases h
    exact Nat.le_refl _
  | cons b bs =>
    simp only [scanFraction] at h
    split at h
    · split at h
      · cases h
      · cases h
        exact Nat.le_succ_of_le (length_afterDigits_le bs)
    · cases h
      exact Nat.le_refl _

theorem length_scanSign_le (bs : Bytes) : (scanSign bs).2.length ≤ bs.length := by
  cases bs with
  | nil => exact Nat.le_refl _
  | cons b bs =>
    simp only [scanSign]
    split
    · exact Nat.le_succ _
    · split
      · exact Nat.le_succ _
      · exact Nat.le_refl _

theorem length_of_scanExponent {bs rest : Bytes} {e : List Char × List Char}
    (h : scanExponent bs = some (e, rest)) : rest.length ≤ bs.length := by
  cases bs with
  | nil =>
    cases h
    exact Nat.le_refl _
  | cons b bs =>
    simp only [scanExponent] at h
    split at h
    · split at h
      · cases h
      · cases h
        exact Nat.le_succ_of_le (Nat.le_trans (length_afterDigits_le _) (length_scanSign_le bs))
    · cases h
      exact Nat.le_refl _

theorem length_of_scanUnsigned {negative : Bool} {bs rest : Bytes} {n : Numeral}
    (h : scanUnsigned negative bs = some (n, rest)) : rest.length < bs.length := by
  simp only [scanUnsigned, Option.bind_eq_bind, Option.bind_eq_some_iff] at h
  obtain ⟨w, hw, f, hf, e, he, h⟩ := h
  cases h
  exact Nat.lt_of_le_of_lt (length_of_scanExponent he)
    (Nat.lt_of_le_of_lt (length_of_scanFraction hf) (length_of_scanWhole hw))

theorem length_of_scanNumeral {bs rest : Bytes} {n : Numeral}
    (h : scanNumeral bs = some (n, rest)) : rest.length < bs.length := by
  cases bs with
  | nil => cases h
  | cons b bs =>
    simp only [scanNumeral] at h
    split at h
    · exact Nat.lt_succ_of_lt (length_of_scanUnsigned h)
    · exact length_of_scanUnsigned h

theorem length_of_scanScalar {b : UInt8} {bs rest : Bytes} {s : Scalar}
    (h : scanScalar b bs = some (s, rest)) : rest.length ≤ bs.length := by
  unfold scanScalar at h
  split at h
  · obtain ⟨_, hs, he⟩ := Option.map_eq_some_iff.mp h
    cases he
    exact Nat.le_of_lt (length_of_scanBody hs)
  iterate 3
    split at h
    · obtain ⟨_, hs, he⟩ := Option.map_eq_some_iff.mp h
      cases he
      exact length_of_afterWord hs
  obtain ⟨_, hs, he⟩ := Option.map_eq_some_iff.mp h
  cases he
  exact Nat.le_of_lt_succ (length_of_scanNumeral hs)

theorem length_of_scanToken {b : UInt8} {bs rest : Bytes} {t : Token}
    (h : scanToken b bs = some (t, rest)) : rest.length ≤ bs.length := by
  unfold scanToken at h
  split at h
  · cases h
    exact Nat.le_refl _
  · obtain ⟨_, hs, he⟩ := Option.map_eq_some_iff.mp h
    cases he
    exact length_of_scanScalar hs

/-- The tokens of a text behind those in `done`, which are in reverse. -/
def tokensOnto (done : List Token) (bs : Bytes) : Option (List Token) :=
  match bs with
  | [] => some done.reverse
  | b :: rest =>
    if isBlank b then tokensOnto done rest
    else
      match _h : scanToken b rest with
      | none => none
      | some (t, rest) => tokensOnto (t :: done) rest
termination_by bs.length
decreasing_by
  · exact Nat.lt_succ_self _
  · exact Nat.lt_succ_of_le (length_of_scanToken ‹_›)

def tokens? (bs : Bytes) : Option (List Token) :=
  tokensOnto [] bs

end PeerMesh.Json
