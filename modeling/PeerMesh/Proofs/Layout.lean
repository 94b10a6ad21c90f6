import Mathlib.Data.List.Chain
import PeerMesh.Proofs.Number
import PeerMesh.Proofs.Text

namespace PeerMesh.Json

/-- What may stand between two quotation marks. Control characters, quotation marks and backslashes
do so only as escapes. -/
inductive IsBody : Bytes → Prop
  | nil : IsBody []
  | plain {b : UInt8} {rest : Bytes} (hquote : b ≠ 0x22) (hescape : b ≠ 0x5c) (hlow : ¬b < 0x20)
    (h : IsBody rest) : IsBody (b :: rest)
  | short {b : UInt8} {rest : Bytes} (hb : (shortEscape? b).isSome) (h : IsBody rest) :
    IsBody (0x5c :: b :: rest)
  | hex {ds rest : Bytes} (hn : ds.length = 4) (hd : ∀ d ∈ ds, (hexValue? d).isSome)
    (h : IsBody rest) : IsBody (0x5c :: 0x75 :: (ds ++ rest))

theorem scanBody_digits {ds : Bytes} (hd : ∀ d ∈ ds, (hexValue? d).isSome) (done rest : Bytes) :
    ∀ due, ds.length = due + 1 →
      scanBody done (.hex due) (ds ++ rest) = scanBody (ds.reverse ++ done) .plain rest := by
  induction ds generalizing done with
  | nil =>
    intro due hn
    cases hn
  | cons d ds ih =>
    obtain ⟨hd, hds⟩ := List.forall_mem_cons.mp hd
    have hsome : (hexValue? d).isNone = false := by simp [hd]
    intro due hn
    cases due with
    | zero =>
      obtain rfl : ds = [] := List.length_eq_zero_iff.mp (by simpa using hn)
      simp [scanBody, hsome]
    | succ due =>
      have hnext := ih hds (d :: done) due (by simpa using hn)
      simp [scanBody, hsome, hnext]

theorem IsBody.scan {body : Bytes} (h : IsBody body) (done rest : Bytes) :
    scanBody done .plain (body ++ 0x22 :: rest) = some (done.reverse ++ body, rest) := by
  induction h generalizing done with
  | nil => simp [scanBody]
  | plain hquote hescape hlow _ ih => simp [scanBody, hquote, hescape, hlow, ih]
  | @short b _ hb _ ih =>
    have hu : b ≠ 0x75 := by
      rintro rfl
      exact absurd hb (by decide)
    simp [scanBody, hu, hb, ih]
  | hex hn hd _ ih => simp [scanBody, scanBody_digits hd _ _ 3 hn, ih]

/-- What is left of a body when the scanner is at a position inside. -/
def Position.Goes : Position → Bytes → Prop
  | plain, t => IsBody t
  | escape, t => IsBody (0x5c :: t)
  | hex due, t => ∃ ds rest, t = ds ++ rest ∧ ds.length = due + 1 ∧
      (∀ d ∈ ds, (hexValue? d).isSome) ∧ IsBody rest

theorem goes_of_scanBody {bs done body rest : Bytes} {p : Position}
    (h : scanBody done p bs = some (body, rest)) :
    ∃ t, p.Goes t ∧ body = done.reverse ++ t ∧ bs = t ++ 0x22 :: rest := by
  induction bs generalizing done p with
  | nil => cases p <;> cases h
  | cons b bs ih =>
    have hstep {p' : Position} (h : scanBody (b :: done) p' bs = some (body, rest))
        (hgoes : ∀ t, p'.Goes t → p.Goes (b :: t)) :
        ∃ t, p.Goes t ∧ body = done.reverse ++ t ∧ b :: bs = t ++ 0x22 :: rest := by
      obtain ⟨t, ht, hbody, hbs⟩ := ih h
      exact ⟨b :: t, hgoes t ht, by simp [hbody], by simp [hbs]⟩
    cases p with
    | plain =>
      simp only [scanBody] at h
      split at h
      next hquote =>
        cases h
        exact ⟨[], .nil, by simp, by simp [hquote]⟩
      next hquote =>
        split at h
        next hescape =>
          subst hescape
          exact hstep h fun t ht => ht
        next hescape =>
          split at h
          next => cases h
          next hlow => exact hstep h fun t ht => .plain hquote hescape hlow ht
    | escape =>
      simp only [scanBody] at h
      split at h
      next hu =>
        subst hu
        refine hstep h fun t ht => ?_
        obtain ⟨ds, rest, rfl, hn, hd, hrest⟩ := ht
        exact .hex hn hd hrest
      next =>
        split at h
        next hb => exact hstep h fun t ht => .short hb ht
        next => cases h
    | hex due =>
      simp only [scanBody] at h
      split at h
      next => cases h
      next hb =>
        have hb : (hexValue? b).isSome := Option.isSome_iff_ne_none.mpr (by simpa using hb)
        split at h
        next =>
          exact hstep h fun t ht => ⟨[b], t, rfl, rfl, by simpa using hb, ht⟩
        next due =>
          refine hstep h fun t ht => ?_
          obtain ⟨ds, rest, rfl, hn, hd, hrest⟩ := ht
          exact ⟨b :: ds, rest, rfl, by simp [hn], List.forall_mem_cons.mpr ⟨hb, hd⟩, hrest⟩

inductive ScalarText : Scalar → Bytes → Prop
  | null : ScalarText .null (utf8 "null")
  | true : ScalarText (.bool true) (utf8 "true")
  | false : ScalarText (.bool false) (utf8 "false")
  | number {n : Numeral} {text : Bytes} (h : NumeralText n text) : ScalarText (.number n) text
  | string {body : Bytes} (h : IsBody body) :
    ScalarText (.string body) (ascii '"' :: (body ++ [ascii '"']))

inductive TokenText : Token → Bytes → Prop
  | mark {b : UInt8} {t : Token} (h : mark? b = some t) : TokenText t [b]
  | scalar {s : Scalar} {text : Bytes} (h : ScalarText s text) : TokenText (.scalar s) text

def Token.IsScalar : Token → Prop
  | scalar _ => True
  | _ => False

theorem mark_of_eq_some {b : UInt8} {t : Token} (h : mark? b = some t) :
    isBlank b = false ∧ isDigit b = false ∧ b ≠ ascii '.' ∧ b ≠ ascii 'e' ∧ b ≠ ascii 'E' := by
  unfold mark? at h
  iterate 6
    split at h
    next hb =>
      rw [hb]
      decide
  cases h

theorem stops_blank {b : UInt8} (h : isBlank b = true) (rest : Bytes) : Stops (b :: rest) := by
  intro c hc
  cases hc
  simp only [isBlank, Bool.or_eq_true, beq_iff_eq] at h
  obtain ((rfl | rfl) | rfl) | rfl := h <;> decide

theorem tokensOnto_blank {b : UInt8} (h : isBlank b = true) (done : List Token) (bs : Bytes) :
    tokensOnto done (b :: bs) = tokensOnto done bs := by
  rw [tokensOnto, if_pos h]

theorem tokensOnto_of_scanToken {b : UInt8} {bs rest : Bytes} {t : Token} (hb : isBlank b = false)
    (h : scanToken b bs = some (t, rest)) (done : List Token) :
    tokensOnto done (b :: bs) = tokensOnto (t :: done) rest := by
  rw [tokensOnto, hb, if_neg Bool.false_ne_true]
  split
  · simp_all
  · next h' =>
    rw [h] at h'
    cases h'
    rfl

theorem scanToken_of_numeral {b : UInt8} {bs rest : Bytes} {n : Numeral}
    (hb : b = ascii '-' ∨ isDigit b = true) (h : scanNumeral (b :: bs) = some (n, rest)) :
    isBlank b = false ∧ scanToken b bs = some (.scalar (.number n), rest) := by
  have hne (x : UInt8) (hx : x ≠ ascii '-') (hd : isDigit x = false) : b ≠ x := by
    rintro rfl
    simp [hx, hd] at hb
  constructor
  · simp [isBlank, hne 0x20 (by decide) rfl, hne 0x09 (by decide) rfl, hne 0x0a (by decide) rfl,
      hne 0x0d (by decide) rfl]
  · rw [scanToken, mark?, if_neg (hne _ (by decide) rfl), if_neg (hne _ (by decide) rfl),
      if_neg (hne _ (by decide) rfl), if_neg (hne _ (by decide) rfl),
      if_neg (hne _ (by decide) rfl), if_neg (hne _ (by decide) rfl)]
    rw [scanScalar, if_neg (hne _ (by decide) rfl), if_neg (hne _ (by decide) rfl),
      if_neg (hne _ (by decide) rfl), if_neg (hne _ (by decide) rfl), h]
    rfl

/-- Only a number has to be followed by what it cannot go on into. -/
theorem tokensOnto_scalar {s : Scalar} {text : Bytes} (h : ScalarText s text) {rest : Bytes}
    (hr : Stops rest) (done : List Token) :
    tokensOnto done (text ++ rest) = tokensOnto (.scalar s :: done) rest := by
  cases h with
  | null => exact tokensOnto_of_scanToken rfl rfl done
  | true => exact tokensOnto_of_scanToken rfl rfl done
  | false => exact tokensOnto_of_scanToken rfl rfl done
  | number h =>
    have hscan := h.scan hr
    obtain ⟨b, bs, rfl, hb⟩ := h.exists_cons
    obtain ⟨hblank, htoken⟩ := scanToken_of_numeral hb hscan
    exact tokensOnto_of_scanToken hblank htoken done
  | @string body h =>
    have htoken : scanToken (ascii '"') (body ++ [ascii '"'] ++ rest) =
        some (.scalar (.string body), rest) := by
      rw [List.append_assoc]
      change ((scanBody [] .plain (body ++ 0x22 :: rest)).map _).map _ = _
      rw [h.scan]
      rfl
    exact tokensOnto_of_scanToken rfl htoken done

theorem tokensOnto_mark {b : UInt8} {t : Token} (h : mark? b = some t) (done : List Token)
    (bs : Bytes) : tokensOnto done (b :: bs) = tokensOnto (t :: done) bs :=
  tokensOnto_of_scanToken (mark_of_eq_some h).1 (by rw [scanToken, h]) done

/-- The texts of a row of tokens. -/
inductive Layout : List Token → Bytes → Prop
  | nil : Layout [] []
  | blank {b : UInt8} {ts : List Token} {bs : Bytes} (hb : isBlank b) (h : Layout ts bs) :
    Layout ts (b :: bs)
  | token {t : Token} {ts : List Token} {text bs : Bytes} (ht : TokenText t text)
    (h : Layout ts bs) : Layout (t :: ts) (text ++ bs)

def Separated (ts : List Token) : Prop :=
  ts.IsChain fun t u => ¬t.IsScalar ∨ ¬u.IsScalar

theorem Layout.stops {ts : List Token} {bs : Bytes} (h : Layout ts bs)
    (ht : ∀ t ∈ ts.head?, ¬t.IsScalar) : Stops bs := by
  cases h with
  | nil => simp [Stops]
  | blank hb h => exact stops_blank hb _
  | token htext h =>
    cases htext with
    | mark hmark =>
      intro b hb
      cases hb
      exact (mark_of_eq_some hmark).2
    | scalar h => exact absurd trivial (ht _ rfl)

theorem Layout.tokensOnto {ts : List Token} {bs : Bytes} (h : Layout ts bs) (hs : Separated ts)
    (done : List Token) : tokensOnto done bs = some (done.reverse ++ ts) := by
  induction h generalizing done with
  | nil => simp [Json.tokensOnto]
  | blank hb _ ih => rw [tokensOnto_blank hb, ih hs]
  | @token t ts text bs htext h ih =>
    have ih := ih hs.tail (t :: done)
    rw [List.reverse_cons, List.append_assoc] at ih
    cases htext with
    | mark hmark => exact (tokensOnto_mark hmark done bs).trans ih
    | scalar hscalar =>
      -- a number ends where it does because no scalar follows it
      have hstops : Stops bs := by
        refine h.stops fun u hu => ?_
        obtain ⟨us, rfl⟩ := List.head?_eq_some_iff.mp hu
        exact (List.isChain_cons_cons.mp hs).1.resolve_left fun h => h trivial
      exact (tokensOnto_scalar hscalar hstops done).trans ih

theorem afterWord_eq_some {word bs rest : Bytes} (h : afterWord word bs = some rest) :
    bs = word ++ rest := by
  induction word generalizing bs with
  | nil =>
    cases h
    rfl
  | cons w word ih =>
    cases bs with
    | nil => cases h
    | cons b bs =>
      simp only [afterWord] at h
      split at h
      next hb => rw [ih h, hb, List.cons_append]
      next => cases h

theorem text_of_scanScalar {b : UInt8} {bs rest : Bytes} {s : Scalar}
    (h : scanScalar b bs = some (s, rest)) :
    ∃ text, ScalarText s text ∧ b :: bs = text ++ rest := by
  unfold scanScalar at h
  split at h
  next hb =>
    obtain ⟨⟨body, rest⟩, hs, he⟩ := Option.map_eq_some_iff.mp h
    cases he
    obtain ⟨t, ht, rfl, rfl⟩ := goes_of_scanBody hs
    refine ⟨_, .string ht, ?_⟩
    rw [hb, List.cons_append, List.append_assoc]
    rfl
  split at h
  next hb =>
    obtain ⟨rest, hs, he⟩ := Option.map_eq_some_iff.mp h
    cases he
    exact ⟨_, .null, by rw [hb, afterWord_eq_some hs]; rfl⟩
  split at h
  next hb =>
    obtain ⟨rest, hs, he⟩ := Option.map_eq_some_iff.mp h
    cases he
    exact ⟨_, .true, by rw [hb, afterWord_eq_some hs]; rfl⟩
  split at h
  next hb =>
    obtain ⟨rest, hs, he⟩ := Option.map_eq_some_iff.mp h
    cases he
    exact ⟨_, .false, by rw [hb, afterWord_eq_some hs]; rfl⟩
  next =>
    obtain ⟨⟨n, rest⟩, hs, he⟩ := Option.map_eq_some_iff.mp h
    cases he
    obtain ⟨text, ht, hbs⟩ := numeralText_of_scan hs
    exact ⟨text, .number ht, hbs⟩

theorem text_of_scanToken {b : UInt8} {bs rest : Bytes} {t : Token}
    (h : scanToken b bs = some (t, rest)) :
    ∃ text, TokenText t text ∧ b :: bs = text ++ rest := by
  unfold scanToken at h
  split at h
  next hmark =>
    cases h
    exact ⟨[b], .mark hmark, rfl⟩
  next =>
    obtain ⟨⟨s, rest⟩, hs, he⟩ := Option.map_eq_some_iff.mp h
    cases he
    obtain ⟨text, ht, hbs⟩ := text_of_scanScalar hs
    exact ⟨text, .scalar ht, hbs⟩

theorem layout_of_tokensOnto {done ts : List Token} {bs : Bytes}
    (h : tokensOnto done bs = some ts) : ∃ us, ts = done.reverse ++ us ∧ Layout us bs := by
  fun_induction tokensOnto done bs with
  | case1 done =>
    cases h
    exact ⟨[], by simp, .nil⟩
  | case2 done b rest hb ih =>
    obtain ⟨us, rfl, hus⟩ := ih h
    exact ⟨us, rfl, .blank hb hus⟩
  | case3 => cases h
  | case4 done b bs hb t rest hscan ih =>
    obtain ⟨us, rfl, hus⟩ := ih h
    obtain ⟨text, ht, hbs⟩ := text_of_scanToken hscan
    exact ⟨t :: us, by simp, hbs ▸ .token ht hus⟩

theorem layout_of_tokens? {ts : List Token} {bs : Bytes} (h : tokens? bs = some ts) :
    Layout ts bs := by
  obtain ⟨us, rfl, hus⟩ := layout_of_tokensOnto h
  exact hus

/-- A text is taken apart into the tokens that it is a text of. -/
theorem Layout.tokens? {ts : List Token} {bs : Bytes} (h : Layout ts bs) (hs : Separated ts) :
    tokens? bs = some ts :=
  h.tokensOnto hs []

end PeerMesh.Json
