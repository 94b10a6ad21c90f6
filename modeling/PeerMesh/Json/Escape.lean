import PeerMesh.Basic

namespace PeerMesh.Json

def hexDigit (n : Nat) : UInt8 :=
  UInt8.ofNat (if n < 10 then 0x30 + n else 0x57 + n)

def hexValue? (b : UInt8) : Option Nat :=
  if 0x30 ≤ b && b ≤ 0x39 then some (b.toNat - 0x30)
  else if 0x61 ≤ b && b ≤ 0x66 then some (b.toNat - 0x57)
  else if 0x41 ≤ b && b ≤ 0x46 then some (b.toNat - 0x37)
  else none

/-- Escaped are the quotation mark, the backslash and the control characters; the short escapes are
used where there is one. -/
def escapeByte (b : UInt8) : Bytes :=
  if b = 0x22 then [0x5c, 0x22]
  else if b = 0x5c then [0x5c, 0x5c]
  else if b = 0x08 then [0x5c, 0x62]
  else if b = 0x09 then [0x5c, 0x74]
  else if b = 0x0a then [0x5c, 0x6e]
  else if b = 0x0c then [0x5c, 0x66]
  else if b = 0x0d then [0x5c, 0x72]
  else if b < 0x20 then
    [0x5c, 0x75, 0x30, 0x30, hexDigit (b.toNat / 16), hexDigit (b.toNat % 16)]
  else [b]

def escape (bs : Bytes) : Bytes :=
  bs.flatMap escapeByte

def shortEscape? (b : UInt8) : Option UInt8 :=
  if b = 0x22 ∨ b = 0x5c ∨ b = 0x2f then some b
  else if b = 0x62 then some 0x08
  else if b = 0x66 then some 0x0c
  else if b = 0x6e then some 0x0a
  else if b = 0x72 then some 0x0d
  else if b = 0x74 then some 0x09
  else none

def hexQuad? (a b c d : UInt8) : Option Nat := do
  return (((← hexValue? a) * 16 + (← hexValue? b)) * 16 + (← hexValue? c)) * 16 + (← hexValue? d)

def isHighSurrogate (n : Nat) : Bool :=
  0xd800 ≤ n && n < 0xdc00

def isLowSurrogate (n : Nat) : Bool :=
  0xdc00 ≤ n && n < 0xe000

def encodeScalar (n : Nat) : Bytes :=
  String.utf8EncodeChar (Char.ofNat n)

def readQuad : Bytes → Option (Nat × Bytes)
  | a :: b :: c :: d :: rest => (hexQuad? a b c d).map (·, rest)
  | _ => none

def readLow (high : Nat) : Bytes → Option (Bytes × Bytes)
  | 0x5c :: 0x75 :: rest =>
    match readQuad rest with
    | none => none
    | some (low, rest) =>
      if isLowSurrogate low then
        some (encodeScalar (0x10000 + (high - 0xd800) * 0x400 + (low - 0xdc00)), rest)
      else none
  | _ => none

/-- What an escape stands for, from behind its backslash. A surrogate counts only as one half of a
pair. -/
def readEscape : Bytes → Option (Bytes × Bytes)
  | [] => none
  | b :: rest =>
    if b = 0x75 then
      match readQuad rest with
      | none => none
      | some (n, rest) =>
        if isHighSurrogate n then readLow n rest
        else if isLowSurrogate n then none
        else some (encodeScalar n, rest)
    else (shortEscape? b).map fun c => ([c], rest)

theorem length_of_readQuad {bs rest : Bytes} {n : Nat} (h : readQuad bs = some (n, rest)) :
    rest.length < bs.length := by
  unfold readQuad at h
  split at h
  · obtain ⟨_, _, he⟩ := Option.map_eq_some_iff.mp h
    cases he
    simp only [List.length_cons]
    omega
  · cases h

theorem length_of_readLow {bs rest out : Bytes} {n : Nat} (h : readLow n bs = some (out, rest)) :
    rest.length < bs.length := by
  unfold readLow at h
  split at h
  · split at h
    · cases h
    · next hq =>
      have hl := length_of_readQuad hq
      split at h
      · obtain ⟨_, rfl⟩ := Prod.mk.inj (Option.some.inj h)
        simp only [List.length_cons]
        omega
      · cases h
  · cases h

theorem length_of_readEscape {bs rest out : Bytes} (h : readEscape bs = some (out, rest)) :
    rest.length < bs.length := by
  cases bs with
  | nil => cases h
  | cons b bs =>
    simp only [readEscape] at h
    split at h
    · split at h
      · cases h
      · next hq =>
        have hl := length_of_readQuad hq
        split at h
        · have hr := length_of_readLow h
          simp only [List.length_cons]
          omega
        · split at h
          · cases h
          · obtain ⟨_, rfl⟩ := Prod.mk.inj (Option.some.inj h)
            simp only [List.length_cons]
            omega
    · obtain ⟨_, _, he⟩ := Option.map_eq_some_iff.mp h
      cases he
      simp

def unescapeOnto (done body : Bytes) : Option Bytes :=
  match body with
  | [] => some done.reverse
  | b :: body =>
    if b = 0x5c then
      match _h : readEscape body with
      | none => none
      | some (out, rest) => unescapeOnto (out.reverse ++ done) rest
    else unescapeOnto (b :: done) body
termination_by body.length
decreasing_by
  · have := length_of_readEscape ‹_›
    simp only [List.length_cons]
    omega
  · simp

def unescape (body : Bytes) : Option Bytes :=
  unescapeOnto [] body

def stringOfBody? (body : Bytes) : Option String :=
  (unescape body).bind utf8?

end PeerMesh.Json
