import PeerMesh.Json.Compact

namespace PeerMesh

theorem utf8?_utf8 (s : String) : utf8? (utf8 s) = some s := by
  have h : (⟨(utf8 s).toArray⟩ : ByteArray) = s.toByteArray := by
    simp [utf8]
  unfold utf8?
  rw [h, String.fromUTF8?, dif_pos s.isValidUTF8]
  rfl

namespace Json

theorem unescapeOnto_plain {b : UInt8} (h : b ≠ 0x5c) (done body : Bytes) :
    unescapeOnto done (b :: body) = unescapeOnto (b :: done) body := by
  rw [unescapeOnto, if_neg h]

theorem unescapeOnto_escape {body out rest : Bytes} (h : readEscape body = some (out, rest))
    (done : Bytes) :
    unescapeOnto done (0x5c :: body) = unescapeOnto (out.reverse ++ done) rest := by
  rw [unescapeOnto, if_pos rfl]
  split
  · simp_all
  · next h' =>
    rw [h] at h'
    cases h'
    rfl

theorem hexQuad?_hexDigit : ∀ n < 32,
    hexQuad? 0x30 0x30 (hexDigit (n / 16)) (hexDigit (n % 16)) = some n := by
  decide

theorem encodeScalar_control : ∀ n < 32, encodeScalar n = [UInt8.ofNat n] := by
  decide

theorem readEscape_control {b : UInt8} (h : b < 0x20) (rest : Bytes) :
    readEscape
        (0x75 :: 0x30 :: 0x30 :: hexDigit (b.toNat / 16) :: hexDigit (b.toNat % 16) :: rest) =
      some ([b], rest) := by
  have hn : b.toNat < 32 := h
  have hq := hexQuad?_hexDigit b.toNat hn
  have hs := encodeScalar_control b.toNat hn
  rw [UInt8.ofNat_toNat] at hs
  have hh : isHighSurrogate b.toNat = false := by simp [isHighSurrogate]; omega
  have hl : isLowSurrogate b.toNat = false := by simp [isLowSurrogate]; omega
  simp [readEscape, readQuad, hq, hs, hh, hl]

theorem readEscape_short {b c : UInt8} (h : shortEscape? b = some c) (hu : b ≠ 0x75)
    (rest : Bytes) : readEscape (b :: rest) = some ([c], rest) := by
  rw [readEscape, if_neg hu, h]
  rfl

theorem unescapeOnto_escapeByte (b : UInt8) (done rest : Bytes) :
    unescapeOnto done (escapeByte b ++ rest) = unescapeOnto (b :: done) rest := by
  unfold escapeByte
  iterate 7
    split
    · subst b
      exact unescapeOnto_escape (readEscape_short rfl (by decide) rest) done
  split
  · next h => exact unescapeOnto_escape (readEscape_control h rest) done
  · next h _ _ _ _ _ _ => exact unescapeOnto_plain h done rest

theorem unescapeOnto_escape_bytes (bs done : Bytes) :
    unescapeOnto done (escape bs) = some (done.reverse ++ bs) := by
  induction bs generalizing done with
  | nil => simp [escape, unescapeOnto]
  | cons b bs ih =>
    have h := unescapeOnto_escapeByte b done (escape bs)
    rw [ih] at h
    simpa [escape] using h

theorem unescape_escape (bs : Bytes) : unescape (escape bs) = some bs :=
  unescapeOnto_escape_bytes bs []

theorem stringOfBody?_body (s : String) : stringOfBody? (body s) = some s := by
  rw [stringOfBody?, body, unescape_escape, Option.bind_some, utf8?_utf8]

theorem hexValue?_hexDigit : ∀ n < 16, (hexValue? (hexDigit n)).isNone = false := by
  decide

theorem scanBody_escapeByte (b : UInt8) (done rest : Bytes) :
    scanBody done .plain (escapeByte b ++ rest) =
      scanBody ((escapeByte b).reverse ++ done) .plain rest := by
  unfold escapeByte
  iterate 7
    split
    · rfl
  split
  · next h =>
    have hn : b.toNat < 32 := h
    have h₁ := hexValue?_hexDigit (b.toNat / 16) (by omega)
    have h₀ := hexValue?_hexDigit (b.toNat % 16) (by omega)
    have hz : (hexValue? 0x30).isNone = false := by decide
    simp [scanBody, h₁, h₀, hz]
  · next hq hb _ _ _ _ _ h => simp [scanBody, hq, hb, h]

theorem scanBody_escape (bs done rest : Bytes) :
    scanBody done .plain (escape bs ++ 0x22 :: rest) = some (done.reverse ++ escape bs, rest) := by
  induction bs generalizing done with
  | nil => simp [escape, scanBody]
  | cons b bs ih =>
    have h := scanBody_escapeByte b done (escape bs ++ 0x22 :: rest)
    rw [ih] at h
    simpa [escape] using h

end Json

end PeerMesh
