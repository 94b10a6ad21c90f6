import PeerMesh.Basic
import PeerMesh.Binary64
import PeerMesh.Json

namespace PeerMesh.Json

def style : Decimal.Style where
  lowest := -4
  highest := 16
  sign := ['+']
  tie := .even

namespace Number

/-- A numeral beyond the largest float stands for nothing, any other one for the float nearest to
it. That a reader of JSON rounds correctly is an assumption: one that only does its best may miss
that float by one place. -/
def float? (n : Numeral) : Option Number :=
  n.decimal.magnitude?.map fun m => float (Binary64.ofMagnitude n.negative m)

/-- An integer numeral stands for a whole number if that fits 64 bits; `-0` is the negative zero. -/
def ofNumeral? (n : Numeral) : Option Number :=
  let k := Nat.ofDigitChars 10 n.whole 0
  if !n.isInteger then float? n
  else if n.negative then
    if k = 0 || (1 <<< 63) < k then float? n else some (int (-k))
  else
    if k < UInt64.size then some (int k) else float? n

def numeral : Number → Numeral
  | int n => Numeral.ofInt n
  | float x => x.numeral style

end Number

def ascii (c : Char) : UInt8 :=
  UInt8.ofNat c.toNat

def isDigit (b : UInt8) : Bool :=
  0x30 ≤ b && b ≤ 0x39

def digits (bs : Bytes) : List Char :=
  (bs.takeWhile isDigit).map fun b => Char.ofNat b.toNat

def afterDigits (bs : Bytes) : Bytes :=
  bs.dropWhile isDigit

def scanWhole (bs : Bytes) : Option (List Char × Bytes) :=
  match bs with
  | [] => none
  | b :: rest =>
    if b = ascii '0' then some (['0'], rest)
    else if isDigit b then some (digits bs, afterDigits bs)
    else none

def scanFraction (bs : Bytes) : Option (List Char × Bytes) :=
  match bs with
  | [] => some ([], [])
  | b :: rest =>
    if b = ascii '.' then
      if digits rest = [] then none else some (digits rest, afterDigits rest)
    else some ([], bs)

def scanSign (bs : Bytes) : List Char × Bytes :=
  match bs with
  | [] => ([], [])
  | b :: rest =>
    if b = ascii '-' then (['-'], rest)
    else if b = ascii '+' then (['+'], rest)
    else ([], bs)

def scanExponent (bs : Bytes) : Option ((List Char × List Char) × Bytes) :=
  match bs with
  | [] => some (([], []), [])
  | b :: rest =>
    if b = ascii 'e' ∨ b = ascii 'E' then
      let (sign, rest) := scanSign rest
      if digits rest = [] then none else some ((sign, digits rest), afterDigits rest)
    else some (([], []), bs)

def scanUnsigned (negative : Bool) (bs : Bytes) : Option (Numeral × Bytes) := do
  let (whole, bs) ← scanWhole bs
  let (fraction, bs) ← scanFraction bs
  let ((sign, exponent), bs) ← scanExponent bs
  return (⟨negative, whole, fraction, sign, exponent⟩, bs)

def scanNumeral (bs : Bytes) : Option (Numeral × Bytes) :=
  match bs with
  | [] => none
  | b :: rest => if b = ascii '-' then scanUnsigned true rest else scanUnsigned false bs

end PeerMesh.Json
