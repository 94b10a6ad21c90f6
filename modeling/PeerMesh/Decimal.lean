namespace PeerMesh

/-- The natural number that the digits spell, scaled by `10 ^ exponent`. -/
structure Decimal where
  digits : List Char
  exponent : Int
  deriving DecidableEq

inductive Tie
  | even
  | upper
  deriving DecidableEq

namespace Decimal

/-- The one form of a number that neither starts nor ends with a zero. Zero has no digits. -/
def normal (digits : List Char) (exponent : Int) : Decimal :=
  let ds := digits.dropWhile (· == '0')
  let core := (ds.reverse.dropWhile (· == '0')).reverse
  if core = [] then ⟨[], 0⟩
  else ⟨core, exponent + (ds.length - core.length : Nat)⟩

def ofNat (n : Nat) (exponent : Int) : Decimal :=
  normal (Nat.toDigits 10 n) exponent

def significand (d : Decimal) : Nat :=
  Nat.ofDigitChars 10 d.digits 0

def point (d : Decimal) : Int :=
  d.digits.length + d.exponent

end Decimal

/-- A number as it is written. There is a point exactly if digits follow it, and an exponent mark
exactly if digits follow that. -/
structure Numeral where
  negative : Bool
  whole : List Char
  fraction : List Char
  sign : List Char
  exponent : List Char

namespace Numeral

def chars (n : Numeral) : List Char :=
  (if n.negative then ['-'] else []) ++ n.whole ++
    (if n.fraction = [] then [] else '.' :: n.fraction) ++
    (if n.exponent = [] then [] else 'e' :: (n.sign ++ n.exponent))

def isInteger (n : Numeral) : Bool :=
  n.fraction.isEmpty && n.exponent.isEmpty

def scale (n : Numeral) : Int :=
  if n.sign = ['-'] then -(Nat.ofDigitChars 10 n.exponent 0 : Nat)
  else (Nat.ofDigitChars 10 n.exponent 0 : Nat)

def decimal (n : Numeral) : Decimal :=
  .normal (n.whole ++ n.fraction) (n.scale - n.fraction.length)

def ofInt (n : Int) : Numeral where
  negative := decide (n < 0)
  whole := Nat.toDigits 10 n.natAbs
  fraction := []
  sign := []
  exponent := []

end Numeral

namespace Decimal

/-- From where to where the point may fall for a number to be written without an exponent, the
sign of an exponent that is not negative, and which digits stand for a number halfway between two
equally short ones. -/
structure Style where
  lowest : Int
  highest : Int
  sign : List Char
  tie : Tie

def positional (negative : Bool) (d : Decimal) : Numeral :=
  if d.point ≤ 0 then
    ⟨negative, ['0'], List.replicate d.point.natAbs '0' ++ d.digits, [], []⟩
  else if d.digits.length ≤ d.point.natAbs then
    ⟨negative, d.digits ++ List.replicate (d.point.natAbs - d.digits.length) '0', ['0'], [], []⟩
  else
    ⟨negative, d.digits.take d.point.natAbs, d.digits.drop d.point.natAbs, [], []⟩

def scientific (style : Style) (negative : Bool) (d : Decimal) : Numeral :=
  let e := d.point - 1
  ⟨negative, d.digits.take 1, d.digits.drop 1, if e < 0 then ['-'] else style.sign,
    Nat.toDigits 10 e.natAbs⟩

def numeral (style : Style) (negative : Bool) (d : Decimal) : Numeral :=
  if d.digits = [] then ⟨negative, ['0'], ['0'], [], []⟩
  else if style.lowest ≤ d.point ∧ d.point ≤ style.highest then positional negative d
  else scientific style negative d

end Decimal

end PeerMesh
