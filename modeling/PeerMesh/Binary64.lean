import PeerMesh.Decimal

namespace PeerMesh

/-- A 64-bit floating-point number by its bit pattern, so that two numbers are one exactly when
their patterns are. -/
structure Binary64 where
  bits : UInt64
  deriving DecidableEq

namespace Binary64

def negative (x : Binary64) : Bool :=
  decide (1 <<< 63 ≤ x.bits.toNat)

/-- The pattern without its sign. Patterns are ordered as the sizes of their values are. -/
def magnitude (x : Binary64) : Nat :=
  x.bits.toNat % (1 <<< 63)

def infinity : Nat :=
  2047 <<< 52

def ofMagnitude (negative : Bool) (n : Nat) : Binary64 :=
  ⟨UInt64.ofNat (if negative then (1 <<< 63) + n else n)⟩

def isFinite (x : Binary64) : Bool :=
  decide (x.magnitude < infinity)

def isNaN (x : Binary64) : Bool :=
  decide (infinity < x.magnitude)

def eqv (x y : Binary64) : Bool :=
  !x.isNaN && !y.isNaN && (x.bits == y.bits || x.magnitude == 0 && y.magnitude == 0)

/-- A finite value in units of `2 ^ -1074`, of which every finite value is a whole multiple. -/
def units (n : Nat) : Nat :=
  if n < 1 <<< 52 then n else ((1 <<< 52) + n % (1 <<< 52)) <<< ((n >>> 52) - 1)

end Binary64

namespace Binary64

def roundQuotient (tie : Tie) (a b : Nat) : Nat :=
  if 2 * (a % b) < b then a / b
  else if b < 2 * (a % b) then a / b + 1
  else
    match tie with
    | .even => a / b + a / b % 2
    | .upper => a / b + 1

/-- The pattern nearest to `a / b` units. The last of 53 significant bits has the weight
`2 ^ scale`; a carry out of them gives the pattern of the next power of two. -/
def nearest (a b : Nat) : Nat :=
  let scale := (a / b).log2 - 52
  (scale <<< 52) + roundQuotient .even a (b <<< scale)

def ofInt (n : Int) : Binary64 :=
  ofMagnitude (decide (n < 0)) (min (nearest (n.natAbs <<< 1074) 1) infinity)

end Binary64

def Decimal.quotient (d : Decimal) : Nat × Nat :=
  if d.exponent < 0 then (d.significand <<< 1074, Nat.pow 10 d.exponent.natAbs)
  else ((d.significand * Nat.pow 10 d.exponent.natAbs) <<< 1074, 1)

/-- The nearest finite pattern, if it is not beyond all of them. Numbers whose point lies far
outside the range of the patterns are settled without computing their powers of ten. -/
def Decimal.magnitude? (d : Decimal) : Option Nat :=
  if d.digits = [] then some 0
  else if 310 < d.point then none
  else if d.point < -330 then some 0
  else
    let n := Binary64.nearest d.quotient.1 d.quotient.2
    if n < Binary64.infinity then some n else none

namespace Binary64

def scaled (n : Nat) (e : Int) : Nat × Nat :=
  if e < 0 then (units n * Nat.pow 10 e.natAbs, 1 <<< 1074)
  else (units n, Nat.pow 10 e.natAbs <<< 1074)

def point (n : Nat) : Int :=
  let estimate := ((units n).log2 - 1074 : Int) * 30103 / 100000
  let fits (k : Int) : Bool := (scaled n k).1 < (scaled n k).2
  if fits estimate then estimate else if fits (estimate + 1) then estimate + 1 else estimate + 2

def roundsTo (n : Nat) (d : Decimal) : Bool :=
  d.magnitude? == some n

/-- The nearest of the two neighbours of the value among the multiples of `10 ^ e`, if any of them
rounds back to it. -/
def onGrid? (tie : Tie) (n : Nat) (e : Int) : Option Decimal :=
  let (a, b) := scaled n e
  let low := Decimal.ofNat (a / b) e
  let high := Decimal.ofNat (a / b + 1) e
  if roundsTo n low && roundsTo n high then
    some (if roundQuotient tie a b = a / b then low else high)
  else if roundsTo n low then some low
  else if roundsTo n high then some high
  else none

def exact (n : Nat) : Decimal :=
  Decimal.ofNat (units n * Nat.pow 5 1074) (-1074)

/-- The decimal number with the fewest digits that rounds to pattern `n`, and of those the nearest
to its value; seventeen digits are always enough. -/
def shortest (tie : Tie) (n : Nat) : Decimal :=
  if n = 0 then ⟨[], 0⟩
  else
    ((List.range 17).findSome? fun (p : Nat) => onGrid? tie n (point n - (p + 1 : Nat))).getD
      (exact n)

def numeral (style : Decimal.Style) (x : Binary64) : Numeral :=
  (shortest style.tie x.magnitude).numeral style x.negative

end Binary64

end PeerMesh
