import Scriptlet.Number

/-!
# The exact value of a number

Every finite double is a natural multiple of the unit `2 ^ (-1074)`, with a sign.  The pattern below the sign is
`scale * 2 ^ 52 + mantissa` and the value is `mantissa * 2 ^ scale` units; below `2 ^ 52` the mantissa is that of a
subnormal number and the scale is zero.

`Number.nearest` goes the other way: the number nearest to a quotient of naturals.
-/
namespace Scriptlet

/-- The quotient rounded to a natural number, a half to the even neighbour. -/
def roundDiv (num den : Nat) : Nat :=
  let q := num / den
  let r := num % den
  if 2 * r < den then q
  else if den < 2 * r then q + 1
  else q + q % 2

namespace Number

/-- How many times the unit has been doubled. -/
def scale (x : Number) : Nat := x.magnitude / pow2 52 - 1

def mantissa (x : Number) : Nat := x.magnitude - x.scale * pow2 52

/-- The absolute value in units of `2 ^ (-1074)`. -/
def units (x : Number) : Nat := x.mantissa * pow2 x.scale

/-- The unit's denominator. -/
def unitsPerOne : Nat := pow2 1074

def isZero (x : Number) : Bool := x.magnitude = 0

/-- Finite and without a fractional part. -/
def isIntegral (x : Number) : Bool := x.isFinite && x.units % unitsPerOne = 0

/-- The integral part of the absolute value. -/
def wholePart (x : Number) : Nat := x.units / unitsPerOne

/-- The pattern of the number nearest to `num / den`, a half going to the even pattern.  Past the largest finite
number it is that of infinity. -/
def nearestBits (num den : Nat) : Nat :=
  let scale := (num * unitsPerOne / den).log2 - 52
  min (scale * pow2 52 + roundDiv (num * unitsPerOne) (den * pow2 scale)) infinityBits

/-- The number nearest to `num / den`. -/
def nearest (num den : Nat) : Number := ofBits (UInt64.ofNat (nearestBits num den))

def ofNat (n : Nat) : Number := nearest n 1

end Number
end Scriptlet
