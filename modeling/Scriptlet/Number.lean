/-!
# Numbers

The language has one kind of number, the double.  A number is held as its bit pattern with all NaN patterns made one,
so that equality of `Number` is the language's own: zero and negative zero differ, and NaN equals itself.

Arithmetic and order are those of `Float`.  Reading and writing decimal text do not go through `Float` but through the
exact value (`Number.units`), a natural multiple of `2 ^ (-1074)`.
-/
namespace Scriptlet

/-- Two to the power `n`. -/
def pow2 (n : Nat) : Nat := Nat.pow 2 n

/-- Ten to the power `n`. -/
def pow10 (n : Nat) : Nat := Nat.pow 10 n

/-- The bits below the sign. -/
def magnitudeBits (bits : UInt64) : Nat := bits.toNat % pow2 63

/-- The magnitude of the two infinities.  Finite numbers are below it and NaN patterns above. -/
def infinityBits : Nat := 2047 * pow2 52

/-- The one pattern that stands for every NaN. -/
def nanBits : UInt64 := 0x7ff8000000000000

/-- A double, as its bit pattern. -/
structure Number where
  bits : UInt64
  one_nan : magnitudeBits bits ≤ infinityBits ∨ bits = nanBits
  deriving DecidableEq

namespace Number

def ofBits (bits : UInt64) : Number :=
  if h : magnitudeBits bits ≤ infinityBits then ⟨bits, .inl h⟩ else ⟨nanBits, .inr rfl⟩

def ofFloat (f : Float) : Number := ofBits f.toBits

def toFloat (x : Number) : Float := Float.ofBits x.bits

def magnitude (x : Number) : Nat := magnitudeBits x.bits

def isNegative (x : Number) : Bool := pow2 63 ≤ x.bits.toNat

def isNaN (x : Number) : Bool := infinityBits < x.magnitude

def isInfinite (x : Number) : Bool := x.magnitude = infinityBits

def isFinite (x : Number) : Bool := x.magnitude < infinityBits

def add (x y : Number) : Number := ofFloat (x.toFloat + y.toFloat)

def sub (x y : Number) : Number := ofFloat (x.toFloat - y.toFloat)

def mul (x y : Number) : Number := ofFloat (x.toFloat * y.toFloat)

def div (x y : Number) : Number := ofFloat (x.toFloat / y.toFloat)

def neg (x : Number) : Number := ofFloat (-x.toFloat)

/-- Strict order; false when either side is NaN. -/
def lt (x y : Number) : Bool := x.toFloat < y.toFloat

/-- Order; false when either side is NaN. -/
def le (x y : Number) : Bool := x.toFloat ≤ y.toFloat

end Number
end Scriptlet
