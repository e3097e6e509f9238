import Scriptlet.Number.Shortest

/-!
# Number text

How a number is read, and the texts under which it is shown: by `print`, in a token list, in the parenthesised dump of
a tree, and in JSON.  All of these are made of the shortest digits or of the exact integral digits.
-/
namespace Scriptlet

/-! ## Reading -/

def digitsValue (digits : List Char) : Nat := digits.foldl (fun n c => 10 * n + (c.toNat - '0'.toNat)) 0

/-- The number written as `whole`, a point and `fraction`. -/
def Number.ofDigits (whole fraction : List Char) : Number :=
  Number.nearest (digitsValue (whole ++ fraction)) (pow10 fraction.length)

/-! ## Showing -/

def digitsText (n : Nat) : String := String.ofList (Nat.toDigits 10 n)

def zeros (n : Nat) : String := String.ofList (List.replicate n '0')

namespace Decimal

def digits (d : Decimal) : List Char := Nat.toDigits 10 d.coefficient

/-- Written out with no exponent: zeros fill up to the point on either side of it. -/
def positional (d : Decimal) : String :=
  let ds := d.digits
  if 1074 ≤ d.position then String.ofList ds ++ zeros (d.position - 1074)
  else
    let places := 1074 - d.position
    if places < ds.length then
      String.ofList (ds.take (ds.length - places)) ++ "." ++ String.ofList (ds.drop (ds.length - places))
    else "0." ++ zeros (places - ds.length) ++ String.ofList ds

/-- The number of digits before the point; zero or less when the first digit stands behind it. -/
def point (d : Decimal) : Int := (d.digits.length + d.position : Int) - 1074

/-- One digit, the others behind a point, and a signed exponent. -/
def scientific (d : Decimal) : String :=
  let e := d.point - 1
  let fraction := match d.digits.drop 1 with
    | [] => ""
    | ds => "." ++ String.ofList ds
  let sign := if e < 0 then "-" else "+"
  String.ofList (d.digits.take 1) ++ fraction ++ "e" ++ sign ++ digitsText e.natAbs

end Decimal

namespace Number

def sign (x : Number) : String := if x.isNegative then "-" else ""

/-- The general text: shortest digits, no exponent and no point on integral numbers. -/
def plain (x : Number) : String :=
  if x.isNaN then "NaN"
  else if x.isInfinite then x.sign ++ "inf"
  else x.sign ++ (x.shortest .up).positional

/-- Integral and of at most fifteen digits. -/
def isShortIntegral (x : Number) : Bool := x.isIntegral && x.wholePart < pow10 15

/-- As `print` shows it. -/
def display (x : Number) : String :=
  if x.isShortIntegral && !x.isZero then x.sign ++ digitsText x.wholePart else x.plain

/-- As a token list shows it; zero has no sign here. -/
def tokenText (x : Number) : String :=
  if x.isShortIntegral then (if x.isZero then "" else x.sign) ++ digitsText x.wholePart ++ ".0" else x.plain

/-- As the parenthesised dump shows it: integral numbers exactly, with one place. -/
def literalText (x : Number) : String :=
  if x.isIntegral then x.sign ++ digitsText x.wholePart ++ ".0" else x.plain

/-- As JSON shows it: positional with at most sixteen digits before the point or four zeros behind it, scientific
otherwise.  JSON has no text for NaN and the infinities. -/
def json (x : Number) : String :=
  if !x.isFinite then "null"
  else
    let d := x.shortest .even
    let text :=
      if 16 < d.point || d.point ≤ -5 then d.scientific
      else if 1074 ≤ d.position then d.positional ++ ".0"
      else d.positional
    x.sign ++ text

end Number
end Scriptlet
