import Scriptlet.Number.Exact

/-!
# Shortest decimals

Of the decimals that read back as a given number, those with the fewest digits, and of these the nearest.

A double is a natural multiple of `10 ^ (-1074)`.  On the grid of multiples of `10 ^ (j - 1074)` only the two
neighbours of the value need be tried, since the reals that read back form an interval around it.  `Span.coarsest`
goes through the grids from coarse to fine; the last one, `j = 0`, holds the value itself.
-/
namespace Scriptlet

/-- What to do when two shortest decimals are equally near. -/
inductive Tie where
  | up
  | even

/-- The decimal `coefficient * 10 ^ (position - 1074)`. -/
structure Decimal where
  coefficient : Nat
  position : Nat

/-- The reals that read back as a positive number, in quarters of `10 ^ (-1074)`: the number itself, the ends of the
interval, and whether the ends belong to it. -/
structure Span where
  low : Nat
  value : Nat
  high : Nat
  closed : Bool

namespace Span

/-- At a power of two the gap below is half the gap above. -/
def ofNumber (x : Number) : Span :=
  let quarter := pow2 x.scale * Nat.pow 5 1074
  let value := 4 * x.mantissa * quarter
  { low := value - (if x.mantissa = pow2 52 ∧ 0 < x.scale then quarter else 2 * quarter)
    value
    high := value + 2 * quarter
    closed := x.mantissa % 2 = 0 }

def contains (s : Span) (v : Nat) : Bool :=
  if s.closed then s.low ≤ v && v ≤ s.high else s.low < v && v < s.high

/-- Of the multiples `c` and `c + 1` of `step` around the value, the one to prefer when both are in the interval. -/
def prefer (s : Span) (tie : Tie) (step c : Nat) : Nat :=
  let below := s.value - c * step
  let above := (c + 1) * step - s.value
  if below < above then c
  else if above < below then c + 1
  else match tie with
    | .up => c + 1
    | .even => c + c % 2

/-- The decimal of the coarsest grid, from position `j` down, that has a point in the interval. -/
def coarsest (s : Span) (tie : Tie) : Nat → Decimal
  | 0 => ⟨s.value / 4, 0⟩
  | j + 1 =>
    let step := 4 * pow10 (j + 1)
    let c := s.value / step
    match s.contains (c * step), s.contains ((c + 1) * step) with
    | true, true => ⟨s.prefer tie step c, j + 1⟩
    | true, false => ⟨c, j + 1⟩
    | false, true => ⟨c + 1, j + 1⟩
    | false, false => s.coarsest tie j

/-- A position above which no grid has a positive point in the interval: `30103 / 100000` is a little more than the
decimal logarithm of two. -/
def start (s : Span) : Nat := s.high.log2 * 30103 / 100000

end Span

/-- The shortest decimal that reads back as the absolute value of a finite number. -/
def Number.shortest (x : Number) (tie : Tie) : Decimal :=
  if x.isZero then ⟨0, 1074⟩
  else
    let s := Span.ofNumber x
    s.coarsest tie s.start

end Scriptlet
