import Mathlib
import Scriptlet.Number.Text
import Scriptlet.Proofs.Rounding

/-!
# Shortest decimals

What the search through the grids finds.  A decimal is in the interval of a number exactly if it reads back as that
number (`Decimal.number_eq_iff`).  The one that is found reads back, no coarser grid has one that does, and of its grid
it is the nearest (`Span.Best`); so it has the fewest digits (`length_digits_shortest_le`).  On integral numbers the
search ends at or before the grid of the natural numbers, and up to `2 ^ 53` it finds the number itself
(`Number.value_shortest`).
-/
namespace Scriptlet

/-! ## Decimals that read back -/

namespace Decimal

/-- The value in units of `10 ^ (-1074)`. -/
def value (d : Decimal) : Nat := d.coefficient * pow10 d.position

/-- The number that the decimal reads as. -/
def number (d : Decimal) : Number := .nearest d.value (pow10 1074)

end Decimal

theorem pow10_pos (n : Nat) : 0 < pow10 n := Nat.pow_pos (by decide)

theorem pow10_add (m n : Nat) : pow10 (m + n) = pow10 m * pow10 n := Nat.pow_add 10 m n

/-- The tenths are so many times finer than the units. -/
def tenthsPerUnit : Nat := Nat.pow 5 1074

/-! The exponent is made a variable first: a tactic that compares powers would evaluate them. -/

theorem tenthsPerUnit_pos : 0 < tenthsPerUnit := by
  unfold tenthsPerUnit
  generalize 1074 = n
  exact Nat.pow_pos (by decide)

theorem unitsPerOne_pos : 0 < Number.unitsPerOne := by
  unfold Number.unitsPerOne
  generalize 1074 = n
  exact Nat.pow_pos (by decide)

theorem pow10_1074 : pow10 1074 = Number.unitsPerOne * tenthsPerUnit := by
  unfold Number.unitsPerOne tenthsPerUnit
  generalize 1074 = n
  exact Nat.mul_pow 2 5 n

/-- A common factor does not count. -/
theorem near_mul_iff {s m a b k : Nat} (hk : 0 < k) : Near s m (a * k) (k * b) ↔ Near s m a b := by
  have hq : 2 ^ s * (k * b) = k * (2 ^ s * b) := by ring
  have hm : 4 * (m * (k * (2 ^ s * b))) = k * (4 * (m * (2 ^ s * b))) := by ring
  have hlow : 4 * (a * k) + halfBelow s m (k * (2 ^ s * b)) = k * (4 * a + halfBelow s m (2 ^ s * b)) := by
    unfold halfBelow
    split <;> ring
  have ha : 4 * (a * k) = k * (4 * a) := by ring
  have hhigh : k * (4 * (m * (2 ^ s * b))) + 2 * (k * (2 ^ s * b)) = k * (4 * (m * (2 ^ s * b)) + 2 * (2 ^ s * b)) := by
    ring
  simp only [near_iff, hq, hm, hlow, hhigh]
  simp only [ha, Nat.mul_le_mul_left_iff hk, Nat.mul_right_inj hk.ne']

namespace Span

/-- The number lies inside its interval, which does not reach down to zero. -/
structure Around (s : Span) : Prop where
  low_pos : 0 < s.low
  low_lt : s.low < s.value
  lt_high : s.value < s.high
  dvd : 4 ∣ s.value

/-- A quarter of the gap above a number. -/
def quarter (x : Number) : Nat := pow2 x.scale * tenthsPerUnit

theorem quarter_eq (x : Number) : quarter x = 2 ^ x.scale * tenthsPerUnit := rfl

theorem quarter_pos (x : Number) : 0 < quarter x := Nat.mul_pos (Nat.two_pow_pos _) tenthsPerUnit_pos

theorem value_ofNumber (x : Number) : (ofNumber x).value = 4 * (x.mantissa * quarter x) := by
  unfold ofNumber quarter tenthsPerUnit
  generalize 1074 = n
  exact Nat.mul_assoc _ _ _

theorem low_ofNumber (x : Number) :
    (ofNumber x).low = 4 * (x.mantissa * quarter x) - halfBelow x.scale x.mantissa (quarter x) := by
  rw [← value_ofNumber]
  unfold ofNumber quarter tenthsPerUnit
  generalize 1074 = n
  rfl

theorem high_ofNumber (x : Number) : (ofNumber x).high = 4 * (x.mantissa * quarter x) + 2 * quarter x := by
  rw [← value_ofNumber]
  unfold ofNumber quarter tenthsPerUnit
  generalize 1074 = n
  rfl

theorem closed_ofNumber (x : Number) : (ofNumber x).closed = decide (x.mantissa % 2 = 0) := rfl

theorem around_ofNumber {x : Number} (h : x.isZero = false) : (ofNumber x).Around := by
  have hle : quarter x ≤ x.mantissa * quarter x := Nat.le_mul_of_pos_left _ (Number.mantissa_pos h)
  have hpos := quarter_pos x
  have hhalf := halfBelow_le x.scale x.mantissa (quarter x)
  have hhalf' := le_halfBelow x.scale x.mantissa (quarter x)
  constructor
  · rw [low_ofNumber]
    omega
  · rw [low_ofNumber, value_ofNumber]
    omega
  · rw [high_ofNumber, value_ofNumber]
    omega
  · exact ⟨_, value_ofNumber x⟩

/-- The interval of a number holds what is near it. -/
theorem contains_ofNumber_iff {x : Number} (h : x.isZero = false) (n : Nat) :
    (ofNumber x).contains (4 * n) = true ↔ Near x.scale x.mantissa n tenthsPerUnit := by
  have hle : quarter x ≤ x.mantissa * quarter x := Nat.le_mul_of_pos_left _ (Number.mantissa_pos h)
  have hhalf := halfBelow_le x.scale x.mantissa (quarter x)
  rw [near_iff, contains, low_ofNumber, high_ofNumber, closed_ofNumber, ← quarter_eq]
  by_cases heven : x.mantissa % 2 = 0
  · simp only [heven, decide_true, if_true, Bool.and_eq_true, decide_eq_true_eq, implies_true, and_true]
    omega
  · simp only [heven, decide_false, Bool.false_eq_true, if_false, Bool.and_eq_true, decide_eq_true_eq, imp_false]
    omega

/-- An interval holds what lies between two of its points. -/
theorem contains_between {s : Span} {u v w : Nat} (hu : s.contains u = true) (hw : s.contains w = true) (huv : u ≤ v)
    (hvw : v ≤ w) : s.contains v = true := by
  unfold contains at *
  split at hu
  · next h =>
    simp only [h, if_true, Bool.and_eq_true, decide_eq_true_eq] at hu hw ⊢
    omega
  · next h =>
    simp only [h, if_false, Bool.and_eq_true, decide_eq_true_eq, Bool.false_eq_true] at hu hw ⊢
    omega

theorem Around.contains_value {s : Span} (h : s.Around) : s.contains s.value = true := by
  have hlow := h.low_lt
  have hhigh := h.lt_high
  unfold contains
  split <;> simp only [Bool.and_eq_true, decide_eq_true_eq] <;> omega

/-- What is in the interval is positive and at most its upper end. -/
theorem Around.bounds {s : Span} (h : s.Around) {v : Nat} (hv : s.contains v = true) : 0 < v ∧ v ≤ s.high := by
  have hlow := h.low_pos
  unfold contains at hv
  split at hv <;> simp only [Bool.and_eq_true, decide_eq_true_eq] at hv <;> omega

end Span

/-- **A decimal is in the interval of a number exactly if it reads as that number.** -/
theorem Decimal.number_eq_iff {x : Number} (hf : x.isFinite = true) (hn : x.isNegative = false) (hz : x.isZero = false)
    (d : Decimal) : d.number = x ↔ (Span.ofNumber x).contains (4 * d.value) = true := by
  rw [Span.contains_ofNumber_iff hz, number, Number.nearest_eq_iff hn, nearestBits_eq_iff hf (pow10_pos _), pow10_1074,
    near_mul_iff unitsPerOne_pos]

/-! ## The search -/

namespace Span

/-- How far a point is from the number. -/
def off (s : Span) (v : Nat) : Nat := (s.value - v) + (v - s.value)

/-- The decimal is in the interval, no grid from `j` down that is coarser has a point there, and none of its own grid is
nearer. -/
structure Best (s : Span) (j : Nat) (d : Decimal) : Prop where
  contained : s.contains (4 * d.value) = true
  coarsest : ∀ e : Decimal, e.position ≤ j → s.contains (4 * e.value) = true → e.position ≤ d.position
  nearest : ∀ e : Decimal, e.position = d.position → s.contains (4 * e.value) = true →
    s.off (4 * d.value) ≤ s.off (4 * e.value)

section

variable {s : Span} {step c : Nat}

theorem off_below (hle : c * step ≤ s.value) {k : Nat} (hk : k ≤ c) : s.off (c * step) ≤ s.off (k * step) := by
  have := Nat.mul_le_mul_right step hk
  unfold off
  omega

theorem off_above (hlt : s.value < (c + 1) * step) {k : Nat} (hk : c + 1 ≤ k) :
    s.off ((c + 1) * step) ≤ s.off (k * step) := by
  have := Nat.mul_le_mul_right step hk
  unfold off
  omega

variable (hle : c * step ≤ s.value) (hlt : s.value < (c + 1) * step)
include hle hlt

/-- The preferred one of the two neighbours is the nearer. -/
theorem prefer_cases (tie : Tie) : (s.prefer tie step c = c ∧ s.off (c * step) ≤ s.off ((c + 1) * step)) ∨
    (s.prefer tie step c = c + 1 ∧ s.off ((c + 1) * step) ≤ s.off (c * step)) := by
  unfold prefer off
  dsimp only
  split
  · left
    omega
  split
  · right
    omega
  cases tie with
  | up => right; exact ⟨rfl, by omega⟩
  | even =>
    rcases Nat.mod_two_eq_zero_or_one c with h | h
    · left
      exact ⟨by simp [h], by omega⟩
    · right
      exact ⟨by simp [h], by omega⟩

/-- If a point of the grid is in the interval, so is the neighbour of the number on its side. -/
theorem contains_neighbour (h : s.Around) {k : Nat} (hk : s.contains (k * step) = true) :
    (k ≤ c ∧ s.contains (c * step) = true) ∨ (c + 1 ≤ k ∧ s.contains ((c + 1) * step) = true) := by
  rcases Nat.lt_or_ge c k with hck | hkc
  · exact .inr ⟨hck, contains_between h.contains_value hk (by omega) (Nat.mul_le_mul_right step hck)⟩
  · exact .inl ⟨hkc, contains_between hk h.contains_value (Nat.mul_le_mul_right step hkc) hle⟩

end

theorem four_mul_value (d : Decimal) : 4 * d.value = d.coefficient * (4 * pow10 d.position) := by
  rw [Decimal.value]
  ring

/-- **The search finds the best decimal.** -/
theorem best_coarsest {s : Span} (h : s.Around) (tie : Tie) : ∀ j, s.Best j (s.coarsest tie j)
  | 0 => by
    have hvalue : 4 * (Decimal.mk (s.value / 4) 0).value = s.value := by
      obtain ⟨k, hk⟩ := h.dvd
      simp [Decimal.value, pow10, hk]
    refine ⟨?_, fun e he _ => he, fun e _ _ => ?_⟩
    · rw [coarsest, hvalue]
      exact h.contains_value
    · rw [coarsest, hvalue]
      simp [off]
  | j + 1 => by
    have hstep : 0 < 4 * pow10 (j + 1) := Nat.mul_pos (by decide) (pow10_pos _)
    have hle := Nat.div_mul_le_self s.value (4 * pow10 (j + 1))
    have hlt : s.value < (s.value / (4 * pow10 (j + 1)) + 1) * (4 * pow10 (j + 1)) :=
      (Nat.div_lt_iff_lt_mul hstep).1 (Nat.lt_succ_self _)
    have ih := best_coarsest h tie j
    unfold coarsest
    dsimp only
    generalize s.value / (4 * pow10 (j + 1)) = c at hle hlt ⊢
    -- Every point of this grid that is in the interval stands behind one of the two neighbours.
    have hgrid (e : Decimal) (he : e.position = j + 1) (hc : s.contains (4 * e.value) = true) :
        (e.coefficient ≤ c ∧ s.contains (c * (4 * pow10 (j + 1))) = true) ∨
          (c + 1 ≤ e.coefficient ∧ s.contains ((c + 1) * (4 * pow10 (j + 1))) = true) := by
      rw [four_mul_value, he] at hc
      exact contains_neighbour hle hlt h hc
    have hmk (k : Nat) : 4 * (Decimal.mk k (j + 1)).value = k * (4 * pow10 (j + 1)) := four_mul_value _
    -- A neighbour that is in the interval is the best if it is at least as near as every other point there.
    have hfound {k : Nat} (hk : s.contains (k * (4 * pow10 (j + 1))) = true)
        (hnear : ∀ i, (i ≤ c ∧ s.contains (c * (4 * pow10 (j + 1))) = true) ∨
          (c + 1 ≤ i ∧ s.contains ((c + 1) * (4 * pow10 (j + 1))) = true) →
            s.off (k * (4 * pow10 (j + 1))) ≤ s.off (i * (4 * pow10 (j + 1)))) : s.Best (j + 1) ⟨k, j + 1⟩ := by
      refine ⟨by rwa [hmk], fun e he _ => he, fun e he hc => ?_⟩
      have := hnear e.coefficient (hgrid e he hc)
      rw [hmk, four_mul_value, he]
      exact this
    split
    · next hlow hhigh =>
      rcases prefer_cases hle hlt tie with ⟨hp, hoff⟩ | ⟨hp, hoff⟩ <;> rw [hp]
      · refine hfound hlow fun i hi => ?_
        rcases hi with ⟨hi, -⟩ | ⟨hi, -⟩
        · exact off_below hle hi
        · exact hoff.trans (off_above hlt hi)
      · refine hfound hhigh fun i hi => ?_
        rcases hi with ⟨hi, -⟩ | ⟨hi, -⟩
        · exact hoff.trans (off_below hle hi)
        · exact off_above hlt hi
    · next hlow hhigh =>
      refine hfound hlow fun i hi => ?_
      rcases hi with ⟨hi, -⟩ | ⟨-, hi⟩
      · exact off_below hle hi
      · rw [hi] at hhigh
        cases hhigh
    · next hlow hhigh =>
      refine hfound hhigh fun i hi => ?_
      rcases hi with ⟨-, hi⟩ | ⟨hi, -⟩
      · rw [hi] at hlow
        cases hlow
      · exact off_above hlt hi
    · next hlow hhigh =>
      refine ⟨ih.contained, fun e he hc => ?_, ih.nearest⟩
      rcases Nat.lt_or_eq_of_le he with he | he
      · exact ih.coarsest e (Nat.le_of_lt_succ he) hc
      · rcases hgrid e he hc with ⟨-, hi⟩ | ⟨-, hi⟩
        · rw [hi] at hlow
          cases hlow
        · rw [hi] at hhigh
          cases hhigh

/-- Powers of two and ten are compared through their exponents. -/
theorem mul_le_mul_of_pow_le {a b p l : Nat} (h : pow2 a ≤ pow10 b) (hp : pow10 p ≤ pow2 l) : a * p ≤ l * b := by
  rw [pow2_eq, pow10_eq] at h hp
  have hpow : 2 ^ (a * p) ≤ 2 ^ (l * b) :=
    calc 2 ^ (a * p) = (2 ^ a) ^ p := Nat.pow_mul ..
      _ ≤ (10 ^ b) ^ p := Nat.pow_le_pow_left h p
      _ = (10 ^ p) ^ b := by rw [← Nat.pow_mul, ← Nat.pow_mul, Nat.mul_comm]
      _ ≤ (2 ^ l) ^ b := Nat.pow_le_pow_left hp b
      _ = 2 ^ (l * b) := (Nat.pow_mul ..).symm
  exact (Nat.pow_le_pow_iff_right (by decide)).1 hpow

/-- **No grid above the start has a point in the interval.** -/
theorem position_le_start {s : Span} (h : s.Around) {d : Decimal} (hd : s.contains (4 * d.value) = true) :
    d.position ≤ s.start := by
  obtain ⟨hpos, hle⟩ := h.bounds hd
  have hcoefficient : 0 < d.coefficient := by
    by_contra hz
    have hzero : d.coefficient = 0 := by omega
    simp [Decimal.value, hzero] at hpos
  have hgrid : pow10 d.position ≤ d.value := Nat.le_mul_of_pos_left _ hcoefficient
  have hhigh : s.high < 2 ^ (s.high.log2 + 1) := Nat.lt_log2_self
  have hpow : pow10 d.position ≤ pow2 s.high.log2 := by
    rw [Nat.pow_succ] at hhigh
    rw [pow2_eq]
    omega
  -- The quotient in `start` is a little more than the decimal logarithm of two.
  have hlog : pow2 100000 ≤ pow10 30103 := by decide +kernel
  have hexp := mul_le_mul_of_pow_le hlog hpow
  unfold start
  omega

end Span

/-! ## What is found -/

namespace Number

variable {x : Number}

theorem best_shortest (hz : x.isZero = false) (tie : Tie) :
    (Span.ofNumber x).Best (Span.ofNumber x).start (x.shortest tie) := by
  have hshortest : x.shortest tie = (Span.ofNumber x).coarsest tie (Span.ofNumber x).start := by
    unfold shortest
    rw [if_neg (by simp [hz])]
  rw [hshortest]
  exact Span.best_coarsest (Span.around_ofNumber hz) tie _

theorem position_le_shortest (hz : x.isZero = false) (tie : Tie) {d : Decimal}
    (h : (Span.ofNumber x).contains (4 * d.value) = true) : d.position ≤ (x.shortest tie).position :=
  (best_shortest hz tie).coarsest d (Span.position_le_start (Span.around_ofNumber hz) h) h

theorem shortest_of_isZero (hz : x.isZero = true) (tie : Tie) : x.shortest tie = ⟨0, 1074⟩ := by
  rw [shortest, hz]
  rfl

theorem nearestBits_zero (den : Nat) : nearestBits 0 den = 0 := by
  unfold nearestBits
  rw [Nat.zero_mul, Nat.zero_div]
  simp [roundDiv]

/-- **The shortest decimal reads back.** -/
theorem number_shortest (hf : x.isFinite = true) (hn : x.isNegative = false) (tie : Tie) :
    (x.shortest tie).number = x := by
  cases hz : x.isZero with
  | false => exact (Decimal.number_eq_iff hf hn hz _).2 (best_shortest hz tie).contained
  | true =>
    have hmagnitude : x.magnitude = 0 := of_decide_eq_true hz
    rw [shortest_of_isZero hz, Decimal.number, nearest_eq_iff hn, Decimal.value, Nat.zero_mul,
      nearestBits_zero, hmagnitude]

end Number

/-! ## Fewest digits -/

namespace Decimal

theorem length_digits_pos (d : Decimal) : 0 < d.digits.length :=
  List.length_pos_of_ne_nil (Nat.toDigits_ne_nil)

theorem value_lt (d : Decimal) : d.value < pow10 (d.digits.length + d.position) := by
  have h := (Nat.length_toDigits_le_iff (b := 10) (n := d.coefficient) (by decide) d.length_digits_pos).1
    (Nat.le_refl _)
  rw [pow10_add]
  exact Nat.mul_lt_mul_of_pos_right h (pow10_pos _)

theorem le_value {d : Decimal} {k : Nat} (h : k + 1 < d.digits.length) : pow10 (k + 1 + d.position) ≤ d.value := by
  have hle : 10 ^ (k + 1) ≤ d.coefficient := by
    by_contra hlt
    have := (Nat.length_toDigits_le_iff (b := 10) (n := d.coefficient) (by decide) k.succ_pos).2 (Nat.lt_of_not_le hlt)
    exact absurd (Nat.lt_of_lt_of_le h this) (Nat.lt_irrefl _)
  rw [pow10_add]
  exact Nat.mul_le_mul_right _ hle

end Decimal

/-- **The shortest decimal has the fewest digits** of all that read back. -/
theorem length_digits_shortest_le {x : Number} (hf : x.isFinite = true) (hn : x.isNegative = false) (tie : Tie)
    {d : Decimal} (h : d.number = x) : (x.shortest tie).digits.length ≤ d.digits.length := by
  cases hz : x.isZero with
  | true =>
    rw [Number.shortest_of_isZero hz]
    exact d.length_digits_pos
  | false =>
    have hbest := Number.best_shortest hz tie
    have hd := (Decimal.number_eq_iff hf hn hz d).1 h
    have hposition := Number.position_le_shortest hz tie hd
    generalize x.shortest tie = e at hbest hposition ⊢
    by_contra hlt
    obtain ⟨k, hk⟩ : ∃ k, d.digits.length = k + 1 := ⟨d.digits.length - 1, by have := d.length_digits_pos; omega⟩
    -- With more digits there would be a power of ten between the two, and it has one digit.
    let power : Decimal := ⟨1, k + 1 + e.position⟩
    have hpower : power.value = pow10 (k + 1 + e.position) := Nat.one_mul _
    have hbelow : d.value ≤ power.value := by
      rw [hpower]
      refine d.value_lt.le.trans (Nat.pow_le_pow_right (by decide) ?_)
      omega
    have habove : power.value ≤ e.value := by
      rw [hpower]
      exact Decimal.le_value (by omega)
    have hcontained := Span.contains_between (v := 4 * power.value) hd hbest.contained (by omega) (by omega)
    have hle : power.position ≤ e.position :=
      hbest.coarsest power (Span.position_le_start (Span.around_ofNumber hz) hcontained) hcontained
    have : power.position = k + 1 + e.position := rfl
    omega

/-! ## Integral numbers -/

namespace Number

variable {x : Number} {n : Nat}

theorem units_of_isIntegral (h : x.isIntegral = true) : x.units = x.wholePart * unitsPerOne := by
  have hmod : x.units % unitsPerOne = 0 := by
    rw [isIntegral, Bool.and_eq_true] at h
    exact of_decide_eq_true h.2
  rw [wholePart]
  exact (Nat.div_mul_cancel (Nat.dvd_of_mod_eq_zero hmod)).symm

theorem mantissa_mul_quarter (h : x.units = n * unitsPerOne) : x.mantissa * Span.quarter x = n * pow10 1074 := by
  have hunits : x.mantissa * pow2 x.scale = n * unitsPerOne := h
  rw [Span.quarter, pow10_1074, ← Nat.mul_assoc, hunits, Nat.mul_assoc]

theorem contains_whole (hz : x.isZero = false) (h : x.units = n * unitsPerOne) :
    (Span.ofNumber x).value = 4 * (Decimal.mk n 1074).value ∧
      (Span.ofNumber x).contains (4 * (Decimal.mk n 1074).value) = true := by
  have hvalue : (Span.ofNumber x).value = 4 * (Decimal.mk n 1074).value := by
    rw [Span.value_ofNumber, mantissa_mul_quarter h]
    rfl
  exact ⟨hvalue, hvalue ▸ (Span.around_ofNumber hz).contains_value⟩

/-- The shortest decimal of an integral number needs no places. -/
theorem le_position_shortest (h : x.units = n * unitsPerOne) (tie : Tie) : 1074 ≤ (x.shortest tie).position := by
  cases hz : x.isZero with
  | true =>
    rw [shortest_of_isZero hz]
  | false => exact position_le_shortest hz tie (contains_whole hz h).2

theorem pow2_add (i j : Nat) : pow2 (i + j) = pow2 i * pow2 j := Nat.pow_add 2 i j

theorem pow2_le {i j : Nat} (h : i ≤ j) : pow2 i ≤ pow2 j := Nat.pow_le_pow_right (by decide) h

/-- Up to `2 ^ 53` the numbers around an integral one are no further away than one; only `2 ^ 53` itself has a gap of
two above it. -/
theorem scale_cases (h : x.units = n * unitsPerOne) (hle : n ≤ 2 ^ 53) :
    pow2 x.scale ≤ unitsPerOne ∨
      (pow2 x.scale = 2 * unitsPerOne ∧ x.mantissa = 2 ^ 52 ∧ 0 < x.scale ∧ n = 2 ^ 53) := by
  by_cases hs : x.scale ≤ 1074
  · exact .inl (pow2_le hs)
  · right
    obtain ⟨k, hk⟩ : ∃ k, x.scale = 1074 + (k + 1) := ⟨x.scale - 1075, by omega⟩
    have hm := x.normal.ge (by omega)
    have hunits : x.mantissa * pow2 x.scale = n * unitsPerOne := h
    have hpow : pow2 x.scale = pow2 (k + 1) * unitsPerOne := by
      rw [hk, pow2_add, Nat.mul_comm]
      rfl
    have hn : x.mantissa * pow2 (k + 1) = n := by
      rw [hpow, ← Nat.mul_assoc] at hunits
      exact Nat.eq_of_mul_eq_mul_right unitsPerOne_pos hunits
    have hbig : 2 ^ 52 * pow2 (k + 1) ≤ x.mantissa * pow2 (k + 1) := Nat.mul_le_mul_right _ hm
    have htwo : pow2 (k + 1) = 2 * pow2 k := by rw [pow2_add, Nat.mul_comm]; rfl
    have hone : 1 ≤ pow2 k := Nat.pow_pos (by decide)
    have hkone : pow2 k = 1 := by omega
    rw [htwo, hkone, Nat.mul_one] at hn hpow
    exact ⟨hpow, by omega, by omega, by omega⟩

/-- **The shortest decimal of an integral number up to `2 ^ 53` is the number itself.** -/
theorem value_shortest (h : x.units = n * unitsPerOne) (hle : n ≤ 2 ^ 53) (tie : Tie) :
    (x.shortest tie).value = n * pow10 1074 := by
  cases hz : x.isZero with
  | true =>
    have hzero : x.units = 0 := by
      have hmagnitude : x.magnitude = 0 := of_decide_eq_true hz
      have hmantissa : x.mantissa = 0 := by rw [mantissa_eq, hmagnitude, Nat.zero_sub]
      rw [units_eq, hmantissa, Nat.zero_mul]
    have hn : n = 0 := by
      rw [hzero] at h
      exact (Nat.mul_eq_zero.1 h.symm).resolve_right unitsPerOne_pos.ne'
    rw [shortest_of_isZero hz, hn]
    simp [Decimal.value]
  | false =>
    have hbest := best_shortest hz tie
    have hposition := le_position_shortest h tie
    obtain ⟨hvalue, hwhole⟩ := contains_whole hz h
    generalize x.shortest tie = d at hbest hposition ⊢
    obtain ⟨k, hk⟩ : ∃ k, d.position = k + 1074 := ⟨d.position - 1074, by omega⟩
    have hnear := (Span.contains_ofNumber_iff hz d.value).1 hbest.contained
    have hmul := mantissa_mul_quarter h
    have hd : d.value = d.coefficient * pow10 k * pow10 1074 := by
      rw [Decimal.value, hk, pow10_add, Nat.mul_assoc]
    obtain ⟨hlow, hhigh, -⟩ := hnear
    rw [← Span.quarter_eq, hmul, hd] at hlow hhigh
    have hle_of_lt {i j : Nat} (hij : 4 * (i * pow10 1074) < 4 * ((j + 1) * pow10 1074)) : i ≤ j :=
      Nat.le_of_lt_succ (Nat.lt_of_mul_lt_mul_right (Nat.lt_of_mul_lt_mul_left hij))
    have hsucc (i : Nat) : (i + 1) * pow10 1074 = i * pow10 1074 + pow10 1074 := Nat.succ_mul _ _
    have hpos := pow10_pos 1074
    rcases scale_cases h hle with hscale | ⟨hscale, hmantissa, hs, hn⟩
    · have hquarter : Span.quarter x ≤ pow10 1074 := by
        rw [pow10_1074]
        exact Nat.mul_le_mul_right _ hscale
      have hhalf := halfBelow_le x.scale x.mantissa (Span.quarter x)
      have hna : n ≤ d.coefficient * pow10 k := hle_of_lt (by rw [hsucc]; omega)
      have han : d.coefficient * pow10 k ≤ n := hle_of_lt (by rw [hsucc]; omega)
      rw [hd, Nat.le_antisymm han hna]
    · have hquarter : Span.quarter x = 2 * pow10 1074 := by
        rw [pow10_1074, Span.quarter, hscale, Nat.mul_assoc]
      rw [halfBelow, if_pos ⟨hmantissa, hs⟩, hquarter] at hlow
      rw [hquarter] at hhigh
      have hna : n ≤ d.coefficient * pow10 k := hle_of_lt (by rw [hsucc]; omega)
      have han : d.coefficient * pow10 k ≤ n + 1 := hle_of_lt (by rw [hsucc, hsucc]; omega)
      cases k with
      | zero =>
        -- On the grid of the natural numbers the nearest one is the number itself.
        have hoff := hbest.nearest ⟨n, 1074⟩ (hk.trans (Nat.zero_add _)).symm hwhole
        simp only [Span.off, hvalue] at hoff
        have : (Decimal.mk n 1074).value = n * pow10 1074 := rfl
        omega
      | succ k =>
        have hten : d.coefficient * pow10 (k + 1) = 10 * (d.coefficient * pow10 k) := by
          rw [pow10_eq, pow10_eq]
          ring
        omega

end Number
end Scriptlet
