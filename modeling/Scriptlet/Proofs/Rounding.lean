import Mathlib
import Scriptlet.Number.Exact

/-!
# Rounding

A pattern below the sign is a scale and a mantissa (`Number.magnitude_eq`), in one way only (`Normal.unique`).  The
quotients that are nearest to a number are those in an interval around it (`Near`): `nearestBits_eq_iff` says that
reading finds the number exactly for them.
-/
namespace Scriptlet

theorem pow2_eq (n : Nat) : pow2 n = 2 ^ n := rfl

theorem pow10_eq (n : Nat) : pow10 n = 10 ^ n := rfl

/-! ## Scale and mantissa -/

/-- A scale and a mantissa as a pattern has them: only at scale zero the mantissa may be that of a subnormal number. -/
structure Normal (s m : Nat) : Prop where
  lt : m < 2 ^ 53
  ge : 0 < s → 2 ^ 52 ≤ m

theorem Normal.unique {s m s' m' : Nat} (h : Normal s m) (h' : Normal s' m')
    (heq : s * 2 ^ 52 + m = s' * 2 ^ 52 + m') : s = s' ∧ m = m' := by
  have := h.lt
  have := h'.lt
  have := h.ge
  have := h'.ge
  omega

namespace Number

theorem scale_eq (x : Number) : x.scale = x.magnitude / 2 ^ 52 - 1 := rfl

theorem mantissa_eq (x : Number) : x.mantissa = x.magnitude - x.scale * 2 ^ 52 := rfl

theorem units_eq (x : Number) : x.units = x.mantissa * 2 ^ x.scale := rfl

theorem magnitude_eq (x : Number) : x.magnitude = x.scale * 2 ^ 52 + x.mantissa := by
  rw [mantissa_eq, scale_eq]
  omega

theorem normal (x : Number) : Normal x.scale x.mantissa := by
  rw [mantissa_eq, scale_eq]
  exact ⟨by omega, by omega⟩

theorem mantissa_pos {x : Number} (h : x.isZero = false) : 0 < x.mantissa := by
  have hpos : x.magnitude ≠ 0 := by simpa [isZero] using h
  have := x.magnitude_eq
  have := x.normal.ge
  omega

theorem magnitude_lt {x : Number} (h : x.isFinite = true) : x.magnitude < infinityBits := by
  simpa [isFinite] using h

/-- A number without a sign is known by its magnitude. -/
theorem eq_of_magnitude {x y : Number} (hx : x.isNegative = false) (hy : y.isNegative = false)
    (h : x.magnitude = y.magnitude) : x = y := by
  have hbits {z : Number} (hz : z.isNegative = false) : z.magnitude = z.bits.toNat := by
    have hlt : ¬ pow2 63 ≤ z.bits.toNat := by simpa [isNegative] using hz
    exact Nat.mod_eq_of_lt (Nat.lt_of_not_le hlt)
  rw [hbits hx, hbits hy] at h
  obtain ⟨xb, hx'⟩ := x
  obtain ⟨yb, hy'⟩ := y
  obtain rfl : xb = yb := UInt64.toNat_inj.1 h
  rfl

theorem infinityBits_lt : infinityBits < 2 ^ 63 := by decide

theorem nearestBits_le (num den : Nat) : nearestBits num den ≤ infinityBits := Nat.min_le_right _ _

theorem toNat_nearest (num den : Nat) : (nearest num den).bits.toNat = nearestBits num den := by
  have hle := nearestBits_le num den
  have hbits : (UInt64.ofNat (nearestBits num den)).toNat = nearestBits num den :=
    UInt64.toNat_ofNat_of_lt (Nat.lt_of_le_of_lt hle (by decide))
  have hmag : magnitudeBits (UInt64.ofNat (nearestBits num den)) = nearestBits num den := by
    rw [magnitudeBits, hbits]
    exact Nat.mod_eq_of_lt (Nat.lt_of_le_of_lt hle infinityBits_lt)
  have hsmall : magnitudeBits (UInt64.ofNat (nearestBits num den)) ≤ infinityBits := by rwa [hmag]
  rw [nearest, ofBits, dif_pos hsmall, hbits]

/-- What is read has no sign. -/
theorem isNegative_nearest (num den : Nat) : (nearest num den).isNegative = false := by
  have hle := nearestBits_le num den
  have hlt : infinityBits < pow2 63 := infinityBits_lt
  rw [isNegative, toNat_nearest]
  exact decide_eq_false (by omega)

theorem magnitude_nearest (num den : Nat) : (nearest num den).magnitude = nearestBits num den := by
  rw [magnitude, magnitudeBits, toNat_nearest]
  exact Nat.mod_eq_of_lt (Nat.lt_of_le_of_lt (nearestBits_le num den) infinityBits_lt)

theorem isNaN_nearest (num den : Nat) : (nearest num den).isNaN = false := by
  rw [isNaN, magnitude_nearest]
  exact decide_eq_false (Nat.not_lt_of_le (nearestBits_le num den))

theorem nearest_eq_iff {x : Number} (h : x.isNegative = false) (num den : Nat) :
    nearest num den = x ↔ nearestBits num den = x.magnitude := by
  constructor
  · rintro rfl
    exact (magnitude_nearest num den).symm
  · intro heq
    exact eq_of_magnitude (isNegative_nearest num den) h ((magnitude_nearest num den).trans heq)

end Number

/-! ## Rounding to a natural number -/

/-- The quotient of `a` and `b` rounds to `q`: it is at most a half away, and exactly a half only if `q` is even. -/
structure RoundsTo (a b q : Nat) : Prop where
  low : 2 * (q * b) ≤ 2 * a + b
  high : 2 * a ≤ 2 * (q * b) + b
  even : 2 * (q * b) = 2 * a + b ∨ 2 * a = 2 * (q * b) + b → q % 2 = 0

theorem roundsTo_roundDiv (a : Nat) {b : Nat} (hb : 0 < b) : RoundsTo a b (roundDiv a b) := by
  have hdiv : a / b * b + a % b = a := by rw [Nat.mul_comm, Nat.div_add_mod]
  have hmod := Nat.mod_lt a hb
  have hsucc : (a / b + 1) * b = a / b * b + b := Nat.succ_mul _ _
  unfold roundDiv
  dsimp only
  split
  · exact ⟨by omega, by omega, by omega⟩
  split
  · exact ⟨by omega, by omega, by omega⟩
  rcases Nat.mod_two_eq_zero_or_one (a / b) with h | h
  · rw [h, Nat.add_zero]
    exact ⟨by omega, by omega, fun _ => h⟩
  · rw [h]
    exact ⟨by omega, by omega, by omega⟩

theorem RoundsTo.unique {a b q q' : Nat} (hb : 0 < b) (h : RoundsTo a b q) (h' : RoundsTo a b q') : q = q' := by
  -- Two neighbours can both be a half away, but then one of them is odd.
  have step {p p' : Nat} (hp : RoundsTo a b p) (hp' : RoundsTo a b p') : ¬ p < p' := by
    intro hlt
    have hmul : (p + 1) * b ≤ p' * b := Nat.mul_le_mul_right b hlt
    have hsucc : (p + 1) * b = p * b + b := Nat.succ_mul p b
    have hp₁ := hp.high
    have hp₂ := hp'.low
    have heven := hp.even (.inr (by omega))
    have heven' := hp'.even (.inl (by omega))
    have hnext : p' * b = (p + 1) * b := by omega
    have := Nat.eq_of_mul_eq_mul_right hb hnext
    omega
  have := step h h'
  have := step h' h
  omega

theorem roundDiv_eq_iff {a b q : Nat} (hb : 0 < b) : roundDiv a b = q ↔ RoundsTo a b q := by
  constructor
  · rintro rfl
    exact roundsTo_roundDiv a hb
  · exact (roundsTo_roundDiv a hb).unique hb

/-! ## The quotients that read as a number -/

/-- Half the gap below a value with the scale and the mantissa, in quarters of the gap above it, which are `q` each: the
gap below the least mantissa of a scale is that of the scale before. -/
def halfBelow (s m q : Nat) : Nat := if m = 2 ^ 52 ∧ 0 < s then q else 2 * q

theorem halfBelow_le (s m q : Nat) : halfBelow s m q ≤ 2 * q := by
  unfold halfBelow
  split <;> omega

theorem le_halfBelow (s m q : Nat) : q ≤ halfBelow s m q := by
  unfold halfBelow
  split <;> omega

theorem halfBelow_succ (s q : Nat) : halfBelow (s + 1) (2 ^ 52) q = q := if_pos ⟨rfl, Nat.succ_pos s⟩

/-- The quotient of `a` and `b` is nearest to `m * 2 ^ s`, of all the values that patterns have; half the gap to the
next value still counts if `m` is even. -/
@[mk_iff]
structure Near (s m a b : Nat) : Prop where
  low : 4 * (m * (2 ^ s * b)) ≤ 4 * a + halfBelow s m (2 ^ s * b)
  high : 4 * a ≤ 4 * (m * (2 ^ s * b)) + 2 * (2 ^ s * b)
  even : 4 * (m * (2 ^ s * b)) = 4 * a + halfBelow s m (2 ^ s * b) ∨
    4 * a = 4 * (m * (2 ^ s * b)) + 2 * (2 ^ s * b) → m % 2 = 0

/-- The scale at which a quotient is rounded. -/
def scaleOf (a b : Nat) : Nat := (a / b).log2 - 52

theorem lt_scaleOf (a : Nat) {b : Nat} (hb : 0 < b) : a < 2 ^ 53 * (2 ^ scaleOf a b * b) := by
  have hlt : a / b < 2 ^ (53 + scaleOf a b) := by
    by_cases hz : a / b = 0
    · rw [hz]
      exact Nat.two_pow_pos _
    · exact (Nat.log2_lt hz).1 (by unfold scaleOf; omega)
  rw [← Nat.mul_assoc, ← Nat.pow_add]
  exact (Nat.div_lt_iff_lt_mul hb).1 hlt

theorem scaleOf_le {a b : Nat} (hb : 0 < b) (h : 0 < scaleOf a b) : 2 ^ 52 * (2 ^ scaleOf a b * b) ≤ a := by
  have hz : a / b ≠ 0 := by
    intro hz
    rw [scaleOf, hz] at h
    exact absurd h (by decide)
  have hle : 2 ^ (52 + scaleOf a b) ≤ a / b := (Nat.le_log2 hz).1 (by unfold scaleOf at h ⊢; omega)
  rw [← Nat.mul_assoc, ← Nat.pow_add]
  exact (Nat.le_div_iff_mul_le hb).1 hle

/-- The pattern of the rounded quotient. -/
def patternOf (a b : Nat) : Nat := scaleOf a b * 2 ^ 52 + roundDiv a (2 ^ scaleOf a b * b)

theorem nearestBits_eq (num den : Nat) : Number.nearestBits num den =
    min (patternOf (num * Number.unitsPerOne) den) infinityBits := by
  rw [patternOf, Nat.mul_comm (2 ^ _) den]
  rfl

section

variable {a b s m : Nat} (hb : 0 < b)
include hb

/-- Rounding a quotient that is near a value gives its pattern. -/
theorem Near.patternOf_eq (hn : Normal s m) (h : Near s m a b) : patternOf a b = s * 2 ^ 52 + m := by
  have hlt := lt_scaleOf a hb
  have hle := scaleOf_le hb (a := a)
  unfold patternOf
  generalize scaleOf a b = t at hlt hle ⊢
  have hpos (k : Nat) : 0 < 2 ^ k * b := Nat.mul_pos (Nat.two_pow_pos k) hb
  have hmono {j k : Nat} (hjk : j ≤ k) : 2 ^ j * b ≤ 2 ^ k * b :=
    Nat.mul_le_mul_right b (Nat.pow_le_pow_right (by decide) hjk)
  have hdouble (k : Nat) : 2 ^ (k + 1) * b = 2 * (2 ^ k * b) := by rw [Nat.pow_succ]; ring
  obtain ⟨hlow, hhigh, heven⟩ := h
  have hm := hn.lt
  have hs := hpos s
  have hhalf := halfBelow_le s m (2 ^ s * b)
  have hmul : m * (2 ^ s * b) ≤ (2 ^ 53 - 1) * (2 ^ s * b) := Nat.mul_le_mul_right _ (by omega)
  rcases Nat.lt_trichotomy t s with hts | rfl | hst
  · -- Just below a power of two the quotient is rounded at the scale before, up to the power.
    have hm52 := hn.ge (by omega)
    have hnext := hmono hts
    rw [hdouble] at hnext
    obtain rfl : m = 2 ^ 52 := by
      by_contra hne
      have hmore : (2 ^ 52 + 1) * (2 ^ s * b) ≤ m * (2 ^ s * b) := Nat.mul_le_mul_right _ (by omega)
      omega
    obtain ⟨k, rfl⟩ : ∃ k, s = k + 1 := ⟨s - 1, by omega⟩
    rw [halfBelow_succ] at hlow
    obtain rfl : k = t := by
      by_contra hne
      have hfar := hmono (show t + 1 ≤ k by omega)
      rw [hdouble] at hfar hlow
      omega
    rw [hdouble] at hlow
    have hround : roundDiv a (2 ^ k * b) = 2 ^ 53 :=
      (roundDiv_eq_iff (hpos k)).2 ⟨by omega, by omega, fun _ => by decide⟩
    rw [hround]
    omega
  · have hround : roundDiv a (2 ^ t * b) = m :=
      (roundDiv_eq_iff hs).2 ⟨by omega, by omega, fun htie => heven (by omega)⟩
    rw [hround]
  · have hnext := hmono hst
    rw [hdouble] at hnext
    have := hle (by omega)
    omega

/-- A quotient is near the value of the pattern to which it is rounded. -/
theorem near_of_patternOf_eq (hn : Normal s m) (h : patternOf a b = s * 2 ^ 52 + m) : Near s m a b := by
  have hlt := lt_scaleOf a hb
  have hle := scaleOf_le hb (a := a)
  unfold patternOf at h
  generalize scaleOf a b = t at hlt hle h
  have hpos : 0 < 2 ^ t * b := Nat.mul_pos (Nat.two_pow_pos t) hb
  obtain ⟨hlow, hhigh, heven⟩ := roundsTo_roundDiv a hpos
  generalize roundDiv a (2 ^ t * b) = r at hlow hhigh heven h
  have hr : r ≤ 2 ^ 53 := by
    by_contra hlt'
    have : (2 ^ 53 + 1) * (2 ^ t * b) ≤ r * (2 ^ t * b) := Nat.mul_le_mul_right _ (by omega)
    omega
  have hr52 : 0 < t → 2 ^ 52 ≤ r := by
    intro ht
    have := hle ht
    by_contra hlt'
    have : r * (2 ^ t * b) ≤ (2 ^ 52 - 1) * (2 ^ t * b) := Nat.mul_le_mul_right _ (by omega)
    omega
  rcases Nat.lt_or_eq_of_le hr with hr | rfl
  · obtain ⟨rfl, rfl⟩ := Normal.unique ⟨hr, hr52⟩ hn h
    by_cases hcase : r = 2 ^ 52 ∧ 0 < t
    · obtain ⟨rfl, ht⟩ := hcase
      have := hle ht
      exact ⟨by omega, by omega, fun _ => by decide⟩
    · have hhalf : halfBelow t r (2 ^ t * b) = 2 * (2 ^ t * b) := if_neg hcase
      exact ⟨by omega, by omega, fun htie => heven (by omega)⟩
  · have hdouble : 2 ^ (t + 1) * b = 2 * (2 ^ t * b) := by rw [Nat.pow_succ]; ring
    have hnormal : Normal (t + 1) (2 ^ 52) := ⟨by decide, fun _ => Nat.le_refl _⟩
    have hsum : (t + 1) * 2 ^ 52 + 2 ^ 52 = s * 2 ^ 52 + m := by rw [← h]; ring
    obtain ⟨rfl, rfl⟩ := hnormal.unique hn hsum
    refine ⟨?_, ?_, fun _ => by decide⟩
    · rw [halfBelow_succ, hdouble]
      omega
    · rw [hdouble]
      omega

end

/-- **A quotient reads as a number exactly if it is near its value.** -/
theorem nearestBits_eq_iff {x : Number} (h : x.isFinite = true) {num den : Nat} (hd : 0 < den) :
    Number.nearestBits num den = x.magnitude ↔ Near x.scale x.mantissa (num * Number.unitsPerOne) den := by
  have hlt := Number.magnitude_lt h
  have hpattern : Number.nearestBits num den = x.magnitude ↔
      patternOf (num * Number.unitsPerOne) den = x.magnitude := by
    rw [nearestBits_eq]
    generalize patternOf (num * Number.unitsPerOne) den = p
    omega
  rw [hpattern, x.magnitude_eq]
  exact ⟨near_of_patternOf_eq hd x.normal, Near.patternOf_eq hd x.normal⟩

end Scriptlet
