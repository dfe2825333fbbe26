import Conform.Double.Shortest
import Mathlib.Algebra.Order.Field.Power
import Mathlib.Data.Rat.Cast.Order
import Mathlib.Tactic.FieldSimp
import Mathlib.Tactic.Linarith
import Mathlib.Tactic.Positivity
import Mathlib.Tactic.Ring

/-!
# The interval of a double

The reals that round to a double form an interval.  Where one interval ends the interval of the next
magnitude begins (`upper_eq_lower`), and of the two only the one with the even significand has the
common end (`closed_eq_not_closed`).  So no number is in the intervals of two magnitudes:
`magnitude_eq_of_holds`.
-/

namespace Conform

/-! ### Powers -/

theorem wholePower_pos {b : Nat} (hb : 0 < b) (e : Int) : 0 < wholePower b e := Nat.pow_pos hb

/-- The whole powers of an exponent and of its negative make a ratio, the power itself. -/
theorem wholePower_div_wholePower (b : Nat) (e : Int) :
    (wholePower b e : ℚ) / wholePower b (-e) = (b : ℚ) ^ e := by
  rcases Int.le_total 0 e with h | h
  · obtain ⟨n, rfl⟩ := Int.eq_ofNat_of_zero_le h
    simp [wholePower]
  · obtain ⟨n, hn⟩ := Int.eq_ofNat_of_zero_le (Int.neg_nonneg.2 h)
    obtain rfl : e = -(n : Int) := by omega
    simp [wholePower]

namespace Double

namespace Interval

/-- Where an interval begins. -/
def lower (i : Interval) : ℚ := i.low / i.den

/-- Where an interval ends. -/
def upper (i : Interval) : ℚ := i.high / i.den

/-- A number is in the interval. -/
def Holds (i : Interval) (q : ℚ) : Prop :=
  if i.closed then i.lower ≤ q ∧ q ≤ i.upper else i.lower < q ∧ q < i.upper

theorem Holds.lower_le {i : Interval} {q : ℚ} (h : i.Holds q) : i.lower ≤ q := by
  unfold Holds at h
  split at h
  · exact h.1
  · exact h.1.le

theorem Holds.le_upper {i : Interval} {q : ℚ} (h : i.Holds q) : q ≤ i.upper := by
  unfold Holds at h
  split at h
  · exact h.2
  · exact h.2.le

theorem holds_of_lt {i : Interval} {q : ℚ} (hlower : i.lower < q) (hupper : q < i.upper) :
    i.Holds q := by
  unfold Holds
  split
  · exact ⟨hlower.le, hupper.le⟩
  · exact ⟨hlower, hupper⟩

end Interval

/-! ### The ends -/

section Ends

variable (x : Double)

theorem den_pos : 0 < x.interval.den := wholePower_pos (by decide) _

/-- How far below the double its interval begins, in quarters of a unit. -/
def below : Nat := if x.fraction = 0 ∧ 1 < x.exponentField then 1 else 2

theorem below_pos : 0 < x.below := by
  unfold below
  split <;> decide

theorem scale_div_den :
    (wholePower 2 (x.exponent - 2) : ℚ) / x.interval.den = (2 : ℚ) ^ (x.exponent - 2) :=
  wholePower_div_wholePower 2 _

theorem lower_interval :
    x.interval.lower = (4 * x.significand - x.below : Nat) * (2 : ℚ) ^ (x.exponent - 2) := by
  rw [← x.scale_div_den, ← mul_div_assoc, ← Nat.cast_mul]
  rfl

theorem upper_interval :
    x.interval.upper = (4 * x.significand + 2 : Nat) * (2 : ℚ) ^ (x.exponent - 2) := by
  rw [← x.scale_div_den, ← mul_div_assoc, ← Nat.cast_mul]
  rfl

theorem lower_lt_upper : x.interval.lower < x.interval.upper := by
  rw [lower_interval, upper_interval]
  have hcount : 4 * x.significand - x.below < 4 * x.significand + 2 := by omega
  gcongr

end Ends

/-! ### Neighbours -/

theorem fraction_lt (x : Double) : x.fraction < 0x10000000000000 := Nat.mod_lt _ (by decide)

/-- The fields of the next magnitude: the fraction is one more, or it is full and the exponent is
one more. -/
theorem fields_of_succ {x y : Double} (h : y.magnitude = x.magnitude + 1) :
    (y.exponentField = x.exponentField ∧ y.fraction = x.fraction + 1) ∨
      (y.exponentField = x.exponentField + 1 ∧ y.fraction = 0 ∧ x.fraction = 0xfffffffffffff) := by
  have hx := x.magnitude_eq
  have hy := y.magnitude_eq
  have hxf := x.fraction_lt
  have hyf := y.fraction_lt
  omega

/-- Where one interval ends the next one begins. -/
theorem upper_eq_lower {x y : Double} (h : y.magnitude = x.magnitude + 1) :
    x.interval.upper = y.interval.lower := by
  rw [upper_interval, lower_interval]
  rcases fields_of_succ h with ⟨hfield, hfraction⟩ | ⟨hfield, hfraction, hfull⟩
  · have hexponent : y.exponent = x.exponent := by rw [exponent, exponent, hfield]
    have hcount : 4 * y.significand - y.below = 4 * x.significand + 2 := by
      simp only [significand, below, hfield, hfraction]
      split <;> simp <;> omega
    rw [hexponent, hcount]
  · by_cases hzero : x.exponentField = 0
    · -- the first number that is not subnormal counts the same unit
      have hexponent : y.exponent = x.exponent := by simp [exponent, hfield, hzero]
      have hcount : 4 * y.significand - y.below = 4 * x.significand + 2 := by
        simp [significand, below, hfield, hfraction, hfull, hzero]
      rw [hexponent, hcount]
    · -- the unit doubles, and the interval of a power of two begins half as far below it
      have hexponent : y.exponent - 2 = x.exponent - 2 + 1 := by
        simp only [exponent, hfield, if_neg hzero, if_neg (Nat.succ_ne_zero _)]
        omega
      have hcount : 2 * (4 * y.significand - y.below) = 4 * x.significand + 2 := by
        have hfield' : 1 < x.exponentField + 1 := by omega
        simp [significand, below, hfield, hfraction, hfull, hzero, hfield']
      rw [hexponent, zpow_add_one₀ (by norm_num), ← hcount, Nat.cast_mul, Nat.cast_ofNat]
      ring

theorem significand_mod_two (x : Double) : x.significand % 2 = x.magnitude % 2 := by
  have hmagnitude := x.magnitude_eq
  rw [significand]
  split <;> omega

/-- Of two intervals that meet exactly one is closed. -/
theorem closed_eq_not_closed {x y : Double} (h : y.magnitude = x.magnitude + 1) :
    y.interval.closed = !x.interval.closed := by
  have hx := x.significand_mod_two
  have hy := y.significand_mod_two
  simp only [interval, hx, hy]
  rcases Nat.mod_two_eq_zero_or_one x.magnitude with hparity | hparity
  · have hother : y.magnitude % 2 = 1 := by omega
    rw [hparity, hother]
    rfl
  · have hother : y.magnitude % 2 = 0 := by omega
    rw [hparity, hother]
    rfl

/-- The interval depends on the magnitude alone. -/
theorem interval_congr {x y : Double} (h : x.magnitude = y.magnitude) :
    x.interval = y.interval := by
  have hfield : x.exponentField = y.exponentField := by rw [exponentField, h, exponentField]
  have hfraction : x.fraction = y.fraction := by rw [fraction, h, fraction]
  simp only [interval, significand, exponent, hfield, hfraction]

theorem magnitude_ofWord {n : Nat} (h : n < 0x8000000000000000) :
    (ofWord false n).magnitude = n := by
  have hsize : n < UInt64.size := h.trans (by decide)
  rw [magnitude, ofWord, if_neg Bool.false_ne_true, UInt64.toNat_ofNat_of_lt' hsize]
  exact Nat.mod_eq_of_lt h

theorem upper_lt_upper {x y : Double} (h : x.magnitude < y.magnitude) :
    x.interval.upper < y.interval.upper := by
  induction hn : y.magnitude generalizing y with
  | zero => omega
  | succ n ih =>
    have hbound : y.magnitude < 0x8000000000000000 := Nat.mod_lt _ (by decide)
    have hword : (ofWord false n).magnitude = n := magnitude_ofWord (by omega)
    have hmeet : (ofWord false n).interval.upper = y.interval.lower :=
      upper_eq_lower (by rw [hn, hword])
    rcases Nat.lt_or_eq_of_le (Nat.le_of_lt_succ (hn ▸ h)) with hlt | heq
    · exact (ih (hword.symm ▸ hlt) hword).trans (hmeet ▸ y.lower_lt_upper)
    · rw [interval_congr (heq.trans hword.symm), hmeet]
      exact y.lower_lt_upper

theorem not_holds_of_lt {x y : Double} (h : x.magnitude < y.magnitude) {q : ℚ}
    (hx : x.interval.Holds q) : ¬ y.interval.Holds q := by
  intro hy
  rcases Nat.lt_or_eq_of_le (Nat.succ_le_of_lt h) with hlt | heq
  · -- a double in between keeps them apart
    have hbound : y.magnitude < 0x8000000000000000 := Nat.mod_lt _ (by decide)
    have hword : (ofWord false (y.magnitude - 1)).magnitude = y.magnitude - 1 :=
      magnitude_ofWord (by omega)
    have hmeet := upper_eq_lower (x := ofWord false (y.magnitude - 1)) (y := y)
      (by rw [hword]; omega)
    have hapart := upper_lt_upper (x := x) (y := ofWord false (y.magnitude - 1))
      (by rw [hword]; omega)
    exact absurd (hx.le_upper.trans_lt (hapart.trans_eq hmeet)) (not_lt.2 hy.lower_le)
  · have hmeet : x.interval.upper = y.interval.lower := upper_eq_lower heq.symm
    have hclosed := closed_eq_not_closed heq.symm
    rw [Interval.Holds, hclosed] at hy
    unfold Interval.Holds at hx
    cases hc : x.interval.closed with
    | true =>
      simp only [hc, Bool.not_true, Bool.false_eq_true, if_false, if_true] at hx hy
      exact absurd (hx.2.trans_lt (hmeet ▸ hy.1)) (lt_irrefl q)
    | false =>
      simp only [hc, Bool.not_false, Bool.false_eq_true, if_false, if_true] at hx hy
      exact absurd (hx.2.trans_le (hmeet ▸ hy.1)) (lt_irrefl q)

/-- **No number is in the intervals of two magnitudes.** -/
theorem magnitude_eq_of_holds {x y : Double} {q : ℚ} (hx : x.interval.Holds q)
    (hy : y.interval.Holds q) : x.magnitude = y.magnitude := by
  rcases Nat.lt_trichotomy x.magnitude y.magnitude with h | h | h
  · exact absurd hy (not_holds_of_lt h hx)
  · exact h
  · exact absurd hx (not_holds_of_lt h hy)

end Double

end Conform
