import Conform.Proofs.Double.Interval
import Mathlib.Data.Nat.Cast.Order.Field

/-!
# The shortest decimal lies in the interval

The search for a shortest decimal tries the two neighbours of a double on one grid after the other.
What it finds on a grid is in the interval (`has_of_neighbour`), and on a grid that is finer than
the interval is wide it does find something (`exists_neighbour`).  The grid of seventeen digits is
that fine (`step_lt_width`), so that the search never comes to its last resort: `holds_search`.
-/

namespace Conform

/-! ### Leading exponents -/

theorem lt_pow_decimalLength (n : Nat) : n < 10 ^ decimalLength n := by
  unfold decimalLength
  split
  next h => simp [h]
  next =>
    exact (Nat.length_toDigits_le_iff (by decide) Nat.length_toDigits_pos).1 (Nat.le_refl _)

theorem pow_decimalLength_le {n : Nat} (h : 0 < n) : 10 ^ (decimalLength n - 1) ≤ n := by
  rw [decimalLength, if_neg (by omega)]
  by_contra hlt
  rcases Nat.eq_zero_or_pos ((Nat.toDigits 10 n).length - 1) with hone | hmore
  · rw [hone] at hlt
    omega
  · have hlength := (Nat.length_toDigits_le_iff (by decide) hmore).2 (Nat.lt_of_not_le hlt)
    omega

/-- The leading exponent of a ratio is that of a power of ten which is no greater. -/
theorem pow_ratioLog10_le {num den : Nat} (hnum : 0 < num) (hden : 0 < den) :
    (10 : ℚ) ^ ratioLog10 num den ≤ num / den := by
  have hden' : (0 : ℚ) < den := Nat.cast_pos.2 hden
  unfold ratioLog10
  split
  next h =>
    have hquotient : 0 < num / den := Nat.div_pos h hden
    have hlength : 0 < decimalLength (num / den) := by
      by_contra hzero
      have hlt := lt_pow_decimalLength (num / den)
      rw [Nat.eq_zero_of_not_pos hzero] at hlt
      omega
    have hpow : 10 ^ (decimalLength (num / den) - 1) ≤ num / den := pow_decimalLength_le hquotient
    have hexponent : (decimalLength (num / den) : Int) - 1 =
        (decimalLength (num / den) - 1 : Nat) := by
      omega
    rw [hexponent, zpow_natCast]
    calc (10 : ℚ) ^ (decimalLength (num / den) - 1) ≤ (num / den : Nat) := by exact_mod_cast hpow
      _ ≤ num / den := Nat.cast_div_le
  next h =>
    have hlt := lt_pow_decimalLength ((den - 1) / num)
    have hle : den ≤ num * 10 ^ decimalLength ((den - 1) / num) := by
      have hbelow := Nat.lt_mul_of_div_lt hlt hnum
      rw [Nat.mul_comm] at hbelow
      omega
    rw [zpow_neg, zpow_natCast, le_div_iff₀ hden', inv_mul_le_iff₀ (by positivity)]
    rw [mul_comm]
    exact_mod_cast hle

namespace Double

namespace Interval

variable {i : Interval}

/-- The test for a point of a grid is whether it is in the interval. -/
theorem has_iff (hden : 0 < i.den) (unit : Int) (c : Nat) :
    i.has (wholePower 10 (-unit)) (wholePower 10 unit) c = true ↔
      i.Holds (c * (10 : ℚ) ^ unit) := by
  have hden' : (0 : ℚ) < i.den := Nat.cast_pos.2 hden
  have hscale : (0 : ℚ) < wholePower 10 (-unit) := Nat.cast_pos.2 (wholePower_pos (by decide) _)
  have hpoint : c * (10 : ℚ) ^ unit = (c * wholePower 10 unit : Nat) / wholePower 10 (-unit) := by
    have hpower := wholePower_div_wholePower 10 unit
    rw [Nat.cast_mul, mul_div_assoc, hpower, Nat.cast_ofNat]
  rw [hpoint, has, Holds, lower, upper]
  split
  · rw [decide_eq_true_iff, div_le_div_iff₀ hden' hscale, div_le_div_iff₀ hscale hden']
    exact_mod_cast Iff.rfl
  · rw [decide_eq_true_iff, div_lt_div_iff₀ hden' hscale, div_lt_div_iff₀ hscale hden']
    exact_mod_cast Iff.rfl

/-- The point of a grid at the double or next below it. -/
def floor (i : Interval) (unit : Int) : Nat :=
  i.mid * wholePower 10 (-unit) / (wholePower 10 unit * i.den)

theorem has_of_neighbour {half : HalfTo} {lead : Int} {n c : Nat}
    (h : i.neighbour half lead n = some c) :
    i.has (wholePower 10 (-(lead + 1 - n))) (wholePower 10 (lead + 1 - n)) c = true := by
  unfold neighbour at h
  dsimp only at h
  split at h
  next => cases h
  next hfloor _ => rwa [← Option.some.inj h]
  next _ hnext => rwa [← Option.some.inj h]
  next hfloor hnext =>
    -- either neighbour may be taken, and both of them are in the interval
    split_ifs at h <;> cases half <;> rw [← Option.some.inj h] <;> assumption

theorem has_of_neighbour_eq_none {half : HalfTo} {lead : Int} {n : Nat}
    (h : i.neighbour half lead n = none) :
    i.has (wholePower 10 (-(lead + 1 - n))) (wholePower 10 (lead + 1 - n))
        (i.floor (lead + 1 - n)) = false ∧
      i.has (wholePower 10 (-(lead + 1 - n))) (wholePower 10 (lead + 1 - n))
        (i.floor (lead + 1 - n) + 1) = false := by
  unfold neighbour at h
  dsimp only at h
  split at h
  next hfloor hnext => exact ⟨hfloor, hnext⟩
  next => cases h
  next => cases h
  next => split_ifs at h <;> cases half <;> cases h

theorem floor_le (hden : 0 < i.den) (unit : Int) :
    i.floor unit * (10 : ℚ) ^ unit ≤ i.mid / i.den := by
  have hden' : (0 : ℚ) < i.den := Nat.cast_pos.2 hden
  have hscale : (0 : ℚ) < wholePower 10 (-unit) := Nat.cast_pos.2 (wholePower_pos (by decide) _)
  have hfloor : i.floor unit * (wholePower 10 unit * i.den) ≤ i.mid * wholePower 10 (-unit) :=
    Nat.div_mul_le_self _ _
  have hpower := wholePower_div_wholePower 10 unit
  rw [Nat.cast_ofNat] at hpower
  rw [← hpower, ← mul_div_assoc, div_le_div_iff₀ hscale hden', mul_assoc]
  exact_mod_cast hfloor

theorem lt_floor_add_one (hden : 0 < i.den) (unit : Int) :
    i.mid / i.den < (i.floor unit + 1 : Nat) * (10 : ℚ) ^ unit := by
  have hden' : (0 : ℚ) < i.den := Nat.cast_pos.2 hden
  have hscale : (0 : ℚ) < wholePower 10 (-unit) := Nat.cast_pos.2 (wholePower_pos (by decide) _)
  have hstep : 0 < wholePower 10 unit * i.den := Nat.mul_pos (wholePower_pos (by decide) _) hden
  have hfloor : i.mid * wholePower 10 (-unit) <
      (i.floor unit + 1) * (wholePower 10 unit * i.den) :=
    Nat.lt_mul_of_div_lt (Nat.lt_succ_self _) hstep
  have hpower := wholePower_div_wholePower 10 unit
  rw [Nat.cast_ofNat] at hpower
  rw [← hpower, ← mul_div_assoc, div_lt_div_iff₀ hden' hscale, mul_assoc]
  exact_mod_cast hfloor

/-- **A fine grid has a point in the interval.**  The points to the two sides of the double are a
step apart; if neither were inside, the interval would be no wider than the step. -/
theorem exists_neighbour (hden : 0 < i.den) (hlower : i.lower < i.mid / i.den)
    (hupper : i.mid / i.den < i.upper) (half : HalfTo) {lead : Int} {n : Nat}
    (hfine : (10 : ℚ) ^ (lead + 1 - n) < i.upper - i.lower) :
    ∃ c, i.neighbour half lead n = some c := by
  rw [← Option.ne_none_iff_exists']
  intro hnone
  obtain ⟨hfloor, hnext⟩ := has_of_neighbour_eq_none hnone
  rw [← Bool.not_eq_true, has_iff hden] at hfloor hnext
  have hle := floor_le hden (lead + 1 - n)
  have hlt := lt_floor_add_one hden (lead + 1 - n)
  have hbelow : i.floor (lead + 1 - n) * (10 : ℚ) ^ (lead + 1 - n) ≤ i.lower :=
    not_lt.1 fun h => hfloor (holds_of_lt h (hle.trans_lt hupper))
  have habove : i.upper ≤ (i.floor (lead + 1 - n) + 1 : Nat) * (10 : ℚ) ^ (lead + 1 - n) :=
    not_lt.1 fun h => hnext (holds_of_lt (hlower.trans hlt) h)
  rw [Nat.cast_add_one, add_one_mul] at habove
  linarith

/-- What the search finds is in the interval if there is something to find. -/
theorem has_of_search {half : HalfTo} {lead : Int} {more n k : Nat} (hn : n ≤ k) (hk : k < n + more)
    (h : ∃ c, i.neighbour half lead k = some c) :
    i.has (wholePower 10 (-(i.search half lead more n).2))
      (wholePower 10 (i.search half lead more n).2) (i.search half lead more n).1 = true := by
  induction more generalizing n with
  | zero => omega
  | succ more ih =>
    rw [search]
    split
    next c hc => exact has_of_neighbour hc
    next hnone =>
      have hne : k ≠ n := by
        rintro rfl
        obtain ⟨c, hc⟩ := h
        rw [hnone] at hc
        cases hc
      exact ih (by omega) (by omega)

end Interval

/-! ### Seventeen digits -/

theorem mid_div_den (x : Double) :
    (x.interval.mid : ℚ) / x.interval.den =
      (4 * x.significand : Nat) * (2 : ℚ) ^ (x.exponent - 2) := by
  rw [← x.scale_div_den, ← mul_div_assoc, ← Nat.cast_mul]
  rfl

theorem significand_pos {x : Double} (hzero : x.isZero = false) : 0 < x.significand := by
  have hmagnitude : x.magnitude ≠ 0 := by simpa [isZero] using hzero
  have hfields := x.magnitude_eq
  rw [significand]
  split <;> omega

theorem below_lt {x : Double} (hzero : x.isZero = false) : x.below < 4 * x.significand := by
  have hpos := significand_pos hzero
  unfold below
  split <;> omega

theorem significand_lt (x : Double) : x.significand < 0x20000000000000 := by
  have hfraction := x.fraction_lt
  rw [significand]
  split <;> omega

/-- The interval of a power of two is narrower, but then the significand is the least. -/
theorem significand_lt_width (x : Double) : 4 * x.significand < (x.below + 2) * 10 ^ 16 := by
  have hlt := x.significand_lt
  unfold below
  split
  next h =>
    have hleast : x.significand = 0x10000000000000 := by
      rw [significand, if_neg (by omega), h.1]
    rw [hleast]
    decide
  next => omega

theorem width_interval {x : Double} (hzero : x.isZero = false) :
    x.interval.upper - x.interval.lower = (x.below + 2 : Nat) * (2 : ℚ) ^ (x.exponent - 2) := by
  rw [upper_interval, lower_interval, Nat.cast_sub (below_lt hzero).le]
  push_cast
  ring

/-- **The grid of seventeen digits is finer than the interval is wide.** -/
theorem step_lt_width {x : Double} (hzero : x.isZero = false) :
    (10 : ℚ) ^ (ratioLog10 x.interval.mid x.interval.den + 1 - (17 : Nat)) <
      x.interval.upper - x.interval.lower := by
  have hunit : (0 : ℚ) < (2 : ℚ) ^ (x.exponent - 2) := by positivity
  have hmid : 0 < x.interval.mid :=
    Nat.mul_pos (Nat.mul_pos (by decide) (significand_pos hzero)) (wholePower_pos (by decide) _)
  have hlead := pow_ratioLog10_le hmid x.den_pos
  rw [x.mid_div_den] at hlead
  have hcount : (4 * x.significand : Nat) < (x.below + 2 : Nat) * (10 : ℚ) ^ 16 := by
    exact_mod_cast x.significand_lt_width
  have hexponent : ratioLog10 x.interval.mid x.interval.den + 1 - (17 : Nat) =
      ratioLog10 x.interval.mid x.interval.den - (16 : Nat) := by omega
  rw [width_interval hzero, hexponent, zpow_sub₀ (by norm_num), zpow_natCast,
    div_lt_iff₀ (by positivity)]
  calc (10 : ℚ) ^ ratioLog10 x.interval.mid x.interval.den
      ≤ (4 * x.significand : Nat) * (2 : ℚ) ^ (x.exponent - 2) := hlead
    _ < (x.below + 2 : Nat) * (10 : ℚ) ^ 16 * (2 : ℚ) ^ (x.exponent - 2) := by gcongr
    _ = (x.below + 2 : Nat) * (2 : ℚ) ^ (x.exponent - 2) * (10 : ℚ) ^ 16 := by ring

theorem lower_lt_mid {x : Double} (hzero : x.isZero = false) :
    x.interval.lower < x.interval.mid / x.interval.den := by
  have hcount : 4 * x.significand - x.below < 4 * x.significand := by
    have hpos := significand_pos hzero
    have hbelow := x.below_pos
    omega
  rw [lower_interval, mid_div_den]
  gcongr

theorem mid_lt_upper (x : Double) : x.interval.mid / x.interval.den < x.interval.upper := by
  have hcount : 4 * x.significand < 4 * x.significand + 2 := by omega
  rw [upper_interval, mid_div_den]
  gcongr

/-! ### The decimal -/

/-- **The search finds a number of the interval.** -/
theorem holds_search (half : HalfTo) {x : Double} (hzero : x.isZero = false) :
    let found := x.interval.search half (ratioLog10 x.interval.mid x.interval.den) 17 1
    x.interval.Holds (found.1 * (10 : ℚ) ^ found.2) := by
  rw [← Interval.has_iff x.den_pos]
  exact Interval.has_of_search (by decide) (by decide) (Interval.exists_neighbour x.den_pos
    (lower_lt_mid hzero) x.mid_lt_upper half (step_lt_width hzero))

end Double

end Conform
