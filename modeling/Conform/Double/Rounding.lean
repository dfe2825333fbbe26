import Conform.Double.Basic

/-!
# Rounding to the nearest double

`Double.ofRatio` is the double nearest to a ratio of natural numbers, a half going to the neighbour
whose significand is even.  Integers, decimals, products and quotients are all rounded by it once,
from their exact value.
-/

namespace Conform

/-- The integer nearest to `num / den`, a half going to the even neighbour. -/
def roundHalfEven (num den : Nat) : Nat :=
  let below := num / den
  let twice := 2 * (num % den)
  if den < twice || (den == twice && below % 2 == 1) then below + 1 else below

/-- The power `base ^ e`, or one for a negative `e`: a factor `base ^ e` of a ratio multiplies its
numerator by the whole power of `e` and its denominator by that of `-e`. -/
def wholePower (base : Nat) (e : Int) : Nat := Nat.pow base e.toNat

/-- The greatest `e` with `2 ^ e ≤ num / den`, for positive `num` and `den`. -/
def ratioLog2 (num den : Nat) : Int :=
  let e : Int := (num.log2 : Int) - den.log2
  if den * wholePower 2 e ≤ num * wholePower 2 (-e) then e else e - 1

namespace Double

/-- The double nearest to `± num / den`, ties to even, for a positive `den`.

The unit of the last place is `2 ^ e`, fifty-two binary places below the leading one but never
below the least exponent; the rounded count of units, added to the exponent bits, carries into
them by itself when it fills the significand. -/
def ofRatio (negative : Bool) (num den : Nat) : Double :=
  if num = 0 then zero negative else
    let e : Int := max (-1074) (ratioLog2 num den - 52)
    let units := roundHalfEven (num * wholePower 2 (-e)) (den * wholePower 2 e)
    let magnitude := (e + 1074).toNat * 0x10000000000000 + units
    if infinityWord ≤ magnitude then infinity negative else ofWord negative magnitude

/-- The double nearest to an integer; zero is the positive one. -/
def ofInt (n : Int) : Double := ofRatio (decide (n < 0)) n.natAbs 1

/-- The double nearest to a natural number. -/
def ofNat (n : Nat) : Double := ofRatio false n 1

/-- The double nearest to `± digits · 10 ^ exponent`.

Exponents beyond the range of doubles are settled by the length of `digits` alone: from `10 ^ 310`
on every value is infinite, and below `10 ^ -324` every value is zero. -/
def ofDecimal (negative : Bool) (digits : Nat) (exponent : Int) : Double :=
  if digits = 0 then zero negative else
    let top := exponent + (Nat.toDigits 10 digits).length
    if 310 < top then infinity negative
    else if top < -324 then zero negative
    else ofRatio negative (digits * wholePower 10 exponent) (wholePower 10 (-exponent))

/-- The rounded product. -/
def mul (x y : Double) : Double :=
  let negative := x.negative != y.negative
  if x.isNaN || y.isNaN then nan
  else if x.isInfinite || y.isInfinite then
    if x.isZero || y.isZero then nan else infinity negative
  else
    let e := x.exponent + y.exponent
    ofRatio negative (x.significand * y.significand * wholePower 2 e) (wholePower 2 (-e))

/-- The rounded quotient. -/
def div (x y : Double) : Double :=
  let negative := x.negative != y.negative
  if x.isNaN || y.isNaN then nan
  else if x.isInfinite then (if y.isInfinite then nan else infinity negative)
  else if y.isInfinite then zero negative
  else if y.isZero then (if x.isZero then nan else infinity negative)
  else
    let e := x.exponent - y.exponent
    ofRatio negative (x.significand * wholePower 2 e) (y.significand * wholePower 2 (-e))

example : ofInt 1 = ⟨0x3ff0000000000000⟩ := by decide +kernel
example : ofInt (-9007199254740993) = ⟨0xc340000000000000⟩ := by decide +kernel
example : ofDecimal false 5 (-324) = ⟨1⟩ := by decide +kernel
example : ofDecimal false 17976931348623159 292 = infinity false := by decide +kernel
example : div (ofNat 1) (ofNat 3) = ⟨0x3fd5555555555555⟩ := by decide +kernel

end Double

end Conform
