/-!
# Double-precision numbers, by their words

A `Double` is a binary floating-point number of 64 bits, held as its word: the sign in the top
bit, then eleven bits of exponent, then fifty-two of fraction.  Holding the word and not a native
number keeps every question about it (is it finite, which multiple of which power of two is it) a
question about natural numbers.

* A finite number is `significand · 2 ^ exponent`, with the sign beside it.
* `Double.same` is the comparison of numbers: the two zeros agree and a NaN agrees with nothing.
-/

namespace Conform

/-- A double-precision number.  Two words that differ are two values: `0.0` and `-0.0` are told
apart here and agree only under `Double.same`. -/
structure Double where
  bits : UInt64
  deriving DecidableEq

namespace Double

/-- The magnitude word of the infinities; larger magnitude words are NaNs. -/
def infinityWord : Nat := 0x7ff0000000000000

/-- The number with the given sign and magnitude word. -/
def ofWord (negative : Bool) (magnitude : Nat) : Double :=
  ⟨UInt64.ofNat (if negative then 0x8000000000000000 + magnitude else magnitude)⟩

/-- The zero of the given sign. -/
def zero (negative : Bool) : Double := ofWord negative 0

/-- The infinity of the given sign. -/
def infinity (negative : Bool) : Double := ofWord negative infinityWord

/-- The NaN that stands for all of them. -/
def nan : Double := ofWord false 0x7ff8000000000000

instance : Inhabited Double := ⟨zero false⟩

/-! ### Parts of a number -/

/-- The sign bit; a negative zero has it too. -/
def negative (x : Double) : Bool := decide (0x8000000000000000 ≤ x.bits.toNat)

/-- The word without its sign: magnitudes of numbers are ordered as their words are. -/
def magnitude (x : Double) : Nat := x.bits.toNat % 0x8000000000000000

/-- The eleven exponent bits. -/
def exponentField (x : Double) : Nat := x.magnitude / 0x10000000000000

/-- The fifty-two fraction bits. -/
def fraction (x : Double) : Nat := x.magnitude % 0x10000000000000

/-- The integer `m` of a finite number `m · 2 ^ exponent`: the fraction, with the hidden bit in
front unless the number is subnormal. -/
def significand (x : Double) : Nat :=
  if x.exponentField = 0 then x.fraction else 0x10000000000000 + x.fraction

/-- The power of two that the significand of a finite number counts. -/
def exponent (x : Double) : Int :=
  if x.exponentField = 0 then -1074 else (x.exponentField : Int) - 1075

/-! ### Classes -/

/-- The word encodes no number. -/
def isNaN (x : Double) : Bool := decide (infinityWord < x.magnitude)

/-- The number is an infinity of either sign. -/
def isInfinite (x : Double) : Bool := decide (x.magnitude = infinityWord)

/-- The number is neither an infinity nor a NaN. -/
def isFinite (x : Double) : Bool := decide (x.magnitude < infinityWord)

/-- The number is a zero of either sign. -/
def isZero (x : Double) : Bool := decide (x.magnitude = 0)

/-- The number is above zero. -/
def isPositive (x : Double) : Bool := !x.isNaN && !x.negative && !x.isZero

/-- The same magnitude with the other sign. -/
def neg (x : Double) : Double := ofWord (!x.negative) x.magnitude

/-! ### Comparison -/

/-- Equality of numbers: the zeros are equal whatever their sign, and a NaN equals nothing, itself
included. -/
def same (x y : Double) : Bool :=
  !x.isNaN && !y.isNaN && (x.bits == y.bits || (x.isZero && y.isZero))

/-- The word of a finite number splits into its exponent and fraction bits. -/
theorem magnitude_eq (x : Double) :
    x.magnitude = x.exponentField * 0x10000000000000 + x.fraction := by
  simp only [exponentField, fraction]
  omega

end Double

end Conform
