import Conform.Double.Shortest

/-!
# Numerals of doubles

A `NumeralStyle` is what a format decides about the text of a double: it fixes from which
exponent on digits are written positionally, how an exponent is signed, which way halves go, and
the texts of what is no finite number.  `Double.numeral` writes a double in a style.
-/

namespace Conform

/-- A format's decisions on the text of a double. -/
structure NumeralStyle where
  /-- The least leading exponent that is written positionally. -/
  leastPlain : Int
  /-- Positive exponents carry a plus sign. -/
  plusSign : Bool
  /-- Where halves between two shortest decimals go. -/
  half : HalfTo
  /-- The text of a NaN. -/
  nan : List Char
  /-- The text of positive infinity. -/
  infinite : List Char
  /-- The text of negative infinity. -/
  negativeInfinite : List Char

namespace Decimal

/-- The greatest leading exponent that any style writes positionally. -/
def greatestPlain : Int := 15

/-- Positional notation, with at least one digit on either side of the point. -/
def plain (d : Decimal) : List Char :=
  if d.lead < 0 then
    '0' :: '.' :: (List.replicate (-d.lead - 1).toNat '0' ++ d.digits)
  else
    let whole := d.lead.toNat + 1
    let filled := d.digits ++ List.replicate (whole - d.digits.length) '0'
    filled.take whole ++ '.' :: (if filled.length ≤ whole then ['0'] else filled.drop whole)

/-- Scientific notation: a point only before further digits, and the exponent in decimal. -/
def scientific (plusSign : Bool) (d : Decimal) : List Char :=
  let fraction := d.digits.drop 1
  let sign := if d.lead < 0 then ['-'] else if plusSign then ['+'] else []
  d.digits.take 1 ++ (if fraction.isEmpty then [] else '.' :: fraction)
    ++ 'e' :: (sign ++ Nat.toDigits 10 d.lead.natAbs)

end Decimal

namespace Double

/-- The text of a double in a style: the shortest decimal that reads back, positional for the
style's exponents up to `greatestPlain` and scientific beyond. -/
def numeral (style : NumeralStyle) (x : Double) : List Char :=
  if x.isNaN then style.nan
  else if x.isInfinite then (if x.negative then style.negativeInfinite else style.infinite)
  else
    let sign := if x.negative then ['-'] else []
    if x.isZero then sign ++ ['0', '.', '0'] else
      let d := x.shortest style.half
      let text :=
        if style.leastPlain ≤ d.lead ∧ d.lead ≤ Decimal.greatestPlain then d.plain
        else d.scientific style.plusSign
      sign ++ text

end Double

end Conform
