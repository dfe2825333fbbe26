import Conform.Double.Rounding

/-!
# The shortest decimal of a double

The reals that round to a double form an interval around it, half a unit to either side, whose ends
belong to it iff the significand is even.  `Double.shortest` is the decimal with the fewest digits
in that interval and, of those, the nearest to the double.

On the grid of decimals with `n` digits only the two neighbours of the double matter: if any point
of the grid lies in the interval, so does one of them.  The search therefore tries the neighbours
for `n = 1, 2, …`; seventeen digits always suffice.
-/

namespace Conform

/-- Where a value halfway between two shortest decimals goes. -/
inductive HalfTo where
  | upper
  | even
  deriving DecidableEq

/-- The decimal `d.ddd… · 10 ^ lead`: digits from the leading one on. -/
structure Decimal where
  digits : List Char
  lead : Int
  deriving DecidableEq

/-- The digits of `n`, none for zero. -/
def decimalLength (n : Nat) : Nat := if n = 0 then 0 else (Nat.toDigits 10 n).length

/-- The greatest `e` with `10 ^ e ≤ num / den`, for positive `num` and `den`: below one it is found
from the rounded-up inverse. -/
def ratioLog10 (num den : Nat) : Int :=
  if den ≤ num then (decimalLength (num / den) : Int) - 1
  else -(decimalLength ((den - 1) / num) : Int)

namespace Double

/-- The interval of reals that round to a positive double: `mid`, `low` and `high` over one `den`;
the ends belong to it iff `closed`. -/
structure Interval where
  low : Nat
  mid : Nat
  high : Nat
  den : Nat
  closed : Bool

/-- The interval of a finite positive double.  Quarters of a unit are counted, for below a power of
two the neighbour is half as far as above. -/
def interval (x : Double) : Interval :=
  let m := x.significand
  let e := x.exponent - 2
  let scale := wholePower 2 e
  let below := if x.fraction = 0 ∧ 1 < x.exponentField then 1 else 2
  { low := (4 * m - below) * scale
    mid := 4 * m * scale
    high := (4 * m + 2) * scale
    den := wholePower 2 (-e)
    closed := m % 2 == 0 }

/-- The point `c · step / scale` of a grid lies in the interval. -/
def Interval.has (i : Interval) (scale step c : Nat) : Bool :=
  let point := c * step * i.den
  let above := i.low * scale
  let below := i.high * scale
  if i.closed then decide (above ≤ point ∧ point ≤ below)
  else decide (above < point ∧ point < below)

/-- The neighbour of the double with `n` digits that lies in the interval, the nearer one if both
do; `lead` is the double's leading exponent. -/
def Interval.neighbour (i : Interval) (half : HalfTo) (lead : Int) (n : Nat) : Option Nat :=
  let unit := lead + 1 - n
  let step := wholePower 10 unit
  let scale := wholePower 10 (-unit)
  let floor := i.mid * scale / (step * i.den)
  match i.has scale step floor, i.has scale step (floor + 1) with
  | false, false => none
  | true, false => some floor
  | false, true => some (floor + 1)
  | true, true =>
    let middle := (2 * floor + 1) * (step * i.den)
    let twice := 2 * (i.mid * scale)
    if twice < middle then some floor
    else if middle < twice then some (floor + 1)
    else match half with
      | .upper => some (floor + 1)
      | .even => some (if floor % 2 = 0 then floor else floor + 1)

/-- The first neighbour found from `n` digits on, with the exponent of its last digit; `more` is how
many further lengths are tried. -/
def Interval.search (i : Interval) (half : HalfTo) (lead : Int) : Nat → Nat → Nat × Int
  | 0, n =>
    let unit := lead + 1 - n
    (i.mid * wholePower 10 (-unit) / (wholePower 10 unit * i.den), unit)
  | more + 1, n =>
    match i.neighbour half lead n with
    | some c => (c, lead + 1 - n)
    | none => i.search half lead more (n + 1)

/-- The shortest decimal of the magnitude of a finite nonzero double. -/
def shortest (half : HalfTo) (x : Double) : Decimal :=
  let i := x.interval
  let found := i.search half (ratioLog10 i.mid i.den) 17 1
  let digits := Nat.toDigits 10 found.1
  let kept := (digits.reverse.dropWhile (· == '0')).reverse
  { digits := kept, lead := found.2 + digits.length - 1 }

example : shortest .even ⟨0x3fd3333333333334⟩ = ⟨"30000000000000004".toList, -1⟩ := by
  decide +kernel
example : shortest .even ⟨1⟩ = ⟨['5'], -324⟩ := by decide +kernel
example : shortest .even ⟨0x4341c37937e08000⟩ = ⟨['1'], 16⟩ := by decide +kernel
example : shortest .even ⟨0x7fefffffffffffff⟩ = ⟨"17976931348623157".toList, 308⟩ := by
  decide +kernel

end Double

end Conform
