import Conform.Number

/-!
# JSON numerals

`Numeral.parse?` splits a numeral into its parts.  It takes no sign but a minus before the number,
no leading zeros, a point only between digits, and an exponent only with digits.

`Numeral.number?` is the number that a reader takes it for.  A numeral without fraction and exponent
is an integer if it fits; everything else is a double, computed from the leading digits that fit
into 64 bits and then scaled by a power of ten in double arithmetic.  That is exact for short
numerals, and for long ones it may differ from the nearest double in the last place.
-/

namespace Conform.Json

/-- The parts of a numeral; `exponent` has its minus sign and its digits. -/
structure Numeral where
  negative : Bool
  whole : List Char
  fraction : List Char
  exponent : Option (Bool × List Char)
  deriving DecidableEq

namespace Numeral

/-- The ASCII digits. -/
def isDigit (c : Char) : Bool := decide ('0' ≤ c ∧ c ≤ '9')

/-- The value of a digit. -/
def digitValue (c : Char) : Nat := c.toNat - '0'.toNat

/-- The value of a row of digits. -/
def digitsValue (digits : List Char) : Nat := digits.foldl (fun n c => n * 10 + digitValue c) 0

/-- An exponent after its `e`: an optional sign and at least one digit, to the end. -/
def exponentPart? (cs : List Char) : Option (Bool × List Char) :=
  let (negative, digits) :=
    match cs with
    | '-' :: rest => (true, rest)
    | '+' :: rest => (false, rest)
    | _ => (false, cs)
  if digits.isEmpty || !digits.all isDigit then none else some (negative, digits)

/-- What may follow the digits of a numeral: nothing, or an exponent. -/
def tail? (cs : List Char) : Option (Option (Bool × List Char)) :=
  match cs with
  | [] => some none
  | c :: rest => if c = 'e' ∨ c = 'E' then (exponentPart? rest).map some else none

/-- The parts of a numeral, if the text is one. -/
def parse? (cs : List Char) : Option Numeral := do
  let (negative, unsigned) :=
    match cs with
    | '-' :: rest => (true, rest)
    | _ => (false, cs)
  let whole := unsigned.takeWhile isDigit
  let rest := unsigned.dropWhile isDigit
  if whole.isEmpty || (whole.head? == some '0' && 1 < whole.length) then none
  match rest with
  | '.' :: afterPoint =>
    let fraction := afterPoint.takeWhile isDigit
    if fraction.isEmpty then none
    let exponent ← tail? (afterPoint.dropWhile isDigit)
    some { negative, whole, fraction, exponent }
  | _ =>
    let exponent ← tail? rest
    some { negative, whole, fraction := [], exponent }

/-- Appends digits to a count as long as it stays within 64 bits; the digits left over begin with
the first that did not fit. -/
def fitDigits : Nat → List Char → Nat × List Char
  | n, [] => (n, [])
  | n, c :: cs =>
    let next := n * 10 + digitValue c
    if next < 0x10000000000000000 then fitDigits next cs else (n, c :: cs)

/-- The greatest power of ten that is a double. -/
def greatestPower : Nat := 308

/-- The double nearest to a power of ten. -/
def powerOfTen (k : Nat) : Double := Double.ofNat (wholePower 10 k)

/-- A double times a power of ten, in at most three roundings; none if it leaves the range. -/
def scale? (x : Double) (exponent : Int) : Option Double :=
  if x.isZero then some x
  else if 0 ≤ exponent then
    if greatestPower < exponent.toNat then none
    else
      let y := x.mul (powerOfTen exponent.toNat)
      if y.isInfinite then none else some y
  else
    let k := (-exponent).toNat
    if k ≤ greatestPower then some (x.div (powerOfTen k))
    else if k ≤ 2 * greatestPower then
      some ((x.div (powerOfTen greatestPower)).div (powerOfTen (k - greatestPower)))
    else some (Double.zero false)

/-- The exponent that is written, zero if none is. -/
def exponentValue (numeral : Numeral) : Int :=
  match numeral.exponent with
  | none => 0
  | some (true, digits) => -(digitsValue digits : Int)
  | some (false, digits) => digitsValue digits

/-- The double a numeral is read as. -/
def double? (numeral : Numeral) : Option Double := do
  let (head, extra) := fitDigits 0 numeral.whole
  let (significand, dropped) := fitDigits head numeral.fraction
  let taken := numeral.fraction.length - dropped.length
  let exponent := (extra.length : Int) - taken + numeral.exponentValue
  let x ← scale? (Double.ofNat significand) exponent
  some (if numeral.negative then x.neg else x)

/-- The integer a numeral is read as: it has neither fraction nor exponent, is in the signed or the
unsigned 64-bit range, and is not a negative zero. -/
def integer? (numeral : Numeral) : Option Int :=
  let n := digitsValue numeral.whole
  if numeral.fraction.isEmpty && numeral.exponent.isNone then
    if numeral.negative then
      if 0 < n ∧ n ≤ 0x8000000000000000 then some (-(n : Int)) else none
    else if n < 0x10000000000000000 then some (n : Int) else none
  else none

/-- The number a numeral is read as; none if it is beyond all doubles. -/
def number? (numeral : Numeral) : Option Number :=
  match numeral.integer? with
  | some n => Number.ofInt? n
  | none => numeral.double?.bind Number.ofDouble?

end Numeral

/-- The number of a spelled numeral. -/
def numberOfNumeral? (numeral : List Char) : Option Number :=
  (Numeral.parse? numeral).bind Numeral.number?

end Conform.Json
