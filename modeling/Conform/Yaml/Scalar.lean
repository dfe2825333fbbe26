import Conform.Yaml.Basic

/-!
# Scalars

What a scalar stands for.  A plain one is a null, a truth value, an integer or a float if it is
spelled like one, and else a string; a quoted one is a string.  Integers that fit 128 bits but not
64 stand for nothing.  How scalars are resolved is up to the reader that `Yaml.parse?` stands for.
-/

namespace Conform.Yaml

/-- What a tag says about a scalar. -/
inductive CoreType where
  | null
  | bool
  | int
  | float
  /-- Any other type, of which only strings are known. -/
  | other
  deriving DecidableEq

/-- The spellings of null. -/
def isNullText (text : List Char) : Bool :=
  text == "null".toList || text == "Null".toList || text == "NULL".toList || text == ['~']

/-- The truth value that is spelled. -/
def boolOf? (text : List Char) : Option Bool :=
  if text = "true".toList ∨ text = "True".toList ∨ text = "TRUE".toList then some true
  else if text = "false".toList ∨ text = "False".toList ∨ text = "FALSE".toList then some false
  else none

/-- The value of a digit in bases up to sixteen. -/
def digitOf? (c : Char) : Option Nat :=
  if '0' ≤ c ∧ c ≤ '9' then some (c.toNat - '0'.toNat)
  else if 'a' ≤ c ∧ c ≤ 'f' then some (c.toNat - 'a'.toNat + 10)
  else if 'A' ≤ c ∧ c ≤ 'F' then some (c.toNat - 'A'.toNat + 10)
  else none

/-- The value of a row of digits in a base; none if there are no digits or other characters. -/
def digitsOf? (base : Nat) (digits : List Char) : Option Nat :=
  if digits.isEmpty then none
  else
    digits.foldl
      (fun n c => n.bind fun n => (digitOf? c).bind fun d =>
        if d < base then some (n * base + d) else none)
      (some 0)

/-- Digits after a zero, possibly signed: a spelling that is no number. -/
def hasLeadingZero (text : List Char) : Bool :=
  let digits :=
    match text with
    | '-' :: rest | '+' :: rest => rest
    | _ => text
  1 < digits.length && digits.head? == some '0' && digits.all Char.isDigit

/-- The magnitude of a numeral without sign: in base 16, 8 or 2 after the mark of the base, or in
decimal without leading zeros. -/
def magnitudeOf? (text : List Char) : Option Nat :=
  match text with
  | '0' :: 'x' :: rest => digitsOf? 16 rest
  | '0' :: 'o' :: rest => digitsOf? 8 rest
  | '0' :: 'b' :: rest => digitsOf? 2 rest
  | _ => if hasLeadingZero text then none else digitsOf? 10 text

/-- The integer that is spelled, of any size. -/
def integerOf? (text : List Char) : Option Int :=
  match text with
  | '-' :: rest => (magnitudeOf? rest).map fun n => -(n : Int)
  | '+' :: rest => (magnitudeOf? rest).map fun n => (n : Int)
  | _ => (magnitudeOf? text).map fun n => (n : Int)

/-- The exponent behind the digits of a float: none at all, or a mark, a sign and digits. -/
def exponentOf? (text : List Char) : Option Int :=
  match text with
  | [] => some 0
  | c :: rest =>
    if c = 'e' ∨ c = 'E' then
      match rest with
      | '-' :: digits => (digitsOf? 10 digits).map fun n => -(n : Int)
      | '+' :: digits => (digitsOf? 10 digits).map fun n => (n : Int)
      | digits => (digitsOf? 10 digits).map fun n => (n : Int)
    else none

/-- The double of a decimal numeral: an optional sign, digits on at least one side of a point, and
an optional exponent. -/
def decimalFloatOf? (text : List Char) : Option Double := do
  let (negative, unsigned) :=
    match text with
    | '-' :: rest => (true, rest)
    | '+' :: rest => (false, rest)
    | _ => (false, text)
  let whole := unsigned.takeWhile Char.isDigit
  let rest := unsigned.dropWhile Char.isDigit
  let (fraction, rest) :=
    match rest with
    | '.' :: rest => (rest.takeWhile Char.isDigit, rest.dropWhile Char.isDigit)
    | _ => ([], rest)
  let digits ← digitsOf? 10 (whole ++ fraction)
  let exponent ← exponentOf? rest
  some (Double.ofDecimal negative digits (exponent - fraction.length))

/-- The float that is spelled: an infinity, a NaN, or a decimal that is in range. -/
def floatOf? (text : List Char) : Option Double :=
  let unsigned :=
    match text with
    | '+' :: rest => rest
    | _ => text
  if unsigned = ".inf".toList ∨ unsigned = ".Inf".toList ∨ unsigned = ".INF".toList then
    some (Double.infinity false)
  else if text = "-.inf".toList ∨ text = "-.Inf".toList ∨ text = "-.INF".toList then
    some (Double.infinity true)
  else if text = ".nan".toList ∨ text = ".NaN".toList ∨ text = ".NAN".toList then some Double.nan
  else
    match decimalFloatOf? text with
    | some x => if x.isFinite then some x else none
    | none => none

/-- An integer of 128 bits, signed or not. -/
def fits128 (n : Int) : Bool := -wholePower 2 127 ≤ n && n < wholePower 2 128

/-- What a plain scalar stands for, or nothing. -/
def ofPlain? (text : List Char) : Option Yaml :=
  if text.isEmpty || isNullText text then some null
  else
    match boolOf? text, integerOf? text with
    | some b, _ => some (bool b)
    | none, some n =>
      match ofInt? n with
      | some tree => some tree
      | none =>
        if fits128 n then none
        else
          match floatOf? text with
          | some x => some (float x)
          | none => some (string (String.ofList text))
    | none, none =>
      if hasLeadingZero text then some (string (String.ofList text))
      else
        match floatOf? text with
        | some x => some (float x)
        | none => some (string (String.ofList text))

/-- What a scalar stands for, given the type that its tag asks for; nothing if it is not of that
type. -/
def ofScalar? (type : Option CoreType) (plain : Bool) (text : List Char) : Option Yaml :=
  match type with
  | none => if plain then ofPlain? text else some (string (String.ofList text))
  | some .null => if isNullText text then some null else none
  | some .bool => (boolOf? text).map bool
  | some .int => (integerOf? text).bind ofInt?
  | some .float => (floatOf? text).map float
  | some .other => some (string (String.ofList text))

end Conform.Yaml
