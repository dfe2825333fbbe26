import Conform.Double.Numeral
import Conform.Term.Basic
import Conform.Text.Quoted

/-!
# Texts of terms

The *literal form* writes a term as messages show it: `null`, `true`, decimal integers, floats with
a point or an exponent, quoted strings, bare atoms, `[a, b]`, `(a, b)` and `{"k": v}`.  The
*explicit form* names the variant of every node, as in `List([Int(1), Null])`.
-/

namespace Conform

/-- Texts side by side, a comma and a blank between any two. -/
def commaSeparated (texts : List (List Char)) : List Char := [',', ' '].intercalate texts

/-- A text with another in front and a third behind. -/
def enclosed (opening : List Char) (text : List Char) (closing : List Char) : List Char :=
  opening ++ text ++ closing

/-- The decimal numeral of an integer. -/
def decimal (n : Int) : List Char :=
  if n < 0 then '-' :: Nat.toDigits 10 n.natAbs else Nat.toDigits 10 n.natAbs

/-- The truth values as texts. -/
def truthText (b : Bool) : List Char :=
  if b then ['t', 'r', 'u', 'e'] else ['f', 'a', 'l', 's', 'e']

namespace Term

/-- Floats in messages: positional from `0.0001` on, exponents without a plus sign. -/
def literalNumerals : NumeralStyle where
  leastPlain := -4
  plusSign := false
  half := .upper
  nan := ['N', 'a', 'N']
  infinite := ['i', 'n', 'f']
  negativeInfinite := ['-', 'i', 'n', 'f']

mutual

/-- The literal form, for a given text of floats. -/
def render (float : Double → List Char) : Term → List Char
  | null => ['n', 'u', 'l', 'l']
  | bool b => truthText b
  | int n => decimal n.toInt
  | uint n => decimal n.toNat
  | .float x => float x
  | str text => Text.quoted text
  | atom text => text.toList
  | list items => enclosed ['['] (commaSeparated (renderItems float items)) [']']
  | tuple items => enclosed ['('] (commaSeparated (renderItems float items)) [')']
  | map entries => enclosed ['\x7b'] (commaSeparated (renderEntries float entries)) ['\x7d']

/-- The literal forms of the elements of a sequence. -/
def renderItems (float : Double → List Char) : List Term → List (List Char)
  | [] => []
  | x :: xs => x.render float :: renderItems float xs

/-- The literal forms of the entries of a map: quoted key, colon, value. -/
def renderEntries (float : Double → List Char) : List (String × Term) → List (List Char)
  | [] => []
  | (k, x) :: es => (Text.quoted k ++ ':' :: ' ' :: x.render float) :: renderEntries float es

end

/-- The literal form of a term. -/
def literal (t : Term) : List Char := t.render (Double.numeral literalNumerals)

/-- An explicit node: the name of a variant and its contents in parentheses. -/
def variant (name : String) (contents : List Char) : List Char :=
  name.toList ++ enclosed ['('] contents [')']

mutual

/-- The explicit form of a term. -/
def explicit : Term → List Char
  | null => "Null".toList
  | bool b => variant "Bool" (truthText b)
  | int n => variant "Int" (decimal n.toInt)
  | uint n => variant "UInt" (decimal n.toNat)
  | float x => variant "Float" (x.numeral literalNumerals)
  | str text => variant "Str" (Text.quoted text)
  | atom text => variant "Atom" (Text.quoted text)
  | list items => variant "List" (enclosed ['['] (commaSeparated (explicitItems items)) [']'])
  | tuple items => variant "Tuple" (enclosed ['['] (commaSeparated (explicitItems items)) [']'])
  | map entries => variant "Map" (enclosed ['['] (commaSeparated (explicitEntries entries)) [']'])

/-- The explicit forms of the elements of a sequence. -/
def explicitItems : List Term → List (List Char)
  | [] => []
  | x :: xs => x.explicit :: explicitItems xs

/-- The explicit forms of the entries of a map, each a pair of a quoted key and a value. -/
def explicitEntries : List (String × Term) → List (List Char)
  | [] => []
  | (k, x) :: es =>
    enclosed ['('] (commaSeparated [Text.quoted k, x.explicit]) [')'] :: explicitEntries es

end

/-- Explicit forms in brackets. -/
def explicitList (items : List Term) : List Char :=
  enclosed ['['] (commaSeparated (explicitItems items)) [']']

end Term

end Conform
