import Conform.Document.Basic
import Conform.Term.Literal

/-!
# YAML trees

A `Yaml` is what a YAML text says once aliases are followed and plain scalars are resolved: numbers
include infinities and NaN, the keys of a mapping are trees of any kind in the order in which they
stand, and a tag may sit on any node.

* `Yaml.same` is the equality under which two keys of a mapping must differ.
* `Yaml.keyText?` is the text of a scalar key, and `Yaml.explicit` the form in which the other keys
  are shown.
-/

namespace Conform

/-- A parsed YAML value. -/
inductive Yaml where
  | null
  | bool (value : Bool)
  | integer (n : Int) (least : -0x8000000000000000 ≤ n) (below : n < 0x10000000000000000)
  | float (x : Double)
  | string (text : String)
  | sequence (items : List Yaml)
  | mapping (members : List (Yaml × Yaml))
  | tagged (tag : String) (value : Yaml)

namespace Yaml

instance : Inhabited Yaml := ⟨null⟩

/-- The tree of an integer that is in range. -/
def ofInt? (n : Int) : Option Yaml :=
  if least : -0x8000000000000000 ≤ n then
    if below : n < 0x10000000000000000 then some (integer n least below) else none
  else none

/-- The name of a tag, which is its text without the exclamation mark in front, unless that mark is
all of it. -/
def tagName : List Char → List Char
  | '!' :: c :: cs => c :: cs
  | text => text

/-- Floats in YAML: positional from `0.00001` on, exponents without a plus sign. -/
def numerals : NumeralStyle where
  leastPlain := -5
  plusSign := false
  half := .even
  nan := ".nan".toList
  infinite := ".inf".toList
  negativeInfinite := "-.inf".toList

/-- The text of a float. -/
def floatText (x : Double) : List Char := x.numeral numerals

/-- The text of a key that is a string, a number or a truth value. -/
def keyText? : Yaml → Option String
  | string text => some text
  | integer n _ _ => some (String.ofList (decimal n))
  | float x => some (String.ofList (floatText x))
  | bool b => some (String.ofList (truthText b))
  | _ => none

/-! ### Equality -/

mutual

/-- The trees are equal as keys: a NaN equals a NaN, a zero the other, and the members of a mapping
are compared without regard to their order. -/
def same : Yaml → Yaml → Bool
  | null, null => true
  | bool a, bool b => a == b
  | integer m _ _, integer n _ _ => m == n
  | float x, float y => (x.isNaN && y.isNaN) || x.same y
  | string s, string t => s == t
  | sequence xs, sequence ys => sameItems xs ys
  | mapping ms, mapping ns => ms.length == ns.length && containsAll ms ns
  | tagged s x, tagged t y => s == t && x.same y
  | _, _ => false

/-- The sequences are equal element by element. -/
def sameItems : List Yaml → List Yaml → Bool
  | [], [] => true
  | x :: xs, y :: ys => x.same y && sameItems xs ys
  | _, _ => false

/-- Every member of the first list is equal to one of the second. -/
def containsAll : List (Yaml × Yaml) → List (Yaml × Yaml) → Bool
  | [], _ => true
  | (k, v) :: ms, ns => (ns.any fun n => k.same n.1 && v.same n.2) && containsAll ms ns

end

/-! ### Explicit form -/

mutual

/-- The explicit form of a tree: the variant of every node, except that mappings show keys which are
strings, numbers or truth values by themselves. -/
def explicit : Yaml → List Char
  | null => "Null".toList
  | bool b => Term.variant "Bool" (truthText b)
  | integer n _ _ => Term.variant "Number" (decimal n)
  | float x => Term.variant "Number" (floatText x)
  | string text => Term.variant "String" (Text.quoted text)
  | sequence items =>
    "Sequence ".toList ++ enclosed ['['] (commaSeparated (explicitItems items)) [']']
  | mapping members =>
    "Mapping ".toList ++ enclosed ['\x7b'] (commaSeparated (explicitMembers members)) ['\x7d']
  | tagged tag value =>
    "TaggedValue ".toList ++ enclosed ['\x7b', ' ', 't', 'a', 'g', ':', ' ', '!']
      (tag.toList ++ ", value: ".toList ++ value.explicit) [' ', '\x7d']

/-- The explicit forms of the elements of a sequence. -/
def explicitItems : List Yaml → List (List Char)
  | [] => []
  | x :: xs => x.explicit :: explicitItems xs

/-- The explicit forms of the members of a mapping. -/
def explicitMembers : List (Yaml × Yaml) → List (List Char)
  | [] => []
  | (k, v) :: ms =>
    let shown :=
      match k with
      | bool b => truthText b
      | integer n _ _ => decimal n
      | float x => floatText x
      | string text => Text.quoted text
      | other => other.explicit
    (shown ++ ':' :: ' ' :: v.explicit) :: explicitMembers ms

end

end Yaml

end Conform
