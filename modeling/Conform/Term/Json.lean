import Conform.Json.Reader
import Conform.Term.Literal

/-!
# JSON form of terms

A term is written as a string for `Null` and else as an object of one member, named for its variant.
Maps are arrays of pairs, so that order and repeated keys survive.  A float that is not finite has
no numeral and is written as `null`, which no reader takes back.
-/

namespace Conform

namespace Json

/-- Floats in JSON: positional from `0.00001` on, positive exponents with a plus sign. -/
def numerals : NumeralStyle where
  leastPlain := -5
  plusSign := true
  half := .even
  nan := "null".toList
  infinite := "null".toList
  negativeInfinite := "null".toList

/-- The JSON form of an integer. -/
def ofInteger (n : Int) : Json := number (decimal n)

/-- The JSON form of a double: its numeral if it is finite. -/
def ofDouble (x : Double) : Json := if x.isFinite then number (x.numeral numerals) else null

/-- The number of a numeral. -/
def asNumber? : Json → Option Number
  | number numeral => numberOfNumeral? numeral
  | _ => none

/-- The integer of a numeral. -/
def asInteger? (value : Json) : Option Int :=
  match value.asNumber? with
  | some (.integer n _ _) => some n
  | _ => none

/-- The double of a numeral; integers are rounded to one. -/
def asDouble? (value : Json) : Option Double :=
  match value.asNumber? with
  | some (.integer n _ _) => some (Double.ofInt n)
  | some (.float x _) => some x
  | none => none

/-- The truth value. -/
def asBool? : Json → Option Bool
  | bool b => some b
  | _ => none

/-- How a variant without contents may be spelled as an object: with `null`, or also with an empty
object where the reader has the whole value at hand before it knows the type. -/
inductive Leniency where
  | strict
  | lenient
  deriving DecidableEq

/-- The contents of a variant that has none. -/
def isUnit (leniency : Leniency) : Json → Bool
  | null => true
  | object [] => leniency == .lenient
  | _ => false

/-- The only member of an object of one member. -/
def onlyMember? : Json → Option (String × Json)
  | object [(name, content)] => (text? name).map fun name => (name, content)
  | _ => none

end Json

namespace Term

/-- An object of one member, the JSON form of a variant with contents. -/
def tagged (name : String) (content : Json) : Json := Json.ofMembers [(name, content)]

mutual

/-- The JSON form of a term. -/
def toJson : Term → Json
  | null => Json.ofString "Null"
  | bool b => tagged "Bool" (.bool b)
  | int n => tagged "Int" (Json.ofInteger n.toInt)
  | uint n => tagged "UInt" (Json.ofInteger n.toNat)
  | float x => tagged "Float" (Json.ofDouble x)
  | str text => tagged "Str" (Json.ofString text)
  | atom text => tagged "Atom" (Json.ofString text)
  | list items => tagged "List" (.array (toJsonItems items))
  | tuple items => tagged "Tuple" (.array (toJsonItems items))
  | map entries => tagged "Map" (.array (toJsonEntries entries))

/-- The JSON forms of the elements of a sequence. -/
def toJsonItems : List Term → List Json
  | [] => []
  | x :: xs => x.toJson :: toJsonItems xs

/-- The JSON forms of the entries of a map, pairs of a key and a value. -/
def toJsonEntries : List (String × Term) → List Json
  | [] => []
  | (k, x) :: es => .array [Json.ofString k, x.toJson] :: toJsonEntries es

end

/-- The term of a variant whose contents are a leaf. -/
def ofLeaf? (leniency : Json.Leniency) (name : String) (content : Json) : Option Term :=
  if name = "Null" then (if Json.isUnit leniency content then some null else none)
  else if name = "Bool" then content.asBool?.map bool
  else if name = "Int" then
    content.asInteger?.bind fun n =>
      if n < 0x8000000000000000 then some (int (Int64.ofInt n)) else none
  else if name = "UInt" then
    content.asInteger?.bind fun n =>
      if 0 ≤ n then some (uint (UInt64.ofNat n.toNat)) else none
  else if name = "Float" then content.asDouble?.map float
  else if name = "Str" then content.asString?.map str
  else if name = "Atom" then content.asString?.map atom
  else none

mutual

/-- The term that a JSON value is the form of. -/
def ofJson? (leniency : Json.Leniency) : Json → Option Term
  | .string pieces => if Json.text? pieces = some "Null" then some null else none
  | .object [(pieces, .array items)] =>
    (Json.text? pieces).bind fun name =>
      if name = "List" then (ofJsonItems? leniency items).map list
      else if name = "Tuple" then (ofJsonItems? leniency items).map tuple
      else if name = "Map" then (ofJsonEntries? leniency items).map map
      else none
  | .object [(pieces, content)] =>
    (Json.text? pieces).bind fun name => ofLeaf? leniency name content
  | _ => none

/-- The terms of a list of JSON values. -/
def ofJsonItems? (leniency : Json.Leniency) : List Json → Option (List Term)
  | [] => some []
  | v :: vs => (ofJson? leniency v).bind fun x => (ofJsonItems? leniency vs).map (x :: ·)

/-- The entries of a list of pairs. -/
def ofJsonEntries? (leniency : Json.Leniency) : List Json → Option (List (String × Term))
  | [] => some []
  | .array [key, v] :: rest =>
    key.asString?.bind fun k =>
      (ofJson? leniency v).bind fun x =>
        (ofJsonEntries? leniency rest).map ((k, x) :: ·)
  | _ => none

end

/-- The JSON text of a term. -/
def jsonText (t : Term) : List Char := t.toJson.text

/-- The term of a JSON text, which may nest up to the limit. -/
def ofJsonText? (text : List Char) : Option Term :=
  (Json.parse? text).bind fun v =>
    if v.depth ≤ Json.depthLimit then ofJson? .strict v else none

end Term

end Conform
