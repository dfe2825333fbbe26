import Conform.Spec.Basic
import Conform.Term.Equality
import Conform.Term.Literal

/-!
# Stock predicates and conversions

A specification takes any predicate and any conversion, as functions on terms.  The ones here have
names, so that a specification with them can be written down as data and given from outside; nothing
in a match depends on which functions there are.  A predicate is false of a term that is not of the
type it is about; a conversion fails on one, and says why.
-/

namespace Conform

/-- A property of terms. -/
inductive Predicate where
  | always
  | never
  /-- A number above zero. -/
  | positive
  /-- An `int` within bounds. -/
  | between (low high : Int)
  /-- An integer that is not negative and not below a bound. -/
  | atLeast (low : Nat)
  /-- A string that is not empty. -/
  | nonEmpty
  | isTrue
  /-- A list or tuple of at least so many elements. -/
  | lengthAtLeast (n : Nat)
  /-- A term of the kind of that name. -/
  | kind (name : String)
  | numeric
  | isProplist
  /-- An atom or a string. -/
  | isKey
  | equals (t : Term)

namespace Predicate

/-- The elements of a list or a tuple. -/
def sequence? : Term → Option (List Term)
  | .list items | .tuple items => some items
  | _ => none

/-- The property holds of the term. -/
def holds : Predicate → Term → Bool
  | always, _ => true
  | never, _ => false
  | positive, t => t.asDouble?.any Double.isPositive
  | between low high, t => t.asInt64?.any fun n => decide (low ≤ n.toInt ∧ n.toInt ≤ high)
  | atLeast low, t => t.asUInt64?.any fun n => decide (low ≤ n.toNat)
  | nonEmpty, t => t.asString?.any fun text => !text.isEmpty
  | isTrue, t => t.asBool? == some true
  | lengthAtLeast n, t => (sequence? t).any fun items => decide (n ≤ items.length)
  | kind name, t => t.kind.name == name
  | numeric, t => t.kind.isNumeric
  | isProplist, t => t.asProplist?.isSome
  | isKey, t => t.keyName?.isSome
  | equals u, t => t.same u

end Predicate

/-- A text cut at every occurrence of a nonempty separator, from left to right; `skip` characters
belong to a separator already found and `piece` is the piece so far, in reverse. -/
def cutAt (separator : List Char) : Nat → List Char → List Char → List (List Char)
  | _, piece, [] => [piece.reverse]
  | skip + 1, piece, _ :: cs => cutAt separator skip piece cs
  | 0, piece, c :: cs =>
    if separator.isPrefixOf (c :: cs) then
      piece.reverse :: cutAt separator (separator.length - 1) [] cs
    else cutAt separator 0 (c :: piece) cs

/-- The pieces of a text between occurrences of a separator.  An empty separator occurs before every
character and at the end. -/
def splitText (separator text : List Char) : List (List Char) :=
  if separator.isEmpty then [] :: (text.map fun c => [c]) ++ [[]]
  else cutAt separator 0 [] text

/-- The integer of a decimal numeral with an optional minus. -/
def decimalInt? (text : List Char) : Option Int :=
  let (negative, digits) :=
    match text with
    | '-' :: rest => (true, rest)
    | _ => (false, text)
  if digits.isEmpty || !digits.all fun c => decide ('0' ≤ c ∧ c ≤ '9') then none
  else
    let n : Nat := digits.foldl (fun n c => n * 10 + (c.toNat - '0'.toNat)) 0
    some (if negative then -(n : Int) else n)

/-- A signed 64-bit integer, if the number is in its range. -/
def int64? (n : Int) : Option Int64 :=
  if -0x8000000000000000 ≤ n ∧ n < 0x8000000000000000 then some (Int64.ofInt n) else none

/-- A conversion of terms, by name. -/
inductive StockConversion where
  | identity
  | fail (reason : String)
  | const (t : Term)
  /-- The `int` that a string spells. -/
  | parseInt
  /-- The atom of a string. -/
  | toAtom
  /-- The smaller of an `int` and a bound. -/
  | capAt (bound : Int64)
  /-- The pieces of a string. -/
  | split (separator : String)
  /-- The texts of the keys of a proplist. -/
  | keys
  /-- The values of a proplist. -/
  | values
  /-- The map of all pairs of a proplist. -/
  | toMap
  /-- Nothing but the empty list, which becomes null. -/
  | onlyEmpty
  /-- How many elements a list or a tuple has. -/
  | count
  /-- An element of a list or a tuple. -/
  | nth (i : Nat)
  /-- The tuple of the elements of a list. -/
  | toTuple
  /-- The list of the elements of a tuple. -/
  | toList
  /-- The literal form. -/
  | display
  /-- The name of the kind. -/
  | kindName

namespace StockConversion

/-- What an optional result amounts to, with the reason for none. -/
def orElse (reason : String) : Option Term → Except String Term
  | some t => .ok t
  | none => .error reason

/-- The conversion of a term. -/
def apply : StockConversion → Conversion
  | identity, t => .ok t
  | fail reason, _ => .error reason
  | const u, _ => .ok u
  | parseInt, t =>
    orElse "not numeric"
      ((t.asString?.bind fun text => (decimalInt? text.toList).bind int64?).map .int)
  | toAtom, t => orElse "expected a string" (t.asString?.map .atom)
  | capAt bound, t =>
    orElse (t.kind.name ++ " is not a small integer")
      (t.asInt64?.map fun n => .int (if n ≤ bound then n else bound))
  | split separator, t =>
    orElse ""
      (t.asString?.map fun text =>
        .list ((splitText separator.toList text.toList).map fun piece =>
          .str (String.ofList piece)))
  | keys, t =>
    orElse "not a proplist"
      (t.asProplist?.map fun pairs => .list (pairs.filterMap fun p => p.1.keyName?.map .str))
  | values, t => orElse "not a proplist" (t.asProplist?.map fun pairs => .list (pairs.map Prod.snd))
  | toMap, t =>
    orElse "not a proplist"
      (t.asProplist?.map fun pairs =>
        .map (pairs.filterMap fun p => p.1.keyName?.map fun name => (name, p.2)))
  | onlyEmpty, t =>
    match t with
    | .list [] => .ok .null
    | _ => .error "extras not allowed here"
  | count, t =>
    orElse (t.kind.name ++ " has no length")
      ((Predicate.sequence? t).map fun items => .int (Int64.ofNat items.length))
  | nth i, t =>
    orElse ("no element " ++ String.ofList (Nat.toDigits 10 i))
      ((Predicate.sequence? t).bind fun items => items[i]?)
  | toTuple, t => orElse "not a list" (t.asList?.map .tuple)
  | toList, t => orElse "not a tuple" (t.asTuple?.map .list)
  | display, t => .ok (.str (String.ofList t.literal))
  | kindName, t => .ok (.str t.kind.name)

end StockConversion

end Conform
