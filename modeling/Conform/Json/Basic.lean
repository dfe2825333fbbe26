/-!
# JSON, as it is written

A `Json` is what a JSON text says before anyone asks what it means: numerals are kept as they are
spelled, members in order with their repetitions, and strings as the sequence of their pieces, for
a string may escape half of a surrogate pair and then has no text.  Readers of particular types
decide which of that they can use.
-/

namespace Conform

namespace Json

/-- A piece of a string: a character, or a 16-bit unit given by its code. -/
inductive Piece where
  | char (c : Char)
  | unit (code : Nat)
  deriving DecidableEq

/-- The character of a surrogate pair. -/
def pairChar (high low : Nat) : Char :=
  Char.ofNat (0x10000 + (high - 0xd800) * 0x400 + (low - 0xdc00))

/-- The characters of a sequence of pieces; none if a surrogate has no partner. -/
def decodePieces : List Piece → Option (List Char)
  | [] => some []
  | .char c :: rest => (decodePieces rest).map (c :: ·)
  | .unit high :: .unit low :: rest =>
    if 0xd800 ≤ high ∧ high < 0xdc00 then
      if 0xdc00 ≤ low ∧ low < 0xe000 then
        (decodePieces rest).map (pairChar high low :: ·)
      else none
    else if 0xdc00 ≤ high ∧ high < 0xe000 then none
    else (decodePieces (.unit low :: rest)).map (Char.ofNat high :: ·)
  | .unit code :: rest =>
    if 0xd800 ≤ code ∧ code < 0xe000 then none
    else (decodePieces rest).map (Char.ofNat code :: ·)

/-- The text of a sequence of pieces, if it has one. -/
def text? (pieces : List Piece) : Option String := (decodePieces pieces).map String.ofList

/-- The pieces of a text, its characters. -/
def pieces (text : String) : List Piece := text.toList.map .char

end Json

/-- A JSON value as written. -/
inductive Json where
  | null
  | bool (value : Bool)
  | number (numeral : List Char)
  | string (pieces : List Json.Piece)
  | array (items : List Json)
  | object (members : List (List Json.Piece × Json))

namespace Json

instance : Inhabited Json := ⟨null⟩

/-- The string of a text. -/
def ofString (text : String) : Json := string (pieces text)

/-- The object of the given members. -/
def ofMembers (members : List (String × Json)) : Json :=
  object (members.map fun m => (pieces m.1, m.2))

/-- The text of a string. -/
def asString? : Json → Option String
  | string s => text? s
  | _ => none

/-- Members with the texts of their names; none if one has no text. -/
def named? (members : List (List Piece × Json)) : Option (List (String × Json)) :=
  members.mapM fun m => (text? m.1).map fun name => (name, m.2)

mutual

/-- How many arrays and objects are nested in one another. -/
def depth : Json → Nat
  | array items => depthItems items + 1
  | object members => depthMembers members + 1
  | _ => 0

/-- The greatest depth in a list of values. -/
def depthItems : List Json → Nat
  | [] => 0
  | v :: vs => max v.depth (depthItems vs)

/-- The greatest depth in a list of members. -/
def depthMembers : List (List Piece × Json) → Nat
  | [] => 0
  | (_, v) :: ms => max v.depth (depthMembers ms)

end

/-- How deep a text that is read into a value may nest. -/
def depthLimit : Nat := 127

end Json

end Conform
