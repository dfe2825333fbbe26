/-!
# YAML text

The characters that a YAML text may hold, the classes that its syntax tells apart, and a cursor that
knows where it stands.  All spellings of a line break but the Unicode separators are one character
from here on.

A place is counted twice: in columns for indentation, in bytes for the length of keys.

With tokens, nodes and scalars this is part of a reader that settings take from elsewhere; its only
result that they see is the tree, `Yaml.parse?`.
-/

namespace Conform.Yaml

/-- The byte order mark. -/
def byteOrderMark : Char := '\ufeff'

/-- The characters that a text may hold. -/
def isAllowed (c : Char) : Bool :=
  let code := c.toNat
  code == 0x09 || code == 0x0a || code == 0x0d || (0x20 ≤ code && code ≤ 0x7e) || code == 0x85
    || (0xa0 ≤ code && code ≤ 0xfffd) || 0x10000 ≤ code

/-- Spells every line break as a line feed, except for the line and paragraph separators. -/
def unifyBreaks : List Char → List Char
  | [] => []
  | '\r' :: '\n' :: cs => '\n' :: unifyBreaks cs
  | c :: cs => (if c = '\r' ∨ c = '\u0085' then '\n' else c) :: unifyBreaks cs

/-- A text with its breaks unified; none if it holds a character that it may not. -/
def source? (text : List Char) : Option (List Char) :=
  if text.all isAllowed then some (unifyBreaks text) else none

/-- A line break. -/
def isBreak (c : Char) : Bool := c == '\n' || c == '\u2028' || c == '\u2029'

/-- A space or a tab. -/
def isBlank (c : Char) : Bool := c == ' ' || c == '\t'

/-- A letter, digit, underscore or hyphen of ASCII. -/
def isWordChar (c : Char) : Bool := c.isAlphanum || c == '_' || c == '-'

/-- What follows ends a word: a blank, a break, or the end of the text. -/
def atGap : List Char → Bool
  | [] => true
  | c :: _ => isBlank c || isBreak c

/-- The line begins with a document marker, three hyphens or three points followed by a gap. -/
def atMarker : List Char → Bool
  | '-' :: '-' :: '-' :: cs => atGap cs
  | '.' :: '.' :: '.' :: cs => atGap cs
  | _ => false

/-- A place in a text: its line, and how many characters and bytes of the line precede it. -/
structure Place where
  line : Nat
  column : Nat
  bytes : Nat
  deriving DecidableEq

namespace Place

/-- The beginning of a text. -/
def start : Place := { line := 0, column := 0, bytes := 0 }

/-- The place after a character of the line. -/
def after (p : Place) (c : Char) : Place :=
  { p with column := p.column + 1, bytes := p.bytes + c.utf8Size }

/-- The beginning of the next line. -/
def nextLine (p : Place) : Place := { line := p.line + 1, column := 0, bytes := 0 }

end Place

/-- The rest of a text and where it begins. -/
structure Cursor where
  rest : List Char
  place : Place

namespace Cursor

/-- The beginning of a text. -/
def start (text : List Char) : Cursor := { rest := text, place := .start }

/-- The cursor after so many characters of its line. -/
def skip (c : Cursor) (n : Nat) : Cursor :=
  { rest := c.rest.drop n, place := (c.rest.take n).foldl Place.after c.place }

/-- The characters of the line that satisfy a test, and the cursor after them. -/
def takeWhile (c : Cursor) (test : Char → Bool) : List Char × Cursor :=
  let taken := c.rest.takeWhile test
  (taken, c.skip taken.length)

/-- The cursor after the blanks in front of it. -/
def skipBlanks (c : Cursor) : Cursor := (c.takeWhile isBlank).2

/-- The cursor at the end of its line. -/
def skipLine (c : Cursor) : Cursor := (c.takeWhile fun x => !isBreak x).2

/-- The cursor after the break in front of it, if there is one. -/
def skipBreak (c : Cursor) : Cursor :=
  match c.rest with
  | x :: rest => if isBreak x then { rest, place := c.place.nextLine } else c
  | [] => c

/-- The cursor after the blanks and the comment in front of it, if a line ends there. -/
def lineEnd? (c : Cursor) : Option Cursor :=
  let c := c.skipBlanks
  let c := if c.rest.head? = some '#' then c.skipLine else c
  match c.rest with
  | [] => some c
  | x :: _ => if isBreak x then some c.skipBreak else none

end Cursor

end Conform.Yaml
