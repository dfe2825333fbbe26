import Conform.Json.Basic
import Conform.Json.Numeral

/-!
# Tokens of JSON text

`Token.scan` reads a text into tokens, one character at a time.  A *bare* run of characters, up to
the next blank, quote or punctuation, is a word or a numeral; between quotes every escape is kept as
a piece.  `Token.text` writes a token.
-/

namespace Conform.Json

/-- A token of JSON text. -/
inductive Token where
  | openArray
  | closeArray
  | openObject
  | closeObject
  | comma
  | colon
  | null
  | bool (value : Bool)
  | number (numeral : List Char)
  | string (pieces : List Piece)
  deriving DecidableEq

namespace Token

/-! ### Writing -/

/-- The two lowercase hexadecimal digits of a small number. -/
def hexPair (n : Nat) : List Char := [Nat.digitChar (n / 16 % 16), Nat.digitChar (n % 16)]

/-- A character between quotes: a short escape if there is one, a coded one for the other controls,
else itself. -/
def escape (c : Char) : List Char :=
  if c = '\"' then ['\\', '\"']
  else if c = '\\' then ['\\', '\\']
  else if c = '\x08' then ['\\', 'b']
  else if c = '\x0c' then ['\\', 'f']
  else if c = '\n' then ['\\', 'n']
  else if c = '\r' then ['\\', 'r']
  else if c = '\t' then ['\\', 't']
  else if c.toNat < 0x20 then ['\\', 'u', '0', '0'] ++ hexPair c.toNat
  else [c]

/-- A piece between quotes. -/
def pieceText : Piece → List Char
  | .char c => escape c
  | .unit code => ['\\', 'u'] ++ hexPair (code / 256) ++ hexPair code

/-- The text of a token. -/
def text : Token → List Char
  | openArray => ['[']
  | closeArray => [']']
  | openObject => ['\x7b']
  | closeObject => ['\x7d']
  | comma => [',']
  | colon => [':']
  | null => "null".toList
  | bool true => "true".toList
  | bool false => "false".toList
  | number numeral => numeral
  | string pieces => '\"' :: (pieces.flatMap pieceText ++ ['\"'])

/-! ### Scanning -/

/-- The blanks between tokens. -/
def isBlank (c : Char) : Bool := c == ' ' || c == '\t' || c == '\n' || c == '\r'

/-- The token that a punctuation character is by itself. -/
def punctuation? : Char → Option Token
  | '[' => some openArray
  | ']' => some closeArray
  | '\x7b' => some openObject
  | '\x7d' => some closeObject
  | ',' => some comma
  | ':' => some colon
  | _ => none

/-- The token of a bare run: a word, or a numeral that has a grammar. -/
def ofBare? (run : List Char) : Option Token :=
  if run = "null".toList then some null
  else if run = "true".toList then some (bool true)
  else if run = "false".toList then some (bool false)
  else (Numeral.parse? run).map fun _ => number run

/-- The value of a hexadecimal digit. -/
def hexValue? (c : Char) : Option Nat :=
  if '0' ≤ c ∧ c ≤ '9' then some (c.toNat - '0'.toNat)
  else if 'a' ≤ c ∧ c ≤ 'f' then some (c.toNat - 'a'.toNat + 10)
  else if 'A' ≤ c ∧ c ≤ 'F' then some (c.toNat - 'A'.toNat + 10)
  else none

/-- The character of a short escape, by the letter after the backslash. -/
def shortEscape? : Char → Option Char
  | '\"' => some '\"'
  | '\\' => some '\\'
  | '/' => some '/'
  | 'b' => some '\x08'
  | 'f' => some '\x0c'
  | 'n' => some '\n'
  | 'r' => some '\r'
  | 't' => some '\t'
  | _ => none

/-- Where the scan of a text stands; runs and pieces read so far are held in reverse. -/
inductive Mode where
  /-- Between two tokens. -/
  | between
  /-- In a bare run. -/
  | bare (run : List Char)
  /-- Between quotes. -/
  | quoted (pieces : List Piece)
  /-- After a backslash between quotes. -/
  | escaped (pieces : List Piece)
  /-- Before the last `more + 1` hexadecimal digits of a unit. -/
  | coded (pieces : List Piece) (more : Nat) (code : Nat)

/-- The mode after a character that begins or separates tokens, with the tokens it completes. -/
def Mode.start (c : Char) : Mode × List Token :=
  if isBlank c then (between, [])
  else if c = '\"' then (quoted [], [])
  else match punctuation? c with
    | some token => (between, [token])
    | none => (bare [c], [])

/-- The characters that end a bare run. -/
def isDelimiter (c : Char) : Bool := isBlank c || c == '\"' || (punctuation? c).isSome

/-- One character of a scan; none if no text goes on like that. -/
def Mode.step (c : Char) : Mode → Option (Mode × List Token)
  | between => some (Mode.start c)
  | bare run =>
    if isDelimiter c then do
      let token ← ofBare? run.reverse
      let (mode, tokens) := Mode.start c
      some (mode, token :: tokens)
    else some (bare (c :: run), [])
  | quoted pieces =>
    if c = '\"' then some (between, [string pieces.reverse])
    else if c = '\\' then some (escaped pieces, [])
    else if c.toNat < 0x20 then none
    else some (quoted (.char c :: pieces), [])
  | escaped pieces =>
    if c = 'u' then some (coded pieces 3 0, [])
    else (shortEscape? c).map fun d => (quoted (.char d :: pieces), [])
  | coded pieces more code =>
    (hexValue? c).map fun digit =>
      match more with
      | 0 => (quoted (.unit (code * 16 + digit) :: pieces), [])
      | more + 1 => (coded pieces more (code * 16 + digit), [])

/-- The tokens that the end of the text completes; none inside quotes. -/
def Mode.finish : Mode → Option (List Token)
  | between => some []
  | bare run => (ofBare? run.reverse).map fun token => [token]
  | _ => none

/-- The tokens of a text that is entered in the given mode. -/
def scanFrom (mode : Mode) : List Char → Option (List Token)
  | [] => mode.finish
  | c :: cs => do
    let (next, tokens) ← mode.step c
    let rest ← scanFrom next cs
    some (tokens ++ rest)

/-- The tokens of a text. -/
def scan (text : List Char) : Option (List Token) := scanFrom .between text

end Token

end Conform.Json
