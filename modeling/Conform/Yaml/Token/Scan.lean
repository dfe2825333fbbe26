import Conform.Yaml.Token.Block
import Conform.Yaml.Token.Plain
import Conform.Yaml.Token.Quoted
import Conform.Yaml.Token.Tag

/-!
# From text to tokens

A key without an indicator is only known to be one at the colon behind it.  For each flow collection
that is open, and for the block around them, the scan therefore remembers the last node that could
be such a key, and puts the key indicator in front of it when the colon comes.  The colon has to
come on the same line and within so many bytes, and a node that must be a key, because it stands
where the keys of its block stand, is an error without it.

* `Scan.fetch` reads the next token; it takes at least one character unless the text is at its end.
* `tokens?` is the row of tokens of a text.
-/

namespace Conform.Yaml

/-- A node that may turn out to be a key. -/
structure ImplicitKey where
  /-- The node cannot be anything else. -/
  required : Bool
  /-- How many tokens came before it. -/
  before : Nat
  /-- Where it begins. -/
  place : Place

/-- How many bytes behind the beginning of a key its colon may be. -/
def longestKey : Nat := 1024

/-- The state of a scan. -/
structure Scan where
  cursor : Cursor
  /-- The tokens so far, in reverse, and their number. -/
  tokens : List Token
  count : Nat
  /-- A key without an indicator may begin here. -/
  keyAllowed : Bool
  /-- The column of the innermost block collection, and of those around it. -/
  indent : Int
  outer : List Int
  /-- The possible keys, of the innermost flow collection first and of the block last. -/
  keys : List (Option ImplicitKey)

namespace Scan

/-- The state before a text. -/
def start (text : List Char) : Scan :=
  { cursor := .start text, tokens := [], count := 0, keyAllowed := true, indent := -1, outer := [],
    keys := [none] }

/-- A flow collection is open. -/
def inFlow (s : Scan) : Bool := 1 < s.keys.length

/-- One more token. -/
def emit (s : Scan) (token : Token) : Scan :=
  { s with tokens := token :: s.tokens, count := s.count + 1 }

/-- One more token, behind the first `before` ones. -/
def emitAt (s : Scan) (before : Nat) (token : Token) : Scan :=
  let later := s.count - before
  { s with
    tokens := s.tokens.take later ++ token :: s.tokens.drop later
    count := s.count + 1 }

/-! ### Indentation -/

/-- Ends the block collections that are indented deeper than a column. -/
def unrollFrom (column : Int) : List Int → Scan → Scan
  | [], s => s
  | above :: outer, s =>
    if column < s.indent then
      unrollFrom column outer { s.emit .blockEnd with indent := above, outer }
    else s

/-- Ends the block collections that are indented deeper than a column, unless in a flow
collection. -/
def unroll (s : Scan) (column : Int) : Scan :=
  if s.inFlow then s else unrollFrom column s.outer s

/-- Begins a block collection behind the first `before` tokens if the column is deeper than the
innermost one. -/
def roll (s : Scan) (column : Nat) (before : Nat) (token : Token) : Scan :=
  if !s.inFlow && s.indent < column then
    { s.emitAt before token with indent := column, outer := s.indent :: s.outer }
  else s

/-! ### Possible keys -/

/-- The key can still get its colon. -/
def isFresh (s : Scan) (key : ImplicitKey) : Bool :=
  s.cursor.place.line ≤ key.place.line && s.cursor.place.bytes ≤ key.place.bytes + longestKey

/-- Forgets the keys that can no longer get their colon; an error if one of them had to. -/
def dropStale? (s : Scan) : Option Scan := do
  let keys ← s.keys.mapM fun key =>
    match key with
    | some k => if s.isFresh k then some (some k) else if k.required then none else some none
    | none => some none
  some { s with keys }

/-- Forgets the possible key of the innermost collection; an error if it had to be one. -/
def dropKey? (s : Scan) : Option Scan :=
  match s.keys with
  | some key :: keys => if key.required then none else some { s with keys := none :: keys }
  | _ => some s

/-- Remembers that a key may begin here, if one may. -/
def saveKey? (s : Scan) : Option Scan :=
  if s.keyAllowed then do
    let key : ImplicitKey :=
      { required := !s.inFlow && s.indent == s.cursor.place.column
        before := s.count
        place := s.cursor.place }
    let s ← s.dropKey?
    some { s with keys := some key :: s.keys.drop 1 }
  else some s

/-! ### Gaps -/

/-- Skips blanks, comments and breaks, and a byte order mark that begins a line, of which it takes
the first column.  After a break in a block a key may begin; where one may, a tab is no blank. -/
def gapFrom (inFlow : Bool) : Bool → Bool → Place → List Char → Bool × Cursor
  | _, allowed, place, [] => (allowed, { rest := [], place })
  | comment, allowed, place, c :: cs =>
    if isBreak c then gapFrom inFlow false (allowed || !inFlow) place.nextLine cs
    else if comment || c == ' ' || (c == '\t' && (inFlow || !allowed))
        || (c == byteOrderMark && place.column == 0) then
      gapFrom inFlow comment allowed (place.after c) cs
    else if c == '#' then gapFrom inFlow true allowed (place.after c) cs
    else (allowed, { rest := c :: cs, place })

/-- The state behind the gap at the cursor. -/
def skipGap (s : Scan) : Scan :=
  let (keyAllowed, cursor) := gapFrom s.inFlow false s.keyAllowed s.cursor.place s.cursor.rest
  { s with keyAllowed, cursor }

/-! ### Tokens -/

/-- A token of so many characters that can be no part of a key, and whether a key may follow. -/
def punctuation? (s : Scan) (token : Token) (length : Nat) (keyAllowed : Bool) : Option Scan := do
  let s ← s.dropKey?
  some { s.emit token with cursor := s.cursor.skip length, keyAllowed }

/-- A document marker. -/
def marker? (s : Scan) (token : Token) : Option Scan := (s.unroll (-1)).punctuation? token 3 false

/-- A directive. -/
def directive? (s : Scan) : Option Scan := do
  let s ← (s.unroll (-1)).dropKey?
  let (token, cursor) ← s.cursor.directive?
  some { s.emit token with cursor, keyAllowed := false }

/-- The opening bracket of a flow collection. -/
def openFlow? (s : Scan) (token : Token) : Option Scan := do
  let s ← s.saveKey?
  some { s.emit token with
    cursor := s.cursor.skip 1, keyAllowed := true, keys := none :: s.keys }

/-- The closing bracket of a flow collection. -/
def closeFlow? (s : Scan) (token : Token) : Option Scan := do
  let s ← s.punctuation? token 1 false
  some (if s.inFlow then { s with keys := s.keys.drop 1 } else s)

/-- The indicator of an entry in a block sequence, or of a key, which begins a block collection of
its own if it is indented deeper. -/
def blockIndicator? (s : Scan) (collection token : Token) (keyAllowed : Bool) : Option Scan :=
  if s.inFlow then s.punctuation? token 1 keyAllowed
  else if s.keyAllowed then
    (s.roll s.cursor.place.column s.count collection).punctuation? token 1 keyAllowed
  else none

/-- The colon between a key and its value. -/
def colon? (s : Scan) : Option Scan :=
  match s.keys with
  | some key :: keys =>
    let s := { s with keys := none :: keys }
    let s := s.emitAt key.before .key
    let s := s.roll key.place.column key.before .blockMapping
    some { s.emit .value with cursor := s.cursor.skip 1, keyAllowed := false }
  | _ =>
    if s.inFlow then
      some { s.emit .value with cursor := s.cursor.skip 1, keyAllowed := false }
    else if s.keyAllowed then
      let s := s.roll s.cursor.place.column s.count .blockMapping
      some { s.emit .value with cursor := s.cursor.skip 1, keyAllowed := true }
    else none

/-- A token that can be the key of what follows or its beginning. -/
def node? (s : Scan) (read : Cursor → Option (Token × Cursor)) : Option Scan := do
  let s ← s.saveKey?
  let (token, cursor) ← read s.cursor
  some { s.emit token with cursor, keyAllowed := false }

/-- A plain scalar; if it ends beyond a break, a key may follow. -/
def plain? (s : Scan) : Option Scan := do
  let s ← s.saveKey?
  let (text, crossed, cursor) ← s.cursor.plain? s.inFlow (s.indent + 1).toNat
  some { s.emit (.scalar true text) with cursor, keyAllowed := crossed }

/-- A block scalar, behind which a key may follow. -/
def block? (s : Scan) (folded : Bool) : Option Scan := do
  let s ← s.dropKey?
  let (text, cursor) ← s.cursor.block? folded s.indent
  some { s.emit (.scalar false text) with cursor, keyAllowed := true }

/-- The end of the text. -/
def finish? (s : Scan) : Option Scan := (s.unroll (-1)).dropKey?

/-- The token that begins with the given character, after which the given text follows. -/
def dispatch (s : Scan) (c : Char) (cs : List Char) : Option Scan :=
  let lineStart := s.cursor.place.column == 0
  if lineStart && c == '%' then s.directive?
  else if lineStart && atMarker (c :: cs) then
    s.marker? (if c = '-' then .documentStart else .documentEnd)
  else if c = '[' then s.openFlow? .flowSequence
  else if c = '\x7b' then s.openFlow? .flowMapping
  else if c = ']' then s.closeFlow? .flowSequenceEnd
  else if c = '\x7d' then s.closeFlow? .flowMappingEnd
  else if c = ',' then s.punctuation? .flowEntry 1 true
  else if c = '-' ∧ atGap cs then s.blockIndicator? .blockSequence .blockEntry true
  else if c = '?' ∧ (s.inFlow || atGap cs) then
    s.blockIndicator? .blockMapping .key (!s.inFlow)
  else if c = ':' ∧ (s.inFlow || atGap cs) then s.colon?
  else if c = '*' then s.node? fun here => here.name?.map fun (name, d) => (.reference name, d)
  else if c = '&' then s.node? fun here => here.name?.map fun (name, d) => (.anchor name, d)
  else if c = '!' then s.node? (Cursor.tag? s.inFlow)
  else if c = '|' ∧ !s.inFlow then s.block? false
  else if c = '>' ∧ !s.inFlow then s.block? true
  else if c = '\'' then
    s.node? fun here => (here.quoted? false).map fun (text, d) => (.scalar false text, d)
  else if c = '\"' then
    s.node? fun here => (here.quoted? true).map fun (text, d) => (.scalar false text, d)
  else if startsPlain s.inFlow (c :: cs) then s.plain?
  else none

/-- The next token behind a gap, or the end of the text. -/
def fetch (s : Scan) : Option Scan := do
  let s ← s.skipGap.dropStale?
  let s := s.unroll s.cursor.place.column
  match s.cursor.rest with
  | [] => s.finish?
  | c :: cs => s.dispatch c cs

/-- Fetches tokens until the text is at its end, at most so many. -/
def run : Nat → Scan → Option Scan
  | 0, _ => none
  | more + 1, s => do
    let atEnd := s.cursor.rest.isEmpty
    let s ← s.fetch
    if atEnd then some s else run more s

end Scan

/-- The tokens of a text whose breaks are unified.  Every token takes a character, so their number
is bounded by the length of the text. -/
def tokens? (text : List Char) : Option (List Token) :=
  (Scan.run (text.length + 2) (.start text)).map fun s => s.tokens.reverse

end Conform.Yaml
