import Conform.Json.Token
import Conform.Yaml.Token.Basic

/-!
# Names, tags and directives

Anchors and aliases have names of letters, digits, underscores and hyphens.  A tag is verbatim,
between angle brackets, or a handle and a suffix; directives at the head of a document fix the
version and what handles stand for.

What a tag says is bytes: escapes spell them one by one, and not all that they can spell is text.
-/

namespace Conform.Yaml

/-- The name after the indicator of an anchor or an alias. -/
def Cursor.name? (here : Cursor) : Option (List Char × Cursor) :=
  let (name, c) := (here.skip 1).takeWhile isWordChar
  let ends := atGap c.rest || c.rest.head?.any fun x => "?:,]\x7d%@\x60".toList.contains x
  if name.isEmpty || !ends then none else some (name, c)

/-- The characters of a tag, more of them in a verbatim one. -/
def isTagChar (verbatim : Bool) (c : Char) : Bool :=
  isWordChar c || ";/?:@&=+$.!~*'()%".toList.contains c
    || (verbatim && (c == ',' || c == '[' || c == ']'))

/-- How many bytes have to follow a byte that begins a character. -/
def followers? (byte : Nat) : Option Nat :=
  if byte < 0x80 then some 0
  else if byte < 0xc0 then none
  else if byte < 0xe0 then some 1
  else if byte < 0xf0 then some 2
  else if byte < 0xf8 then some 3
  else none

/-- How many bytes have to follow a byte of which so many were due. -/
def stillDue? : Nat → Nat → Option Nat
  | 0, byte => followers? byte
  | due + 1, byte => if 0x80 ≤ byte ∧ byte < 0xc0 then some due else none

/-- The byte of a character of ASCII. -/
def asciiByte (c : Char) : UInt8 := UInt8.ofNat c.toNat

/-- The bytes of characters of ASCII and of escapes, two hexadecimal digits after a percent sign;
the first so many have to be escapes of bytes that are still due. -/
def tagBytesFrom? : Nat → List Char → Option (List UInt8)
  | due, '%' :: a :: b :: cs => do
    let x ← Json.Token.hexValue? a
    let y ← Json.Token.hexValue? b
    let due ← stillDue? due (x * 16 + y)
    let bytes ← tagBytesFrom? due cs
    some (UInt8.ofNat (x * 16 + y) :: bytes)
  | 0, [] => some []
  | 0, c :: cs => if c = '%' then none else (tagBytesFrom? 0 cs).map (asciiByte c :: ·)
  | _, _ => none

/-- The bytes of a part of a tag, which has to have some; a null ends them. -/
def tagBytes? (raw : List Char) : Option (List UInt8) :=
  if raw.isEmpty then none
  else (tagBytesFrom? 0 raw).map fun bytes => bytes.takeWhile fun byte => byte != 0

/-- The tag at a cursor that stands on its exclamation mark; nothing but a gap may follow it, or a
comma in a flow collection. -/
def Cursor.tag? (inFlow : Bool) (here : Cursor) : Option (Token × Cursor) := do
  let (token, c) ←
    match here.rest.drop 1 with
    | '<' :: _ => do
      let (raw, c) := (here.skip 2).takeWhile (isTagChar true)
      let suffix ← tagBytes? raw
      if c.rest.head? = some '>' then some (Token.tag [] suffix, c.skip 1) else none
    | _ => do
      let (word, c) := (here.skip 1).takeWhile isWordChar
      if c.rest.head? = some '!' then do
        let (raw, d) := (c.skip 1).takeWhile (isTagChar false)
        let suffix ← tagBytes? raw
        some (Token.tag ('!' :: (word ++ ['!'])) suffix, d)
      else do
        let (raw, d) := c.takeWhile (isTagChar false)
        let whole ← tagBytes? ('!' :: (word ++ raw))
        some (if whole.length = 1 then Token.tag [] whole else Token.tag ['!'] (whole.drop 1), d)
  if atGap c.rest || (inFlow && c.rest.head? = some ',') then some (token, c) else none

/-- The number at a cursor. -/
def Cursor.number? (here : Cursor) : Option (Nat × Cursor) :=
  let (digits, c) := here.takeWhile Char.isDigit
  if digits.isEmpty || 9 < digits.length then none
  else some (digits.foldl (fun n d => n * 10 + (d.toNat - '0'.toNat)) 0, c)

/-- The version at a cursor. -/
def Cursor.version? (here : Cursor) : Option (Token × Cursor) := do
  let (major, c) ← here.number?
  if c.rest.head? ≠ some '.' then none
  let (minor, c) ← (c.skip 1).number?
  some (.version major minor, c)

/-- The handle at a cursor and what it stands for. -/
def Cursor.handle? (here : Cursor) : Option (Token × Cursor) := do
  if here.rest.head? ≠ some '!' then none
  let (word, c) := (here.skip 1).takeWhile isWordChar
  let (name, c) ←
    if c.rest.head? = some '!' then some ('!' :: (word ++ ['!']), c.skip 1)
    else if word.isEmpty then some (['!'], c)
    else none
  if !(c.rest.head?.any isBlank) then none
  let (raw, c) := c.skipBlanks.takeWhile (isTagChar true)
  let meaning ← tagBytes? raw
  if atGap c.rest then some (.handle name meaning, c) else none

/-- The directive at a cursor that stands on its percent sign, to the end of its line. -/
def Cursor.directive? (here : Cursor) : Option (Token × Cursor) := do
  let (name, c) := (here.skip 1).takeWhile isWordChar
  if !(c.rest.head?.any isBlank) then none
  let c := c.skipBlanks
  let (token, c) ←
    if name = "YAML".toList then c.version?
    else if name = "TAG".toList then c.handle?
    else none
  some (token, ← c.lineEnd?)

end Conform.Yaml
