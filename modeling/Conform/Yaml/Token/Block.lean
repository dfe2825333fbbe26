import Conform.Yaml.Token.Basic

/-!
# Block scalars

A block scalar is the indented lines below its header, kept as they are or folded.  The header may
fix the indentation and what becomes of the breaks at the end.
-/

namespace Conform.Yaml

/-- What becomes of the breaks at the end of a block scalar. -/
inductive Chomping where
  | strip
  | clip
  | keep
  deriving DecidableEq

/-- The chomping that an indicator asks for. -/
def chomping? : Char → Option Chomping
  | '-' => some .strip
  | '+' => some .keep
  | _ => none

/-- The indicators of a header in either order: chomping, and indentation if it is given. -/
def Cursor.blockHeader? (here : Cursor) : Option (Chomping × Option Nat × Cursor) :=
  let digit? (c : Cursor) : Option (Option Nat × Cursor) :=
    match c.rest with
    | d :: _ =>
      if d = '0' then none
      else if '1' ≤ d ∧ d ≤ '9' then some (some (d.toNat - '0'.toNat), c.skip 1)
      else some (none, c)
    | [] => some (none, c)
  let chomp (c : Cursor) : Chomping × Cursor :=
    match c.rest.head?.bind chomping? with
    | some chomping => (chomping, c.skip 1)
    | none => (.clip, c)
  match here.rest.head?.bind chomping? with
  | some chomping => (digit? (here.skip 1)).map fun (digit, c) => (chomping, digit, c)
  | none =>
    (digit? here).map fun (digit, c) =>
      if digit.isSome then
        let (chomping, c) := chomp c
        (chomping, digit, c)
      else (.clip, none, c)

/-- The indentation of the lines ahead: that of the first line that is not blank, or of a blank one
before it that is longer.  A tab in the indentation is an error. -/
def indentationFrom : Nat → Nat → List Char → Option Nat
  | longest, column, [] => some (max longest column)
  | longest, column, c :: cs =>
    if c = ' ' then indentationFrom longest (column + 1) cs
    else if c = '\t' then none
    else if isBreak c then indentationFrom (max longest column) 0 cs
    else some (max longest column)

/-- What has been read of a block scalar. -/
structure BlockText where
  /-- The characters before the last break, in reverse. -/
  read : List Char
  /-- The break after the last line. -/
  lastBreak : List Char
  /-- The breaks of the blank lines since then, in reverse. -/
  blankLines : List Char
  /-- The last line began with a blank. -/
  blankStart : Bool

namespace BlockText

/-- The text before a further line that begins with the given character.  A single line feed between
two folded lines becomes a space, unless one of them begins with a blank. -/
def enter (folded : Bool) (c : Char) (t : BlockText) : BlockText :=
  let joint :=
    if folded && t.lastBreak == ['\n'] && !t.blankStart && !isBlank c then
      if t.blankLines.isEmpty then [' '] else []
    else t.lastBreak
  { read := t.blankLines ++ joint.reverse ++ t.read
    lastBreak := []
    blankLines := []
    blankStart := isBlank c }

/-- The whole text. -/
def finish (chomping : Chomping) (t : BlockText) : List Char :=
  match chomping with
  | .strip => t.read.reverse
  | .clip => t.read.reverse ++ t.lastBreak
  | .keep => t.read.reverse ++ t.lastBreak ++ t.blankLines.reverse

end BlockText

/-- The lines of a block scalar of the given indentation; the truth value says that the cursor is
behind the indentation of a line. -/
def blockFrom (folded : Bool) (margin : Nat) :
    Bool → BlockText → Place → List Char → Option (BlockText × Cursor)
  | _, t, place, [] => some (t, { rest := [], place })
  | true, t, place, c :: cs =>
    if isBreak c then blockFrom folded margin false { t with lastBreak := [c] } place.nextLine cs
    else blockFrom folded margin true { t with read := c :: t.read } (place.after c) cs
  | false, t, place, c :: cs =>
    if place.column < margin && c == ' ' then blockFrom folded margin false t (place.after c) cs
    else if place.column < margin && c == '\t' then none
    else if isBreak c then
      blockFrom folded margin false { t with blankLines := c :: t.blankLines } place.nextLine cs
    else if place.column == margin then
      let t := t.enter folded c
      blockFrom folded margin true { t with read := c :: t.read } (place.after c) cs
    else some (t, { rest := c :: cs, place })

/-- The block scalar at a cursor that stands on its indicator, below a collection indented by
`around`. -/
def Cursor.block? (folded : Bool) (around : Int) (here : Cursor) :
    Option (List Char × Cursor) := do
  let (chomping, digit, c) ← (here.skip 1).blockHeader?
  let c ← c.lineEnd?
  let margin ←
    match digit with
    | some n => some (max around 0 + n).toNat
    | none => do
      let found ← indentationFrom 0 c.place.column c.rest
      some (max (max found (around + 1).toNat) 1)
  let (t, c) ← blockFrom folded margin false ⟨[], [], [], false⟩ c.place c.rest
  some (t.finish chomping, c)

end Conform.Yaml
