import Conform.Yaml.Text

/-!
# Tokens of YAML

Indentation is gone from the tokens: block collections are bracketed by a start and an end, and
every key by an indicator in front of it, whether the text spells one or not.  Tokens belong to the
reader that `Yaml.parse?` stands for.
-/

namespace Conform.Yaml

/-- A token of YAML text. -/
inductive Token where
  | documentStart
  | documentEnd
  /-- The version that a text declares. -/
  | version (major minor : Nat)
  /-- What a handle of tags stands for, in bytes. -/
  | handle (name : List Char) (meaning : List UInt8)
  | blockSequence
  | blockMapping
  | blockEnd
  | flowSequence
  | flowSequenceEnd
  | flowMapping
  | flowMappingEnd
  | blockEntry
  | flowEntry
  | key
  | value
  | reference (name : List Char)
  | anchor (name : List Char)
  /-- A tag: the handle, empty for a verbatim one, and the bytes that follow it. -/
  | tag (handle : List Char) (suffix : List UInt8)
  | scalar (plain : Bool) (text : List Char)
  deriving DecidableEq

/-- Blanks and breaks between two characters of a flowing scalar. -/
inductive Fold where
  /-- None. -/
  | none
  /-- Blanks within a line, in reverse. -/
  | blanks (read : List Char)
  /-- A break, which an escape leaves out, and the breaks after it in reverse. -/
  | broken (first : List Char) (more : List Char)

namespace Fold

/-- There is a break. -/
def isBroken : Fold → Bool
  | broken .. => true
  | _ => false

/-- There is something. -/
def isSome : Fold → Bool
  | none => false
  | _ => true

/-- One more blank; blanks after a break do not count. -/
def blank (c : Char) : Fold → Fold
  | none => blanks [c]
  | blanks read => blanks (c :: read)
  | broken first more => broken first more

/-- One more break; blanks before a break do not count. -/
def newline (c : Char) : Fold → Fold
  | broken first more => broken first (c :: more)
  | _ => broken [c] []

/-- The folded text: a single line feed becomes a space, of several the first goes, and any other
break stays. -/
def text : Fold → List Char
  | none => []
  | blanks read => read.reverse
  | broken ['\n'] [] => [' ']
  | broken ['\n'] more => more.reverse
  | broken first more => first ++ more.reverse

end Fold

end Conform.Yaml
