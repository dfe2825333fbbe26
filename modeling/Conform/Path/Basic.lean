import Conform.Term.Literal

/-!
# Paths

A path leads from the root of a value to one of its nodes, by field names and by indices that count
from zero.  Its text names the steps one after the other, `.name` and `[index]`, without any
escaping, and the root has a marker of its own.
-/

namespace Conform

/-- One step from a container to a child. -/
inductive Segment where
  | field (name : String)
  | index (i : Nat)
  deriving DecidableEq

/-- The text of a step. -/
def Segment.text : Segment → List Char
  | field name => '.' :: name.toList
  | index i => enclosed ['['] (Nat.toDigits 10 i) [']']

/-- The steps from the root to a node. -/
abbrev Path := List Segment

namespace Path

/-- The path of the whole value. -/
def root : Path := []

/-- The path of a child. -/
def child (p : Path) (s : Segment) : Path := p ++ [s]

/-- The path of a field of the node at `p`. -/
def field (p : Path) (name : String) : Path := p.child (.field name)

/-- The path of an element of the node at `p`. -/
def index (p : Path) (i : Nat) : Path := p.child (.index i)

theorem child_append (p : Path) (s : Segment) (q : Path) : p.child s ++ q = p ++ s :: q :=
  List.append_assoc p [s] q

/-- The text of the root. -/
def rootMarker : List Char := "(root)".toList

/-- The text of a path. -/
def text (p : Path) : List Char :=
  if p.isEmpty then rootMarker else p.flatMap Segment.text

/-- The paths on the way from the root to `p`, both included. -/
def ancestry (p : Path) : List Path := (List.range (p.length + 1)).map fun n => p.take n

end Path

end Conform
