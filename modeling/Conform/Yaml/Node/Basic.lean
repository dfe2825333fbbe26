import Conform.Yaml.Scalar

/-!
# Nodes of YAML

A node is a value as the text structures it: scalars are not resolved, and anchors and aliases are
in place.  Nodes belong to the reader that `Yaml.parse?` stands for.
-/

namespace Conform.Yaml

/-- The tag of a node. -/
inductive NodeTag where
  /-- A tag of the text's own, by its name. -/
  | own (name : String)
  /-- A tag of the text's own whose bytes are no text. -/
  | illegible
  /-- A tag of the core types, or of another vocabulary. -/
  | core (type : CoreType)
  deriving DecidableEq

/-- What stands in front of a node; anchors are named by an `α`. -/
structure Decoration (α : Type) where
  anchor : Option α
  tag : Option NodeTag
  deriving DecidableEq

/-- Nothing in front of a node. -/
def Decoration.none {α : Type} : Decoration α := { anchor := Option.none, tag := Option.none }

/-- A node, with anchors and aliases named by an `α`. -/
inductive Node (α : Type) where
  | reference (name : α)
  | scalar (decoration : Decoration α) (plain : Bool) (text : List Char)
  | sequence (decoration : Decoration α) (items : List (Node α))
  | mapping (decoration : Decoration α) (members : List (Node α × Node α))

namespace Node

variable {α : Type}

instance : Inhabited (Node α) := ⟨scalar .none true []⟩

/-- The node that stands where a text leaves one out. -/
def missing : Node α := scalar .none true []

mutual

/-- How many marks a node takes: one for a leaf, two around a collection. -/
def size : Node α → Nat
  | reference _ => 1
  | scalar _ _ _ => 1
  | sequence _ items => sizeItems items + 2
  | mapping _ members => sizeMembers members + 2

/-- The marks of the elements of a sequence. -/
def sizeItems : List (Node α) → Nat
  | [] => 0
  | n :: ns => n.size + sizeItems ns

/-- The marks of the members of a mapping. -/
def sizeMembers : List (Node α × Node α) → Nat
  | [] => 0
  | (k, v) :: ms => k.size + v.size + sizeMembers ms

end

end Node

end Conform.Yaml
