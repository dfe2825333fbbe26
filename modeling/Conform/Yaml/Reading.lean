import Conform.Yaml.Node.Anchors
import Conform.Yaml.Node.OfTokens

/-!
# Reading YAML

Aliases are followed to the nodes they name, scalars are resolved, and the keys of every mapping
have to differ.  Collections may nest up to a limit, through aliases too, and aliases may not be
followed too often in all; together these put an end to a node that contains itself.

`Yaml.parse?` reads a text into the tree of its one document.

Settings do not read YAML by themselves.  This reader, with the text, tokens, nodes and scalars
below it, stands for one that they take from elsewhere, and it is here so that a load can be
followed from the text on.  Of its trees a load needs no more than that the keys of a mapping
differ, which `parse?_sound` says they do.
-/

namespace Conform.Yaml

/-- How deep collections may nest. -/
def deepestNesting : Nat := 128

/-- How many aliases may be followed for each mark of the text. -/
def aliasesPerMark : Nat := 100

/-- A value that is read while a budget of aliases lasts. -/
abbrev Reader (α : Type) := Nat → Option (α × Nat)

/-- The nodes of the numbers of anchors, the latest one first. -/
abbrev AnchoredNodes := List (Nat × Node Nat)

/-- The node that is meant by a node: itself, or the one an alias leads to. -/
def follow (nodes : AnchoredNodes) (node : Node Nat) : Reader (Node Nat) :=
  fun budget =>
    match node, budget with
    | .reference _, 0 => none
    | .reference n, budget + 1 =>
      (nodes.find? fun a => a.1 == n).map fun a => (a.2, budget)
    | node, budget => some (node, budget)

/-- The elements of a sequence. -/
def readItems (read : Node Nat → Reader Yaml) : List (Node Nat) → Reader (List Yaml)
  | [], budget => some ([], budget)
  | n :: ns, budget => do
    let (x, budget) ← read n budget
    let (xs, budget) ← readItems read ns budget
    some (x :: xs, budget)

/-- The members of a mapping, given the keys before them in reverse. -/
def readMembers (read : Node Nat → Reader Yaml) :
    List Yaml → List (Node Nat × Node Nat) → Reader (List (Yaml × Yaml))
  | _, [], budget => some ([], budget)
  | keys, (k, v) :: ms, budget => do
    let (key, budget) ← read k budget
    if keys.any key.same then none
    let (value, budget) ← read v budget
    let (members, budget) ← readMembers read (key :: keys) ms budget
    some ((key, value) :: members, budget)

/-- A collection with the tag of its node; illegible tags and those of other vocabularies say
nothing about it. -/
def tagCollection (tag : Option NodeTag) (collection : Yaml) : Yaml :=
  match tag with
  | some (.own name) => tagged name collection
  | _ => collection

/-- The tree of a scalar with the tag of its node; one of the text's own, illegible or not, does not
change how the scalar is resolved. -/
def tagScalar? (tag : Option NodeTag) (plain : Bool) (text : List Char) : Option Yaml :=
  match tag with
  | some (.own name) => (ofScalar? none plain text).map (tagged name)
  | some (.core type) => ofScalar? (some type) plain text
  | _ => ofScalar? none plain text

/-- The tree of a node within so many levels. -/
def readNode (nodes : AnchoredNodes) : Nat → Node Nat → Reader Yaml
  | levels, node, budget => do
    let (node, budget) ← follow nodes node budget
    match node with
    | .reference _ => none
    | .scalar decoration plain text =>
      (tagScalar? decoration.tag plain text).map fun tree => (tree, budget)
    | .sequence decoration items =>
      match levels with
      | 0 => none
      | levels + 1 => do
        let (xs, budget) ← readItems (fun n b => readNode nodes levels n b) items budget
        some (tagCollection decoration.tag (sequence xs), budget)
    | .mapping decoration members =>
      match levels with
      | 0 => none
      | levels + 1 => do
        let (ms, budget) ← readMembers (fun n b => readNode nodes levels n b) [] members budget
        some (tagCollection decoration.tag (mapping ms), budget)

/-- The tree of the root of a document. -/
def ofNode? (root : Node String) : Option Yaml := do
  let (root, _) ← root.numbered? []
  let (tree, _) ← readNode root.anchored.reverse deepestNesting root (aliasesPerMark * root.size)
  some tree

/-- The tree of a YAML text; a text without a document is null. -/
def parse? (text : List Char) : Option Yaml := do
  match ← document? (← tokens? (← source? text)) with
  | none => some null
  | some root => ofNode? root

end Conform.Yaml
