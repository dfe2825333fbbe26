import Conform.Yaml.Node.Basic

/-!
# Anchors

An alias means the node whose anchor of that name was read last before it.  Names are replaced by
numbers, which say how many different names had been anchored before: an anchor whose name was used
already takes the number that the next new name will take too, and of two nodes of one number the
later one is meant.
-/

namespace Conform.Yaml

/-- The names anchored so far with their numbers, the latest first. -/
abbrev AnchorNames := List (String × Nat)

namespace AnchorNames

/-- The number of a name. -/
def number? (names : AnchorNames) (name : String) : Option Nat :=
  (List.find? (fun a => a.1 == name) names).map Prod.snd

/-- How many different names there are. -/
def count (names : AnchorNames) : Nat := (List.map Prod.fst names).eraseDups.length

/-- Numbers the anchor of a node. -/
def add (names : AnchorNames) (decoration : Decoration String) : Decoration Nat × AnchorNames :=
  match decoration.anchor with
  | some name =>
    ({ anchor := some names.count, tag := decoration.tag }, (name, names.count) :: names)
  | none => ({ anchor := none, tag := decoration.tag }, names)

end AnchorNames

namespace Node

mutual

/-- The node with numbers for names, and the names after it; none if an alias has no anchor before
it. -/
def numbered? : Node String → AnchorNames → Option (Node Nat × AnchorNames)
  | reference name, names => (names.number? name).map fun n => (reference n, names)
  | scalar decoration plain text, names =>
    let (decoration, names) := names.add decoration
    some (scalar decoration plain text, names)
  | sequence decoration items, names => do
    let (decoration, names) := names.add decoration
    let (items, names) ← numberedItems? items names
    some (sequence decoration items, names)
  | mapping decoration members, names => do
    let (decoration, names) := names.add decoration
    let (members, names) ← numberedMembers? members names
    some (mapping decoration members, names)

/-- The elements of a sequence, in order. -/
def numberedItems? :
    List (Node String) → AnchorNames → Option (List (Node Nat) × AnchorNames)
  | [], names => some ([], names)
  | n :: ns, names => do
    let (n, names) ← n.numbered? names
    let (ns, names) ← numberedItems? ns names
    some (n :: ns, names)

/-- The members of a mapping, in order. -/
def numberedMembers? :
    List (Node String × Node String) → AnchorNames →
      Option (List (Node Nat × Node Nat) × AnchorNames)
  | [], names => some ([], names)
  | (k, v) :: ms, names => do
    let (k, names) ← k.numbered? names
    let (v, names) ← v.numbered? names
    let (ms, names) ← numberedMembers? ms names
    some ((k, v) :: ms, names)

end

/-- The entry of a node in the table of anchored nodes, if it has an anchor. -/
def entry (decoration : Decoration Nat) (node : Node Nat) : List (Nat × Node Nat) :=
  match decoration.anchor with
  | some n => [(n, node)]
  | none => []

mutual

/-- The anchored nodes within a node, itself included, in the order in which they begin. -/
def anchored : Node Nat → List (Nat × Node Nat)
  | reference _ => []
  | scalar decoration plain text => entry decoration (scalar decoration plain text)
  | sequence decoration items =>
    entry decoration (sequence decoration items) ++ anchoredItems items
  | mapping decoration members =>
    entry decoration (mapping decoration members) ++ anchoredMembers members

/-- The anchored nodes within the elements of a sequence. -/
def anchoredItems : List (Node Nat) → List (Nat × Node Nat)
  | [] => []
  | n :: ns => n.anchored ++ anchoredItems ns

/-- The anchored nodes within the members of a mapping. -/
def anchoredMembers : List (Node Nat × Node Nat) → List (Nat × Node Nat)
  | [] => []
  | (k, v) :: ms => k.anchored ++ v.anchored ++ anchoredMembers ms

end

end Node

end Conform.Yaml
