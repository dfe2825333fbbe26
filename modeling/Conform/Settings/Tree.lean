import Conform.Path.Basic
import Conform.Settings.Store
import Conform.Yaml.Basic

/-!
# Settings from YAML trees

A tree of settings is a mapping of namespaces to mappings of keys to values.  Values become
documents: tags are dropped, scalar keys become texts, and the last member of a text counts.  What
cannot be a setting is reported with the place where it stands, the first one in the order of the
tree, a key before its value; then nothing is stored at all.
-/

namespace Conform

/-- Where a key stands in a tree of settings. -/
inductive Place where
  /-- Among the namespaces. -/
  | top
  /-- Among the keys of a namespace. -/
  | within (ns : String)
  /-- In the value of a setting, at a path below it. -/
  | setting (ns key : String) (p : Path)

/-- A setting and the steps below it, as one dotted text. -/
def settingText (ns key : String) (p : Path) : List Char :=
  ns.toList ++ '.' :: (key.toList ++ p.flatMap Segment.text)

/-- The text of a place. -/
def Place.text : Place → List Char
  | top => "the top level".toList
  | within ns => enclosed ['\''] ns.toList ['\'']
  | setting ns key p => enclosed ['\''] (settingText ns key p) ['\'']

/-- Why a text holds no settings. -/
inductive LoadFault where
  /-- The text is not YAML. -/
  | malformed
  /-- The tree is no mapping. -/
  | topLevel
  /-- The content of a namespace is no mapping. -/
  | namespaceContent (ns : String)
  /-- A key is no scalar. -/
  | unsupportedKey (place : Place) (key : Yaml)
  /-- A number is an infinity or a NaN. -/
  | notFinite (ns key : String) (p : Path) (x : Double)

/-- The sentence for a fault. -/
def LoadFault.message : LoadFault → List Char
  | malformed => "invalid YAML".toList
  | topLevel => "top level must be a mapping of namespaces".toList
  | namespaceContent ns =>
    "namespace '".toList ++ ns.toList ++ "' must be a mapping of settings".toList
  | unsupportedKey place key =>
    "unsupported key under ".toList ++ place.text ++ ": ".toList ++ key.explicit
  | notFinite ns key p x =>
    "setting '".toList ++ settingText ns key p ++ "' is not a finite number: ".toList
      ++ Yaml.floatText x

/-- A setting of a tree, with its two names. -/
structure Setting where
  ns : String
  key : String
  content : Document

namespace Yaml

/-- The text of a key at a place. -/
def keyAt (place : Place) (key : Yaml) : Except LoadFault String :=
  match key.keyText? with
  | some text => .ok text
  | none => .error (.unsupportedKey place key)

mutual

/-- The document of a value, at a path below its setting. -/
def toDocument (ns key : String) : Path → Yaml → Except LoadFault Document
  | _, null => .ok .null
  | _, bool b => .ok (.bool b)
  | _, integer n least below => .ok (.number (.integer n least below))
  | p, float x =>
    match Number.ofDouble? x with
    | some number => .ok (.number number)
    | none => .error (.notFinite ns key p x)
  | _, string text => .ok (.string text)
  | p, sequence items => (toDocumentItems ns key p 0 items).map .array
  | p, mapping members => (toDocumentMembers ns key p members).map .ofMembers
  | p, tagged _ value => toDocument ns key p value

/-- The documents of the elements of a sequence, from an index on. -/
def toDocumentItems (ns key : String) (p : Path) :
    Nat → List Yaml → Except LoadFault (List Document)
  | _, [] => .ok []
  | i, x :: xs =>
    (toDocument ns key (p.index i) x).bind fun d =>
      (toDocumentItems ns key p (i + 1) xs).map (d :: ·)

/-- The documents of the members of a mapping, by the texts of their keys. -/
def toDocumentMembers (ns key : String) (p : Path) :
    List (Yaml × Yaml) → Except LoadFault (List (String × Document))
  | [] => .ok []
  | (k, v) :: ms =>
    (keyAt (.setting ns key p) k).bind fun name =>
      (toDocument ns key (p.field name) v).bind fun d =>
        (toDocumentMembers ns key p ms).map ((name, d) :: ·)

end

/-- The settings of the members of a namespace. -/
def settingsWithin (ns : String) : List (Yaml × Yaml) → Except LoadFault (List Setting)
  | [] => .ok []
  | (k, v) :: ms =>
    (keyAt (.within ns) k).bind fun key =>
      (toDocument ns key Path.root v).bind fun content =>
        (settingsWithin ns ms).map ({ ns, key, content } :: ·)

/-- The settings of the namespaces of a tree, in order. -/
def settingsOf : List (Yaml × Yaml) → Except LoadFault (List Setting)
  | [] => .ok []
  | (k, v) :: ms =>
    (keyAt .top k).bind fun ns =>
      match v with
      | mapping members =>
        (settingsWithin ns members).bind fun here =>
          (settingsOf ms).map (here ++ ·)
      | _ => .error (.namespaceContent ns)

/-- The settings of a tree, in order and with repetitions; an empty tree has none. -/
def settings : Yaml → Except LoadFault (List Setting)
  | null => .ok []
  | mapping members => settingsOf members
  | _ => .error .topLevel

end Yaml

namespace Store

/-- Stores settings one after the other. -/
def merge (store : Store) (settings : List Setting) : Store :=
  settings.foldl (fun store s => store.set s.ns s.key (.document s.content)) store

/-- Merges the settings of a tree into a store, with their number; a text that is no tree at all is
`none`. -/
def load (store : Store) (tree : Option Yaml) : Except LoadFault (Nat × Store) :=
  match tree with
  | none => .error .malformed
  | some tree => tree.settings.map fun settings => (settings.length, store.merge settings)

end Store

end Conform
