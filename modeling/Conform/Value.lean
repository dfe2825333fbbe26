import Conform.Document.Basic
import Conform.Term.Basic

/-!
# Values and their views

What is matched against a specification is a `Value`: a document or a native term.  A match asks it
only for its kind, its native form, and its parts under three views.

* `elements?`: the elements of a sequence, an array of a document or a native list.
* `mapping?`: the entries of an object of a document or a native map.
* `proplist?`: the entries of a native proplist; a document never is one.
-/

namespace Conform

/-- Something to match. -/
inductive Value where
  | document (d : Document)
  | native (t : Term)

/-- One entry of a mapping or a proplist: the text of its key, the key itself, and its value. -/
structure Entry where
  name : String
  key : Term
  value : Value

namespace Value

/-- The tag of a value. -/
def kind : Value → Kind
  | document d => d.kind
  | native t => t.kind

/-- The native form of a value. -/
def toTerm : Value → Term
  | document d => d.toTerm
  | native t => t

/-- The elements of a sequence. -/
def elements? : Value → Option (List Value)
  | document (.array items) => some (items.map document)
  | native (.list items) => some (items.map native)
  | _ => none

/-- The entries of a mapping. -/
def mapping? : Value → Option (List Entry)
  | document (.object members) =>
    some (members.map fun m => { name := m.1, key := .str m.1, value := document m.2 })
  | native (.map entries) =>
    some (entries.map fun e => { name := e.1, key := .str e.1, value := native e.2 })
  | _ => none

/-- The entry of a key and a value, if the key has a text. -/
def entryOf? (pair : Term × Term) : Option Entry :=
  pair.1.keyName?.map fun name => { name, key := pair.1, value := native pair.2 }

/-- The entries of a proplist. -/
def proplist? : Value → Option (List Entry)
  | document _ => none
  | native t => t.asProplist?.bind fun pairs => pairs.mapM entryOf?

end Value

namespace Entry

/-- The value of the first entry of a name. -/
def first? (name : String) (entries : List Entry) : Option Value :=
  (entries.find? fun e => e.name == name).map Entry.value

/-- Key and native form of the value, side by side. -/
def pair (e : Entry) : Term := .tuple [e.key, e.value.toTerm]

end Entry

end Conform
