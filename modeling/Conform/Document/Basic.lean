import Conform.Json.Reader
import Conform.Number
import Conform.Table

/-!
# Documents

A document is a JSON value that has been understood: numerals are numbers, strings are texts, and an
object is a table, its members in ascending order of their names and each name once.

* `Document.Ordered` says that every object of a document is a table; `Document.ofJson?` yields no
  other documents.
* `Document.toTerm` is the native form, in which an object is a map of the same entries.
-/

namespace Conform

/-- A JSON document. -/
inductive Document where
  | null
  | bool (value : Bool)
  | number (value : Number)
  | string (text : String)
  | array (items : List Document)
  | object (members : List (String × Document))

namespace Document

instance : Inhabited Document := ⟨null⟩

/-- The object of the given members, the last one of a name counting. -/
def ofMembers (members : List (String × Document)) : Document := object (Table.ofList members)

/-- The tag of a document. -/
def kind : Document → Kind
  | null => .null
  | bool _ => .boolean
  | number n => n.kind
  | string _ => .string
  | array _ => .array
  | object _ => .object

mutual

/-- The native form of a document. -/
def toTerm : Document → Term
  | null => .null
  | bool b => .bool b
  | number n => n.toTerm
  | string text => .str text
  | array items => .list (toTermItems items)
  | object members => .map (toTermMembers members)

/-- The native forms of the elements of an array. -/
def toTermItems : List Document → List Term
  | [] => []
  | d :: ds => d.toTerm :: toTermItems ds

/-- The native forms of the members of an object. -/
def toTermMembers : List (String × Document) → List (String × Term)
  | [] => []
  | (name, d) :: ms => (name, d.toTerm) :: toTermMembers ms

end

theorem toTermItems_eq_map (items : List Document) : toTermItems items = items.map toTerm := by
  induction items with
  | nil => rfl
  | cons d ds ih => simp [toTermItems, ih]

theorem toTermMembers_eq_map (members : List (String × Document)) :
    toTermMembers members = members.map fun m => (m.1, m.2.toTerm) := by
  induction members with
  | nil => rfl
  | cons m ms ih => obtain ⟨name, d⟩ := m; simp [toTermMembers, ih]

mutual

/-- Every object in the document is a table. -/
def Ordered : Document → Prop
  | array items => OrderedItems items
  | object members => Table.Ascending members ∧ OrderedMembers members
  | _ => True

/-- Every object in every element is a table. -/
def OrderedItems : List Document → Prop
  | [] => True
  | d :: ds => d.Ordered ∧ OrderedItems ds

/-- Every object in the contents of every member is a table. -/
def OrderedMembers : List (String × Document) → Prop
  | [] => True
  | (_, d) :: ms => d.Ordered ∧ OrderedMembers ms

end

/-! ### Reading -/

mutual

/-- The document of a JSON value; none if a numeral or a string in it has no value. -/
def ofJson? : Json → Option Document
  | .null => some null
  | .bool b => some (bool b)
  | .number numeral => (Json.numberOfNumeral? numeral).map number
  | .string pieces => (Json.text? pieces).map string
  | .array items => (ofJsonItems? items).map array
  | .object members => (ofJsonMembers? members).map ofMembers

/-- The documents of the elements of an array. -/
def ofJsonItems? : List Json → Option (List Document)
  | [] => some []
  | v :: vs => (ofJson? v).bind fun d => (ofJsonItems? vs).map (d :: ·)

/-- The documents of the members of an object, as written. -/
def ofJsonMembers? : List (List Json.Piece × Json) → Option (List (String × Document))
  | [] => some []
  | (pieces, v) :: ms =>
    (Json.text? pieces).bind fun name =>
      (ofJson? v).bind fun d => (ofJsonMembers? ms).map ((name, d) :: ·)

end

/-- The document of a JSON text, which may nest up to the limit. -/
def ofJsonText? (text : List Char) : Option Document :=
  (Json.parse? text).bind fun v => if v.depth ≤ Json.depthLimit then ofJson? v else none

end Document

end Conform
