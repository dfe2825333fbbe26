import Conform.Path.Basic
import Conform.Term.Equality

/-!
# Mismatches

A match that fails stops at its first fault.  A `Mismatch` is that fault with the path of the node
where it was found, and `Mismatch.message` says it in one English sentence.
-/

namespace Conform

/-- What is wrong with a node. -/
inductive Fault where
  /-- The node is of another kind, or is none of the literals allowed. -/
  | wrongType (value : Term) (actual : Kind) (expected : String)
  /-- A required field is absent. -/
  | missingField (field : String)
  /-- Fields that nothing declares are present. -/
  | superfluousFields (fields : List String)
  /-- A predicate does not hold. -/
  | constraintNotSatisfied (description : String) (value : Term)
  /-- A conversion fails; its reason may be empty. -/
  | conversionFailed (description : String) (value : Term) (reason : String)

/-- A fault and where it is. -/
structure Mismatch where
  path : Path
  fault : Fault

namespace Fault

/-- How many characters of a literal a message shows. -/
def longestLiteral : Nat := 64

/-- The literal form of a term as a message shows it, cut with a mark if it is long. -/
def excerpt (t : Term) : List Char :=
  let whole := t.literal
  if whole.length ≤ longestLiteral then whole
  else whole.take longestLiteral ++ ['.', '.', '.']

/-- The sentence for a fault. -/
def message : Fault → List Char
  | wrongType value actual expected =>
    "Value ".toList ++ excerpt value ++ " has type ".toList ++ actual.name.toList
      ++ ", but ".toList ++ expected.toList ++ " was expected".toList
  | missingField field => "The object is missing field ".toList ++ field.toList
  | superfluousFields fields =>
    "The object has superfluous fields: ".toList ++ commaSeparated (fields.map String.toList)
  | constraintNotSatisfied description value =>
    "The value does not satisfy ".toList ++ description.toList ++ ": ".toList ++ excerpt value
  | conversionFailed description value reason =>
    "The value could not be converted by ".toList ++ description.toList ++ ": ".toList
      ++ excerpt value
      ++ (if reason.isEmpty then [] else enclosed [' ', '('] reason.toList [')'])

/-- The faults agree, terms being compared as values. -/
def same : Fault → Fault → Bool
  | wrongType v a e, wrongType w b f => v.same w && a == b && e == f
  | missingField f, missingField g => f == g
  | superfluousFields fs, superfluousFields gs => fs == gs
  | constraintNotSatisfied d v, constraintNotSatisfied e w => d == e && v.same w
  | conversionFailed d v r, conversionFailed e w s => d == e && v.same w && r == s
  | _, _ => false

end Fault

namespace Mismatch

/-- The sentence for a mismatch. -/
def message (m : Mismatch) : List Char :=
  "At path ".toList ++ m.path.text ++ " : ".toList ++ m.fault.message

/-- The mismatches agree, terms being compared as values. -/
def same (m n : Mismatch) : Bool := m.path == n.path && m.fault.same n.fault

end Mismatch

end Conform
