import Conform.Mismatch.Basic
import Conform.Path.Json

/-!
# JSON form of mismatches

A mismatch is an object with its `path` and its fault under `kind`; the fault is an object that
names itself in a member `kind` of its own beside its parts.  A reader also takes either of them as
an array of the parts in order, and skips members it does not know: whatever the outer object holds
besides is not even read, while the fault is read as a whole before its parts are looked at.
-/

namespace Conform

namespace Json

mutual

/-- Every numeral of the value has a number and every string a text. -/
def isReadable : Json → Bool
  | number numeral => (numberOfNumeral? numeral).isSome
  | string pieces => (text? pieces).isSome
  | array items => areReadable items
  | object members => haveReadable members
  | _ => true

/-- All elements are readable. -/
def areReadable : List Json → Bool
  | [] => true
  | v :: vs => v.isReadable && areReadable vs

/-- All names and contents of members are readable. -/
def haveReadable : List (List Piece × Json) → Bool
  | [] => true
  | (name, v) :: ms => (text? name).isSome && v.isReadable && haveReadable ms

end

/-- The contents of the member of a name, which must occur once. -/
def unique? (members : List (String × Json)) (name : String) : Option Json :=
  match members.filter fun m => m.1 == name with
  | [m] => some m.2
  | _ => none

/-- The contents of members by name, in the order of the names; each must occur once. -/
def parts? (members : List (String × Json)) (names : List String) : Option (List Json) :=
  names.mapM (unique? members)

end Json

namespace Kind

/-- The kind that a JSON value names: by a string, or as a variant without contents. -/
def ofJson? (value : Json) : Option Kind :=
  match value.asString? with
  | some name => ofName? name
  | none =>
    value.onlyMember?.bind fun (name, content) =>
      if Json.isUnit .lenient content then ofName? name else none

end Kind

namespace Fault

/-- The name of a fault. -/
def name : Fault → String
  | wrongType .. => "wrong_type"
  | missingField .. => "missing_field"
  | superfluousFields .. => "superfluous_fields"
  | constraintNotSatisfied .. => "constraint_not_satisfied"
  | conversionFailed .. => "conversion_failed"

/-- The parts of a fault, in order. -/
def parts : Fault → List (String × Json)
  | wrongType value actual expected =>
    [("value", value.toJson), ("actual", Json.ofString actual.name),
      ("expected", Json.ofString expected)]
  | missingField field => [("field", Json.ofString field)]
  | superfluousFields fields => [("fields", .array (fields.map Json.ofString))]
  | constraintNotSatisfied description value =>
    [("description", Json.ofString description), ("value", value.toJson)]
  | conversionFailed description value reason =>
    [("description", Json.ofString description), ("value", value.toJson),
      ("reason", Json.ofString reason)]

/-- The JSON form of a fault. -/
def toJson (fault : Fault) : Json :=
  Json.ofMembers (("kind", Json.ofString fault.name) :: fault.parts)

/-- The names of the parts of the faults of a name. -/
def partNames? (name : String) : Option (List String) :=
  if name = "wrong_type" then some ["value", "actual", "expected"]
  else if name = "missing_field" then some ["field"]
  else if name = "superfluous_fields" then some ["fields"]
  else if name = "constraint_not_satisfied" then some ["description", "value"]
  else if name = "conversion_failed" then some ["description", "value", "reason"]
  else none

/-- The texts of an array of strings. -/
def texts? : Json → Option (List String)
  | .array items => items.mapM Json.asString?
  | _ => none

/-- The fault of a name with its parts in order. -/
def ofParts? (name : String) (parts : List Json) : Option Fault :=
  match parts with
  | [field] =>
    if name = "missing_field" then field.asString?.map missingField
    else if name = "superfluous_fields" then (texts? field).map superfluousFields
    else none
  | [description, value] =>
    if name = "constraint_not_satisfied" then do
      some (constraintNotSatisfied (← description.asString?) (← Term.ofJson? .lenient value))
    else none
  | [first, second, third] =>
    if name = "wrong_type" then do
      some (wrongType (← Term.ofJson? .lenient first) (← Kind.ofJson? second) (← third.asString?))
    else if name = "conversion_failed" then do
      some (conversionFailed (← first.asString?) (← Term.ofJson? .lenient second)
        (← third.asString?))
    else none
  | _ => none

/-- The fault that a JSON value is the form of. -/
def ofJson? (value : Json) : Option Fault :=
  if value.isReadable then
    match value with
    | .object members => do
      let named ← Json.named? members
      let name ← (← Json.unique? named "kind").asString?
      ofParts? name (← Json.parts? named (← partNames? name))
    | .array (tag :: parts) => do
      ofParts? (← tag.asString?) parts
    | _ => none
  else none

end Fault

namespace Mismatch

/-- The JSON form of a mismatch. -/
def toJson (m : Mismatch) : Json :=
  Json.ofMembers [("path", m.path.toJson), ("kind", m.fault.toJson)]

/-- The mismatch of its two parts, each one level below it. -/
def ofParts? (path fault : Json) : Option Mismatch :=
  if path.depth < Json.depthLimit ∧ fault.depth < Json.depthLimit then do
    some { path := ← Path.ofJson? path, fault := ← Fault.ofJson? fault }
  else none

/-- The mismatch that a JSON value is the form of. -/
def ofJson? : Json → Option Mismatch
  | .object members => do
    let named ← Json.named? members
    ofParts? (← Json.unique? named "path") (← Json.unique? named "kind")
  | .array [path, fault] => ofParts? path fault
  | _ => none

/-- The JSON text of a mismatch. -/
def jsonText (m : Mismatch) : List Char := m.toJson.text

/-- The mismatch of a JSON text. -/
def ofJsonText? (text : List Char) : Option Mismatch := (Json.parse? text).bind ofJson?

end Mismatch

end Conform
