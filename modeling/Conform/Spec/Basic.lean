import Conform.Term.Basic

/-!
# Specifications

A `Spec` describes the shape of a value and, at the same time, its canonical form.  The fields of an
object or a proplist fix the slots of a tuple by their order; a rest directive has a slot too, for
whatever the other fields leave over.

* `Field.defect?` is the first defect of a row of fields: a second rest directive or a key that is
  declared again.  `Spec.object?` and `Spec.proplist?` build only from rows without one.
* `Field.Sound` says the same of the row as a whole.
-/

namespace Conform

/-- A conversion of terms, which may fail with a reason. -/
abbrev Conversion := Term → Except String Term

mutual

/-- The shape of a value. -/
inductive Spec where
  | string
  /-- Any number, in integer representation or not. -/
  | number
  | integer
  | boolean
  /-- Every value. -/
  | any
  /-- A sequence, in document terms. -/
  | array (element : Spec)
  /-- A sequence, in native terms. -/
  | list (element : Spec)
  /-- A mapping with the given fields. -/
  | object (fields : List Field)
  /-- A list of keyed pairs with the given fields. -/
  | proplist (fields : List Field)
  /-- One of some literals. -/
  | member (literals : List Term)
  /-- A value whose native form has a property. -/
  | satisfy (predicate : Term → Bool) (description : String)
  /-- A value whose native form can be converted. -/
  | convert (function : Conversion) (description : String)
  /-- Stages one after the other, each matching what the one before it yields. -/
  | pipeline (stages : List Spec)
  /-- The specification of a name, looked up when it is needed. -/
  | named (name : String)

/-- A slot of an object or a proplist. -/
inductive Field where
  /-- A field that has to be there. -/
  | required (key : String) (spec : Spec)
  /-- A field whose default stands in, as it is, when it is not there. -/
  | optional (key : String) (spec : Spec) (default : Term)
  /-- What the other fields leave over, converted as one list of pairs. -/
  | rest (transform : Conversion)

end

instance : Inhabited Spec := ⟨.any⟩

instance : Inhabited Field := ⟨.rest .ok⟩

/-- Why a row of fields is no specification. -/
inductive SpecDefect where
  | duplicateRest
  | duplicateField (key : String)
  deriving DecidableEq

/-- The sentence for a defect. -/
def SpecDefect.message : SpecDefect → List Char
  | duplicateRest =>
    "at most one rest-capture directive is allowed per object or proplist".toList
  | duplicateField key => "field '".toList ++ key.toList ++ "' is declared more than once".toList

namespace Field

/-- The rest directive that keeps what is left over as it is. -/
def restIdentity : Field := rest .ok

/-- The key that a field declares; a rest directive declares none. -/
def key? : Field → Option String
  | required key _ | optional key _ _ => some key
  | rest _ => none

/-- The conversion of a rest directive. -/
def transform? : Field → Option Conversion
  | rest transform => some transform
  | _ => none

/-- The keys that a row of fields declares, in order. -/
def keys (fields : List Field) : List String := fields.filterMap key?

/-- Some field of the row declares the key. -/
def declares (fields : List Field) (key : String) : Bool :=
  fields.any fun field => field.key? == some key

/-- The conversion of the rest directive of a row, if it has one. -/
def rest? (fields : List Field) : Option Conversion := fields.findSome? transform?

/-- No key is declared twice and there is at most one rest directive. -/
def Sound (fields : List Field) : Prop :=
  (keys fields).Nodup ∧ (fields.filterMap transform?).length ≤ 1

/-- The first defect of a row of fields that follows others, given their keys and whether one of
them was a rest directive. -/
def defectAfter? (seen : List String) (restSeen : Bool) : List Field → Option SpecDefect
  | [] => none
  | field :: fields =>
    match field.key? with
    | some key =>
      if key ∈ seen then some (.duplicateField key)
      else defectAfter? (key :: seen) restSeen fields
    | none => if restSeen then some .duplicateRest else defectAfter? seen true fields

/-- The first defect of a row of fields. -/
def defect? (fields : List Field) : Option SpecDefect := defectAfter? [] false fields

end Field

namespace Spec

/-- The object of a row of fields. -/
def object? (fields : List Field) : Except SpecDefect Spec :=
  match Field.defect? fields with
  | none => .ok (object fields)
  | some defect => .error defect

/-- The proplist of a row of fields. -/
def proplist? (fields : List Field) : Except SpecDefect Spec :=
  match Field.defect? fields with
  | none => .ok (proplist fields)
  | some defect => .error defect

/-- The row of fields of an object or a proplist. -/
def fields? : Spec → Option (List Field)
  | object fields | proplist fields => some fields
  | _ => none

mutual

/-- Every row of fields in the specification is sound. -/
def WellFormed : Spec → Prop
  | array element | list element => element.WellFormed
  | object fields | proplist fields => Field.Sound fields ∧ WellFormedFields fields
  | pipeline stages => WellFormedStages stages
  | _ => True

/-- The specifications of all fields are well-formed. -/
def WellFormedFields : List Field → Prop
  | [] => True
  | .required _ spec :: fields | .optional _ spec _ :: fields =>
    spec.WellFormed ∧ WellFormedFields fields
  | .rest _ :: fields => WellFormedFields fields

/-- All stages are well-formed. -/
def WellFormedStages : List Spec → Prop
  | [] => True
  | stage :: stages => stage.WellFormed ∧ WellFormedStages stages

end

end Spec

end Conform
