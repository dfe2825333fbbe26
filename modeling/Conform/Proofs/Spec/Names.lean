import Conform.Proofs.Canonical.Nodes

/-!
# The names in a specification

`Spec.names` lists the names that a specification refers to by itself, and `Definitions.Unfolds`
says that following them comes to an end: every name that is met has a definition, and a bounded
number of names in a row leads to definitions without names.
-/

namespace Conform

namespace Spec

mutual

/-- The names that a specification mentions. -/
def names : Spec → List String
  | array element | list element => element.names
  | object fields | proplist fields => fieldNames fields
  | pipeline stages => stageNames stages
  | named name => [name]
  | _ => []

/-- The names that the fields of a row mention. -/
def fieldNames : List Field → List String
  | [] => []
  | .required _ spec :: fields | .optional _ spec _ :: fields => spec.names ++ fieldNames fields
  | .rest _ :: fields => fieldNames fields

/-- The names that the stages of a pipeline mention. -/
def stageNames : List Spec → List String
  | [] => []
  | stage :: stages => stage.names ++ stageNames stages

end

theorem names_of_element {s element : Spec} (h : s.element? = some element) :
    s.names = element.names := by
  cases s with
  | array | list => cases h; rfl
  | _ => cases h

theorem names_of_fields {s : Spec} {fields : List Field} (h : s.fields? = some fields) :
    s.names = fieldNames fields := by
  cases s with
  | object | proplist => cases h; rfl
  | _ => cases h

theorem names_subset_fieldNames {fields : List Field} {field : Field} (hf : field ∈ fields)
    {spec : Spec} (hs : field.spec? = some spec) : spec.names ⊆ fieldNames fields := by
  induction fields with
  | nil => cases hf
  | cons first fields ih =>
    intro name hname
    rcases List.mem_cons.1 hf with rfl | hf
    · cases field with
      | required | optional =>
        cases hs
        rw [fieldNames]
        exact List.mem_append_left _ hname
      | rest => cases hs
    · have hrest := ih hf hname
      cases first with
      | required | optional =>
        rw [fieldNames]
        exact List.mem_append_right _ hrest
      | rest =>
        rw [fieldNames]
        exact hrest

theorem names_subset_stageNames {stages : List Spec} {stage : Spec} (h : stage ∈ stages) :
    stage.names ⊆ stageNames stages := by
  induction stages with
  | nil => cases h
  | cons first stages ih =>
    intro name hname
    rw [stageNames]
    rcases List.mem_cons.1 h with rfl | h
    · exact List.mem_append_left _ hname
    · exact List.mem_append_right _ (ih h hname)

end Spec

/-- The names of a specification unfold, at most `bound` of them in a row. -/
def Definitions.Unfolds (defs : Definitions) : Nat → Spec → Prop
  | 0, spec => spec.names = []
  | bound + 1, spec =>
    ∀ name ∈ spec.names, ∃ meaning, defs.find? name = some meaning ∧ Unfolds defs bound meaning

end Conform
