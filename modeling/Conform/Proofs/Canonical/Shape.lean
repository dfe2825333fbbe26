import Conform.Proofs.Canonical.Doors
import Conform.Proofs.Canonical.Pipelines
import Conform.Proofs.Fields.Slots
import Conform.Proofs.Spec.Parts
import Mathlib.Data.List.Induction

/-!
# The shape of canonical forms

Whoever takes a canonical form apart by position relies on its shape.  `Conforms` says what shape a
specification promises, without a look at how values are matched.

* A scalar promises a term of its sort, a `member` one of its literals, a `satisfy` its predicate, a
  `convert` an output of its function.
* A sequence promises a list with one element for each element of the value, an object or a proplist
  a tuple with one slot for each field.  The slot of a field that is there has the shape of the
  field, a default stands as it is, and a rest directive has an output of its conversion on a
  proplist.
* A pipeline promises what its last stage does of a term with the shape that the stages before it
  promise, a name what its specification does.

`canonical_conforms` proves that a match keeps the promise.
-/

namespace Conform

namespace Term

/-- The term is an integer, in either representation. -/
def IsInteger (t : Term) : Prop := (∃ n, t = int n) ∨ ∃ n, t = uint n

/-- The term is a number, in any of the three representations. -/
def IsNumber (t : Term) : Prop := t.IsInteger ∨ ∃ x, t = float x

theorem isInteger_of_kind {t : Term} (h : t.kind = .integer) : t.IsInteger := by
  cases t with
  | int n => exact Or.inl ⟨n, rfl⟩
  | uint n => exact Or.inr ⟨n, rfl⟩
  | _ => cases h

theorem isNumber_of_kind {t : Term} (h : t.kind.isNumeric = true) : t.IsNumber := by
  cases t with
  | int n => exact Or.inl (Or.inl ⟨n, rfl⟩)
  | uint n => exact Or.inl (Or.inr ⟨n, rfl⟩)
  | float x => exact Or.inr ⟨x, rfl⟩
  | _ => cases h

end Term

/-! ### Conformance -/

mutual

/-- The term has the shape that a specification promises of the canonical form of a value. -/
inductive Conforms (defs : Definitions) : Spec → Value → Term → Prop
  | any (v : Value) : Conforms defs .any v v.toTerm
  | string (v : Value) (text : String) : Conforms defs .string v (.str text)
  | number (v : Value) {t : Term} : t.IsNumber → Conforms defs .number v t
  | integer (v : Value) {t : Term} : t.IsInteger → Conforms defs .integer v t
  | boolean (v : Value) (b : Bool) : Conforms defs .boolean v (.bool b)
  /-- One element for each element of an array or a list. -/
  | sequence {s element : Spec} {v : Value} {items : List Value} {ts : List Term} :
    s.element? = some element → v.elements? = some items → ts.length = items.length →
    (∀ (i : Nat) (item : Value) (t : Term), items[i]? = some item → ts[i]? = some t →
      Conforms defs element item t) →
    Conforms defs s v (.list ts)
  /-- One slot for each field of an object or a proplist. -/
  | row {s : Spec} {fields : List Field} {v : Value} {entries : List Entry} {slots : List Term} :
    s.fields? = some fields → s.entries? v = some entries → slots.length = fields.length →
    (∀ (i : Nat) (field : Field) (slot : Term), fields[i]? = some field → slots[i]? = some slot →
      FieldConforms defs entries field slot) →
    Conforms defs s v (.tuple slots)
  | member (v : Value) {literals : List Term} {t : Term} : t ∈ literals →
    Conforms defs (.member literals) v t
  | satisfy (v : Value) {predicate : Term → Bool} (description : String) {t : Term} :
    predicate t = true → Conforms defs (.satisfy predicate description) v t
  | convert (v : Value) {function : Conversion} (description : String) {t : Term} :
    function v.toTerm = .ok t → Conforms defs (.convert function description) v t
  | identity (v : Value) : Conforms defs (.pipeline []) v v.toTerm
  | onlyStage {stage : Spec} {v : Value} {t : Term} : Conforms defs stage v t →
    Conforms defs (.pipeline [stage]) v t
  /-- The last of several stages sees what the stages before it make of the value. -/
  | lastStage {stages : List Spec} {stage : Spec} {v : Value} {u t : Term} : stages ≠ [] →
    Conforms defs (.pipeline stages) v u → Conforms defs stage (.native u) t →
    Conforms defs (.pipeline (stages ++ [stage])) v t
  | named {name : String} {s : Spec} {v : Value} {t : Term} : defs.find? name = some s →
    Conforms defs s v t → Conforms defs (.named name) v t

/-- The slot is what a field promises, given the entries of its row. -/
inductive FieldConforms (defs : Definitions) : List Entry → Field → Term → Prop
  | required {entries : List Entry} {key : String} {spec : Spec} {v : Value} {t : Term} :
    Entry.first? key entries = some v → Conforms defs spec v t →
    FieldConforms defs entries (.required key spec) t
  | optional {entries : List Entry} {key : String} {spec : Spec} (default : Term) {v : Value}
    {t : Term} : Entry.first? key entries = some v → Conforms defs spec v t →
    FieldConforms defs entries (.optional key spec default) t
  | default {entries : List Entry} {key : String} (spec : Spec) (default : Term) :
    Entry.first? key entries = none →
    FieldConforms defs entries (.optional key spec default) default
  | rest (entries : List Entry) {transform : Conversion} {captured t : Term}
    {pairs : List (Term × Term)} : captured.asProplist? = some pairs →
    transform captured = .ok t → FieldConforms defs entries (.rest transform) t

end

/-! ### One node -/

/-- Only an array has another kind in its native form. -/
theorem Value.kind_toTerm {v : Value} {kind : Kind} (h : v.kind = kind) (hne : kind ≠ .array) :
    v.toTerm.kind = kind := by
  rcases v.kind_toNative with hk | ⟨hk, _⟩
  · exact hk.trans h
  · exact absurd (h.symm.trans hk) hne

namespace Spec

variable {defs : Definitions} {refer : String → Matcher}

theorem conforms_of_judge {s : Spec} {judge : Value → Except Fault Term}
    (h : s.judge? = some judge) {v : Value} {t : Term} (ht : judge v = .ok t) :
    Conforms defs s v t := by
  cases s with
  | array | list | object | proplist | pipeline | named => cases h
  | any =>
    cases h
    cases ht
    exact .any v
  | string =>
    cases h
    obtain ⟨hk, rfl⟩ := of_judgeKind ht
    have hkind : v.toTerm.kind = .string := Value.kind_toTerm (by simpa using hk) nofun
    cases hv : v.toTerm with
    | str text => exact .string v text
    | _ => rw [hv] at hkind; cases hkind
  | number =>
    cases h
    obtain ⟨hk, rfl⟩ := of_judgeKind ht
    have hkind : v.toTerm.kind = v.kind := Value.kind_toTerm rfl fun e => by
      rw [e] at hk
      cases hk
    exact .number v (Term.isNumber_of_kind (hkind ▸ hk))
  | integer =>
    cases h
    obtain ⟨hk, rfl⟩ := of_judgeKind ht
    exact .integer v (Term.isInteger_of_kind (Value.kind_toTerm (by simpa using hk) nofun))
  | boolean =>
    cases h
    obtain ⟨hk, rfl⟩ := of_judgeKind ht
    have hkind : v.toTerm.kind = .boolean := Value.kind_toTerm (by simpa using hk) nofun
    cases hv : v.toTerm with
    | bool b => exact .boolean v b
    | _ => rw [hv] at hkind; cases hkind
  | member literals =>
    cases h
    dsimp only at ht
    split at ht
    · rename_i literal hl
      exact Except.ok.inj ht ▸ .member v (List.mem_of_find?_eq_some hl)
    · cases ht
  | satisfy predicate description =>
    cases h
    dsimp only at ht
    split at ht
    · rename_i hp
      exact Except.ok.inj ht ▸ .satisfy v description hp
    · cases ht
  | convert function description =>
    cases h
    dsimp only at ht
    split at ht
    · rename_i hf
      exact Except.ok.inj ht ▸ .convert v description hf
    · cases ht

/-- What the stages of a pipeline make of a value conforms to the pipeline. -/
theorem conforms_of_stages {stages : List Spec}
    (ih : ∀ stage ∈ stages, ∀ v p t, stage.canonical refer v p = .ok t → Conforms defs stage v t)
    {v : Value} {p : Path} {t : Term} (h : (pipeline stages).canonical refer v p = .ok t) :
    Conforms defs (pipeline stages) v t := by
  -- from the end, since the last stage is the one that promises
  induction stages using List.reverseRecOn generalizing t with
  | nil =>
    rw [canonical] at h
    cases h
    exact .identity v
  | append_singleton front last ihfront =>
    have hlast := ih last (List.mem_append_right front List.mem_cons_self)
    by_cases hfront : front = []
    · subst hfront
      rw [List.nil_append, canonical_pipeline_cons] at h
      obtain ⟨u, hu, h⟩ := bind_eq_ok_iff.1 h
      rw [through] at h
      cases h
      exact .onlyStage (hlast v p t hu)
    · rw [canonical_pipeline_append hfront] at h
      obtain ⟨u, hu, h⟩ := bind_eq_ok_iff.1 h
      rw [through_cons] at h
      obtain ⟨w, hw, h⟩ := bind_eq_ok_iff.1 h
      rw [through] at h
      cases h
      have hu := ihfront (fun stage hs => ih stage (List.mem_append_left [last] hs)) hu
      exact .lastStage hfront hu (hlast (.native u) p t hw)

theorem fieldConforms_of_fills {fields : List Field} {entries : List Entry}
    (hkeyed : ∀ e ∈ entries, e.Keyed) {field : Field}
    (ih : ∀ spec, field.spec? = some spec → ∀ v p t, spec.canonical refer v p = .ok t →
      Conforms defs spec v t) {p : Path} {t : Term}
    (h : field.Fills (canonical refer) fields entries p t) :
    FieldConforms defs entries field t := by
  cases field with
  | required key spec =>
    obtain ⟨v, hv, ht⟩ := h
    exact .required hv (ih spec rfl v _ t ht)
  | optional key spec default =>
    cases hv : Entry.first? key entries with
    | some v =>
      simp only [Field.Fills, hv] at h
      exact .optional default hv (ih spec rfl v _ t h)
    | none =>
      simp only [Field.Fills, hv] at h
      rw [h]
      exact .default spec default hv
  | rest transform =>
    obtain ⟨es, hes, ht⟩ := h
    have hpairs := Entry.asProplist?_pairs (hes.keyed hkeyed)
    exact .rest entries hpairs ht

/-! ### All nodes -/

/-- **Every canonical form conforms**, if those under names do. -/
theorem canonical_conforms
    (hr : ∀ name v p t, refer name v p = .ok t → Conforms defs (named name) v t) (s : Spec) :
    s.WellFormed → ∀ v p t, s.canonical refer v p = .ok t → Conforms defs s v t := by
  induction s using Spec.ind with
  | leaf s judge h =>
    intro _ v p t ht
    rw [canonical_of_judge h] at ht
    cases hj : judge v with
    | ok u =>
      rw [hj] at ht
      cases ht
      exact conforms_of_judge h hj
    | error f =>
      rw [hj] at ht
      cases ht
  | sequence s element h ih =>
    intro hs v p t ht
    rw [canonical_of_element h] at ht
    cases hv : v.elements? with
    | none => rw [hv] at ht; cases ht
    | some items =>
      simp only [hv, map_eq_ok_iff, Matcher.items_eq_mapM] at ht
      obtain ⟨ts, hts, rfl⟩ := ht
      have hrow := mapM_eq_ok_iff.1 hts
      have hlen : ts.length = items.length := by rw [← hrow.length_eq, List.length_zipIdx]
      refine .sequence h hv hlen fun i item t hitem ht => ?_
      have hzip : items.zipIdx[i]? = some (item, i) := by
        rw [List.getElem?_zipIdx, hitem, Option.map_some, Nat.zero_add]
      exact ih (hs.element h) item (p.index i) t (rel_of_getElem? hrow hzip ht)
  | row s fields h ih =>
    intro hs v p t ht
    obtain ⟨hsound, hfields⟩ := hs.fields h
    cases hv : s.entries? v with
    | none =>
      rw [canonical_of_fields h, hv] at ht
      cases ht
    | some entries =>
      obtain ⟨slots, hslots, rest, hrest, rfl⟩ := (canonical_fields_eq_ok_iff h hv).1 ht
      have hrow := mapM_eq_ok_iff.1 hslots
      have hlen : (slots.map fun slot => slot.getD rest).length = fields.length := by
        rw [List.length_map, hrow.length_eq]
      refine .row h hv hlen fun i field slot hf hslot => ?_
      rw [List.getElem?_map] at hslot
      obtain ⟨found, hfound, rfl⟩ := Option.map_eq_some_iff.1 hslot
      have hmem := List.mem_of_getElem? hf
      have hslot := rel_of_getElem? hrow hf hfound
      have hfills := Field.fills_getD_of_slot_eq_ok hsound hrest hmem hslot
      exact fieldConforms_of_fills (keyed_of_entries? hv)
        (fun spec hspec => ih field hmem spec hspec (WellFormed.of_mem_fields hfields hmem hspec))
        hfills
  | pipeline stages ih =>
    intro hs v p t ht
    exact conforms_of_stages (fun stage hstage => ih stage hstage (hs.stage hstage)) ht
  | named name =>
    intro _ v p t ht
    exact hr name v p t ht

end Spec

namespace Definitions

theorem refer_conforms {defs : Definitions} (hdefs : ∀ d ∈ defs, d.2.WellFormed) (bound : Nat) :
    ∀ name v p t, defs.refer bound name v p = .ok t → Conforms defs (.named name) v t := by
  refine refer_ind (motive := fun name matcher => ∀ v p t, matcher v p = .ok t →
    Conforms defs (.named name) v t) ?_ ?_ ?_ bound
  · intro name v p t ht
    cases ht
  · intro name v p t ht
    cases ht
  · intro name spec refer hs ih v p t ht
    obtain ⟨d, hd, rfl⟩ := mem_of_find? hs
    exact .named hs (Spec.canonical_conforms ih d.2 (hdefs d hd) v p t ht)

/-- **Canonical forms have the shape that is promised.**  Whatever a value is, what a well-formed
specification makes of it conforms to the specification. -/
theorem matching_conforms {defs : Definitions} (hdefs : ∀ d ∈ defs, d.2.WellFormed) {spec : Spec}
    (hspec : spec.WellFormed) {bound : Nat} {v : Value} {p : Path} {t : Term}
    (h : defs.matching bound spec v p = .ok t) : Conforms defs spec v t :=
  Spec.canonical_conforms (refer_conforms hdefs bound) spec hspec v p t h

/-- A rest directive before a default that is not of its field's type, and a pipeline whose last
stage sees the tuple of the first. -/
theorem matching_conforms_of_default_and_rest :
    let defs : Definitions := [("pairs", .list (.proplist [.required "k" .integer]))]
    let row : Spec := .proplist [.rest .ok, .optional "a" .integer (.str "none"),
      .required "b" (.named "pairs")]
    let spec : Spec := .pipeline [row, .satisfy (fun t => t.kind == .tuple) "a tuple"]
    let v : Value := .native (.list [.tuple [.atom "x", .null],
      .tuple [.str "b", .list [.list [.tuple [.atom "k", .uint 7]]]]])
    let t : Term :=
      .tuple [.list [.tuple [.atom "x", .null]], .str "none", .list [.tuple [.uint 7]]]
    (∀ d ∈ defs, d.2.WellFormed) ∧ spec.WellFormed ∧
      defs.matching 1 spec v Path.root = .ok t ∧ Conforms defs spec v t := by
  intro defs row spec v t
  have hdefs : ∀ d ∈ defs, d.2.WellFormed := by
    intro d hd
    obtain rfl := List.mem_singleton.1 hd
    simp only [Spec.WellFormed, Spec.WellFormedFields, and_true]
    exact Field.defect?_eq_none_iff.1 rfl
  have hspec : spec.WellFormed := by
    simp only [spec, row, Spec.WellFormed, Spec.WellFormedFields, Spec.WellFormedStages, and_true]
    exact Field.defect?_eq_none_iff.1 rfl
  have hrun : defs.matching 1 spec v Path.root = .ok t := by rfl
  exact ⟨hdefs, hspec, hrun, matching_conforms hdefs hspec hrun⟩

end Definitions

end Conform
