import Conform.Proofs.Canonical.Nodes

/-!
# Parts of specifications

`Within` says that a specification occurs in another one, at any depth and without a look at what
names stand for; `Definitions.Reaches` goes through names too.  `Leads` follows a path down to the
part that a node of a value is matched against, through stages and through names.  What is
well-formed has well-formed parts.
-/

namespace Conform

namespace Spec

/-- The first specification occurs in the second. -/
inductive Within : Spec → Spec → Prop
  | refl (s : Spec) : Within s s
  | element {t s element : Spec} : s.element? = some element → Within t element → Within t s
  | field {t s spec : Spec} {fields : List Field} {field : Field} : s.fields? = some fields →
    field ∈ fields → field.spec? = some spec → Within t spec → Within t s
  | stage {t stage : Spec} {stages : List Spec} : stage ∈ stages → Within t stage →
    Within t (pipeline stages)

/-- No pipeline in the specification has more than one stage. -/
def SingleStaged (s : Spec) : Prop := ∀ stages, Within (pipeline stages) s → stages.length ≤ 1

namespace SingleStaged

variable {s : Spec}

theorem element (h : s.SingleStaged) {element : Spec} (he : s.element? = some element) :
    element.SingleStaged :=
  fun stages hw => h stages (.element he hw)

theorem field (h : s.SingleStaged) {fields : List Field} (hs : s.fields? = some fields)
    {field : Field} (hf : field ∈ fields) {spec : Spec} (hspec : field.spec? = some spec) :
    spec.SingleStaged :=
  fun stages hw => h stages (.field hs hf hspec hw)

theorem stage {stages : List Spec} (h : (pipeline stages).SingleStaged) {stage : Spec}
    (hs : stage ∈ stages) : stage.SingleStaged :=
  fun inner hw => h inner (.stage hs hw)

/-- A pipeline that fails has one stage or more, so here it has one. -/
theorem stages_eq {stage : Spec} {stages : List Spec}
    (h : (pipeline (stage :: stages)).SingleStaged) : stages = [] := by
  have hlen := h _ (.refl _)
  rw [List.length_cons] at hlen
  exact List.length_eq_zero_iff.1 (by omega)

end SingleStaged

namespace WellFormed

variable {s : Spec}

theorem element (h : s.WellFormed) {element : Spec} (he : s.element? = some element) :
    element.WellFormed := by
  cases s with
  | array | list =>
    cases he
    rw [WellFormed] at h
    exact h
  | _ => cases he

theorem fields {fields : List Field} (h : s.WellFormed) (hs : s.fields? = some fields) :
    Field.Sound fields ∧ WellFormedFields fields := by
  cases s with
  | object | proplist =>
    cases hs
    rw [WellFormed] at h
    exact h
  | _ => cases hs

theorem of_mem_fields {fields : List Field} (h : WellFormedFields fields) {field : Field}
    (hf : field ∈ fields) {spec : Spec} (hspec : field.spec? = some spec) : spec.WellFormed := by
  induction fields with
  | nil => cases hf
  | cons first fields ih =>
    have hrest : WellFormedFields fields := by
      cases first with
      | required | optional => rw [WellFormedFields] at h; exact h.2
      | rest => rw [WellFormedFields] at h; exact h
    rcases List.mem_cons.1 hf with rfl | hf
    · cases field with
      | required | optional =>
        cases hspec
        rw [WellFormedFields] at h
        exact h.1
      | rest => cases hspec
    · exact ih hrest hf

theorem stage {stages : List Spec} (h : (pipeline stages).WellFormed) {stage : Spec}
    (hs : stage ∈ stages) : stage.WellFormed := by
  rw [WellFormed] at h
  induction stages with
  | nil => cases hs
  | cons first stages ih =>
    rw [WellFormedStages] at h
    rcases List.mem_cons.1 hs with rfl | hs
    · exact h.1
    · exact ih h.2 hs

end WellFormed

/-- The path leads from the first specification to the second, which is what the node at the path is
matched against. -/
inductive Leads (defs : Definitions) : Spec → Path → Spec → Prop
  | here (s : Spec) : Leads defs s [] s
  | element {s element t : Spec} {i : Nat} {q : Path} : s.element? = some element →
    Leads defs element q t → Leads defs s (.index i :: q) t
  | field {s spec t : Spec} {fields : List Field} {field : Field} {key : String} {q : Path} :
    s.fields? = some fields → field ∈ fields → field.key? = some key → field.spec? = some spec →
    Leads defs spec q t → Leads defs s (.field key :: q) t
  | stage {stage t : Spec} {stages : List Spec} {q : Path} : stage ∈ stages →
    Leads defs stage q t → Leads defs (pipeline stages) q t
  | name {name : String} {s t : Spec} {q : Path} : defs.find? name = some s →
    Leads defs s q t → Leads defs (named name) q t

end Spec

/-- The second specification is met from the first one, in it or in what its names stand for. -/
inductive Definitions.Reaches (defs : Definitions) : Spec → Spec → Prop
  | refl (s : Spec) : Reaches defs s s
  | element {s element t : Spec} : s.element? = some element → Reaches defs element t →
    Reaches defs s t
  | field {s spec t : Spec} {fields : List Field} {field : Field} : s.fields? = some fields →
    field ∈ fields → field.spec? = some spec → Reaches defs spec t → Reaches defs s t
  | stage {stage t : Spec} {stages : List Spec} : stage ∈ stages → Reaches defs stage t →
    Reaches defs (.pipeline stages) t
  | name {name : String} {s t : Spec} : defs.find? name = some s → Reaches defs s t →
    Reaches defs (.named name) t

namespace Definitions

/-! What a specification reaches, by its form. -/

variable {defs : Definitions} {s t : Spec}

theorem reaches_of_judge {judge : Value → Except Fault Term} (h : s.judge? = some judge) :
    defs.Reaches s t ↔ t = s := by
  constructor
  · intro ht
    cases ht with
    | refl => rfl
    | element he _ => cases s <;> cases h <;> cases he
    | field hf _ _ _ => cases s <;> cases h <;> cases hf
    | stage => cases h
    | name => cases h
  · rintro rfl
    exact .refl t

theorem reaches_of_element {element : Spec} (h : s.element? = some element) :
    defs.Reaches s t ↔ t = s ∨ defs.Reaches element t := by
  constructor
  · intro ht
    cases ht with
    | refl => exact .inl rfl
    | element h' ht => exact .inr (Option.some.inj (h.symm.trans h') ▸ ht)
    | field hf _ _ _ => cases s <;> cases h <;> cases hf
    | stage => cases h
    | name => cases h
  · rintro (rfl | ht)
    · exact .refl t
    · exact .element h ht

theorem reaches_of_fields {fields : List Field} (h : s.fields? = some fields) :
    defs.Reaches s t ↔
      t = s ∨ ∃ field ∈ fields, ∃ spec, field.spec? = some spec ∧ defs.Reaches spec t := by
  constructor
  · intro ht
    cases ht with
    | refl => exact .inl rfl
    | element he _ => cases s <;> cases h <;> cases he
    | field h' hf hspec ht =>
      exact .inr ⟨_, Option.some.inj (h.symm.trans h') ▸ hf, _, hspec, ht⟩
    | stage => cases h
    | name => cases h
  · rintro (rfl | ⟨field, hf, spec, hspec, ht⟩)
    · exact .refl t
    · exact .field h hf hspec ht

theorem reaches_pipeline {stages : List Spec} :
    defs.Reaches (.pipeline stages) t ↔
      t = .pipeline stages ∨ ∃ stage ∈ stages, defs.Reaches stage t := by
  constructor
  · intro ht
    cases ht with
    | refl => exact .inl rfl
    | element he _ => cases he
    | field hf _ _ _ => cases hf
    | stage hstage ht => exact .inr ⟨_, hstage, ht⟩
  · rintro (rfl | ⟨stage, hstage, ht⟩)
    · exact .refl _
    · exact .stage hstage ht

theorem reaches_named {name : String} (h : defs.find? name = some s) :
    defs.Reaches (.named name) t ↔ t = .named name ∨ defs.Reaches s t := by
  constructor
  · intro ht
    cases ht with
    | refl => exact .inl rfl
    | element he _ => cases he
    | field hf _ _ _ => cases hf
    | name h' ht => exact .inr (Option.some.inj (h.symm.trans h') ▸ ht)
  · rintro (rfl | ht)
    · exact .refl _
    · exact .name h ht

end Definitions

theorem Definitions.mem_of_find? {defs : Definitions} {name : String} {s : Spec}
    (h : defs.find? name = some s) : ∃ d ∈ defs, d.2 = s := by
  obtain ⟨d, hd, rfl⟩ := Option.map_eq_some_iff.1 h
  exact ⟨d, List.mem_of_find?_eq_some hd, rfl⟩

end Conform
