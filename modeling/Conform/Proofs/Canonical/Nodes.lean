import Conform.Proofs.Outcome

/-!
# The nodes of a specification

A specification has fourteen constructors and five sorts of nodes.  A proof about all specifications
goes by the sorts, `Spec.ind`, and learns what `Spec.canonical` does at a node from one equation for
its sort.

* A *leaf* judges a value by itself: `Spec.judge?`, `canonical_of_judge`.
* A *sequence* matches the elements: `Spec.element?`, `canonical_of_element`.
* A *row of fields* matches the entries it declares: `Spec.fields?`, `canonical_of_fields` and, when
  the entries are there, `canonical_of_entries`.
* A *pipeline* threads a term through its stages: `canonical_pipeline_cons`.
* A *name* is left to the matcher for names.  For the one that looks names up, `refer_ind` is the
  induction over the names that are followed.
-/

namespace Conform

/-- The specification of a field; a rest directive has none. -/
def Field.spec? : Field → Option Spec
  | required _ spec | optional _ spec _ => some spec
  | rest _ => none

namespace Spec

/-- The judgement on a value by its kind alone. -/
def judgeKind (accepts : Kind → Bool) (spec : Spec) (v : Value) : Except Fault Term :=
  if accepts v.kind then .ok v.toTerm else .error (.wrongType v.toTerm v.kind spec.label)

/-- A judgement by kind passes values of that kind as they are. -/
theorem of_judgeKind {accepts : Kind → Bool} {s : Spec} {v : Value} {t : Term}
    (h : judgeKind accepts s v = .ok t) : accepts v.kind = true ∧ t = v.toTerm := by
  unfold judgeKind at h
  split at h
  · rename_i hk
    exact ⟨hk, (Except.ok.inj h).symm⟩
  · cases h

/-- The judgement of a leaf on a value: its canonical form or a fault of the value itself. -/
def judge? : Spec → Option (Value → Except Fault Term)
  | any => some fun v => .ok v.toTerm
  | string => some (judgeKind (· == .string) string)
  | number => some (judgeKind Kind.isNumeric number)
  | integer => some (judgeKind (· == .integer) integer)
  | boolean => some (judgeKind (· == .boolean) boolean)
  | member literals => some fun v =>
    match literals.find? fun literal => literal.same v.toTerm with
    | some literal => .ok literal
    | none => .error (.wrongType v.toTerm v.kind (member literals).label)
  | satisfy predicate description => some fun v =>
    if predicate v.toTerm then .ok v.toTerm
    else .error (.constraintNotSatisfied description v.toTerm)
  | convert function description => some fun v =>
    match function v.toTerm with
    | .ok t => .ok t
    | .error reason => .error (.conversionFailed description v.toTerm reason)
  | _ => none

/-- The specification of the elements of a sequence. -/
def element? : Spec → Option Spec
  | array element | list element => some element
  | _ => none

/-- The entries that a row of fields is matched against. -/
def entries? : Spec → Value → Option (List Entry)
  | object _, v => v.mapping?
  | proplist _, v => v.proplist?
  | _, _ => none

/-- Induction over specifications by the sorts of their nodes. -/
@[elab_as_elim]
theorem ind {motive : Spec → Prop}
    (leaf : ∀ s judge, s.judge? = some judge → motive s)
    (sequence : ∀ s element, s.element? = some element → motive element → motive s)
    (row : ∀ s fields, s.fields? = some fields →
      (∀ field ∈ fields, ∀ t, field.spec? = some t → motive t) → motive s)
    (pipeline : ∀ stages, (∀ stage ∈ stages, motive stage) → motive (pipeline stages))
    (named : ∀ name, motive (named name)) (s : Spec) : motive s := by
  refine @Spec.rec motive (fun field => ∀ t, field.spec? = some t → motive t)
    (fun fields => ∀ field ∈ fields, ∀ t, field.spec? = some t → motive t)
    (fun stages => ∀ stage ∈ stages, motive stage)
    (leaf _ _ rfl) (leaf _ _ rfl) (leaf _ _ rfl) (leaf _ _ rfl) (leaf _ _ rfl)
    (fun element ih => sequence _ element rfl ih) (fun element ih => sequence _ element rfl ih)
    (fun fields ih => row _ fields rfl ih) (fun fields ih => row _ fields rfl ih)
    (fun _ => leaf _ _ rfl) (fun _ _ => leaf _ _ rfl) (fun _ _ => leaf _ _ rfl)
    pipeline named ?_ ?_ ?_ ?_ ?_ ?_ ?_ s
  · intro _ spec ih t ht
    exact Option.some.inj ht ▸ ih
  · intro _ spec _ ih t ht
    exact Option.some.inj ht ▸ ih
  · intro _ t ht
    cases ht
  · intro field hfield
    cases hfield
  · intro field fields ih ihs f hf
    rcases List.mem_cons.1 hf with rfl | hf
    · exact ih
    · exact ihs f hf
  · intro stage hstage
    cases hstage
  · intro stage stages ih ihs s hs
    rcases List.mem_cons.1 hs with rfl | hs
    · exact ih
    · exact ihs s hs

/-! ### The canonical form at a node -/

variable {refer : String → Matcher}

theorem canonical_of_judge {s : Spec} {judge : Value → Except Fault Term}
    (h : s.judge? = some judge) (v : Value) (p : Path) :
    canonical refer s v p = (judge v).mapError (Failure.fault p) := by
  cases s with
  | array | list | object | proplist | pipeline | named => cases h
  | any => cases h; rfl
  | string | number | integer | boolean =>
    cases h
    simp only [canonical, ofKind, judgeKind]
    split <;> rfl
  | member literals =>
    cases h
    simp only [canonical]
    cases literals.find? fun literal => literal.same v.toTerm <;> rfl
  | satisfy predicate description =>
    cases h
    simp only [canonical]
    split <;> rfl
  | convert function description =>
    cases h
    simp only [canonical]
    cases function v.toTerm <;> rfl

theorem canonical_of_element {s element : Spec} (h : s.element? = some element) (v : Value)
    (p : Path) :
    canonical refer s v p =
      match v.elements? with
      | some items => (Matcher.items (canonical refer element) p 0 items).map .list
      | none => .error (.wrongType v s p) := by
  cases s with
  | array | list => cases h; rfl
  | _ => cases h

theorem canonical_of_fields {s : Spec} {fields : List Field} (h : s.fields? = some fields)
    (v : Value) (p : Path) :
    canonical refer s v p =
      match s.entries? v with
      | some entries => (slots refer entries p fields).bind (closeFields fields entries p)
      | none => .error (.wrongType v s p) := by
  cases s with
  | object | proplist => cases h; rfl
  | _ => cases h

theorem canonical_pipeline_cons (stage : Spec) (stages : List Spec) (v : Value) (p : Path) :
    canonical refer (pipeline (stage :: stages)) v p =
      (canonical refer stage v p).bind (through refer p stages) := by
  rw [canonical]

theorem through_cons (stage : Spec) (stages : List Spec) (t : Term) (p : Path) :
    through refer p (stage :: stages) t =
      (canonical refer stage (.native t) p).bind (through refer p stages) := by
  rfl

end Spec

/-! ### Names -/

namespace Definitions

variable {defs : Definitions} {name : String}

theorem refer_of_find? {spec : Spec} (h : defs.find? name = some spec) (bound : Nat) :
    defs.refer (bound + 1) name = spec.canonical (defs.refer bound) := by
  funext v p
  simp only [refer, h]

theorem refer_of_not_find? (h : defs.find? name = none) (bound : Nat) :
    defs.refer (bound + 1) name = fun _ _ => .error (.undefined name) := by
  funext v p
  simp only [refer, h]

/-- Induction over the names that are followed.  A property of the matchers under names holds of
all of them if it holds of both ways to give up, and if it passes from the names in a definition to
the name that is defined. -/
theorem refer_ind {motive : String → Matcher → Prop}
    (endless : ∀ name, motive name fun _ _ => .error .endless)
    (undefined : ∀ name, motive name fun _ _ => .error (.undefined name))
    (defined : ∀ name spec refer, defs.find? name = some spec →
      (∀ name, motive name (refer name)) → motive name (spec.canonical refer)) (bound : Nat) :
    ∀ name, motive name (defs.refer bound name) := by
  induction bound with
  | zero => exact endless
  | succ bound ih =>
    intro name
    cases h : defs.find? name with
    | none =>
      rw [refer_of_not_find? h]
      exact undefined name
    | some spec =>
      rw [refer_of_find? h]
      exact defined name spec _ h ih

end Definitions

/-! ### Rows -/

theorem Matcher.items_eq_mapM (m : Matcher) (p : Path) (vs : List Value) :
    ∀ i, m.items p i vs = (vs.zipIdx i).mapM fun x => m x.1 (p.index x.2) := by
  induction vs with
  | nil => intro i; rfl
  | cons v vs ih =>
    intro i
    rw [List.zipIdx_cons, mapM_cons, ← ih (i + 1)]
    rfl

/-- What one field makes of the entries of its row: the content of its slot, which a rest directive
leaves open. -/
def Field.slot (refer : String → Matcher) (entries : List Entry) (p : Path) :
    Field → Except Failure (Option Term)
  | required key spec =>
    match Entry.first? key entries with
    | some v => (spec.canonical refer v (p.field key)).map some
    | none => .error (.fault p (.missingField key))
  | optional key spec default =>
    match Entry.first? key entries with
    | some v => (spec.canonical refer v (p.field key)).map some
    | none => .ok (some default)
  | rest _ => .ok none

/-- The slot of a declared field whose entry is there holds what a match of the entry yields. -/
theorem Field.slot_of_first? {refer : String → Matcher} {field : Field} {key : String} {spec : Spec}
    (hk : field.key? = some key) (hs : field.spec? = some spec) {entries : List Entry} {v : Value}
    (hv : Entry.first? key entries = some v) (p : Path) :
    field.slot refer entries p = (spec.canonical refer v (p.field key)).map some := by
  cases field with
  | required | optional =>
    cases hk
    cases hs
    simp only [slot, hv]
  | rest => cases hk

/-- A slot stays empty because the field is missing or because its entry does not match. -/
theorem Field.of_slot_eq_error {refer : String → Matcher} {field : Field} {entries : List Entry}
    {p : Path} {f : Failure} (h : field.slot refer entries p = .error f) :
    (∃ key spec, field = .required key spec ∧ Entry.first? key entries = none ∧
        f = .fault p (.missingField key)) ∨
      ∃ key spec v, field.key? = some key ∧ field.spec? = some spec ∧
        Entry.first? key entries = some v ∧ spec.canonical refer v (p.field key) = .error f := by
  cases field with
  | required key spec =>
    cases hv : Entry.first? key entries with
    | none =>
      simp only [slot, hv, Except.error.injEq] at h
      exact Or.inl ⟨key, spec, rfl, hv, h.symm⟩
    | some v =>
      rw [slot_of_first? rfl rfl hv, map_eq_error_iff] at h
      exact Or.inr ⟨key, spec, v, rfl, rfl, hv, h⟩
  | optional key spec default =>
    cases hv : Entry.first? key entries with
    | none => simp only [slot, hv] at h; cases h
    | some v =>
      rw [slot_of_first? rfl rfl hv, map_eq_error_iff] at h
      exact Or.inr ⟨key, spec, v, rfl, rfl, hv, h⟩
  | rest transform => cases h

/-- **Every slot is filled by its own field.** -/
theorem Spec.slots_eq_mapM (refer : String → Matcher) (entries : List Entry) (p : Path)
    (fields : List Field) :
    slots refer entries p fields = fields.mapM (Field.slot refer entries p) := by
  induction fields with
  | nil => rfl
  | cons field fields ih =>
    rw [mapM_cons, ← ih]
    cases field with
    | required key spec =>
      simp only [slots, Field.slot]
      cases Entry.first? key entries with
      | none => rfl
      | some v => rw [map_bind]
    | optional key spec default =>
      simp only [slots, Field.slot]
      cases Entry.first? key entries with
      | none => rfl
      | some v => rw [map_bind]
    | rest transform => rfl

/-- A row of fields whose entries are there fills its slots one after the other, and then closes
them. -/
theorem Spec.canonical_of_entries {refer : String → Matcher} {s : Spec} {fields : List Field}
    (h : s.fields? = some fields) {v : Value} {entries : List Entry}
    (hv : s.entries? v = some entries) (p : Path) :
    s.canonical refer v p =
      (fields.mapM (Field.slot refer entries p)).bind (closeFields fields entries p) := by
  rw [canonical_of_fields h, hv, ← slots_eq_mapM]

/-! ### What the fields leave over -/

/-- The list of pairs that a rest directive captures. -/
def Entry.captured (fields : List Field) (entries : List Entry) : Term :=
  .list ((Entry.residual fields entries).map Entry.pair)

section

variable {fields : List Field} {entries : List Entry} {p : Path} {slots : List (Option Term)}

theorem closeFields_of_rest {transform : Conversion} (h : Field.rest? fields = some transform) :
    closeFields fields entries p slots =
      match transform (Entry.captured fields entries) with
      | .ok t => .ok (.tuple (slots.map fun slot => slot.getD t))
      | .error reason => .error
        (.fault p (.conversionFailed restCapture (Entry.captured fields entries) reason)) := by
  simp only [closeFields, h]
  rfl

theorem closeFields_of_no_rest (h : Field.rest? fields = none) :
    closeFields fields entries p slots =
      if (Entry.residual fields entries).isEmpty then
        .ok (.tuple (slots.map fun slot => slot.getD .null))
      else .error
        (.fault p (.superfluousFields ((Entry.residual fields entries).map Entry.name))) := by
  simp only [closeFields, h]

/-- The last step of a match fails at the rest directive, or because something is left over. -/
theorem of_closeFields_eq_error {f : Failure} (h : closeFields fields entries p slots = .error f) :
    (∃ transform reason, Field.rest? fields = some transform ∧
        transform (Entry.captured fields entries) = .error reason ∧
        f = .fault p (.conversionFailed restCapture (Entry.captured fields entries) reason)) ∨
      Field.rest? fields = none ∧ Entry.residual fields entries ≠ [] ∧
        f = .fault p (.superfluousFields ((Entry.residual fields entries).map Entry.name)) := by
  cases hr : Field.rest? fields with
  | some transform =>
    rw [closeFields_of_rest hr] at h
    cases ht : transform (Entry.captured fields entries) with
    | ok t => rw [ht] at h; cases h
    | error reason =>
      rw [ht] at h
      exact Or.inl ⟨transform, reason, rfl, ht, (Except.error.inj h).symm⟩
  | none =>
    rw [closeFields_of_no_rest hr] at h
    split at h
    · cases h
    · rename_i hne
      exact Or.inr ⟨rfl, fun he => hne (List.isEmpty_iff.2 he), (Except.error.inj h).symm⟩

end

end Conform
