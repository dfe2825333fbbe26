import Conform.Proofs.Fields.Leftover
import Conform.Proofs.Spec.Names

/-!
# All defects of a value

`Spec.canonical` stops at the first fault.  `Spec.defects` goes on and lists every failure there is,
in the order of the walk.

* A leaf that fails has one defect, its fault at the path of the value.
* A sequence has the defects of its elements, by ascending index.
* A row of fields has the defects of its fields in the order in which they are declared, a missing
  field at the path of the row.  What the fields leave over, `Entry.leftover`, is looked at only if
  none has a defect.
* A pipeline has the defects of its first stage that has any.

`head_defects` joins the two: **the failure of a match is the head of the list**, and a match
succeeds exactly when the list is empty.
-/

namespace Conform

/-- A way to list what is wrong with values, at their paths. -/
abbrev Checker := Value → Path → List Failure

/-- Everything that is wrong with elements, by ascending index. -/
def Checker.items (c : Checker) (p : Path) (vs : List Value) : List Failure :=
  vs.zipIdx.flatMap fun x => c x.1 (p.index x.2)

/-- What is wrong with the entries that a row of fields leaves over. -/
def leftoverDefects (fields : List Field) (entries : List Entry) (p : Path) : List Failure :=
  let left := Entry.leftover fields entries
  match Field.rest? fields with
  | some transform =>
    let captured := Term.list (left.map Entry.pair)
    match transform captured with
    | .ok _ => []
    | .error reason => [.fault p (.conversionFailed restCapture captured reason)]
  | none => if left.isEmpty then [] else [.fault p (.superfluousFields (left.map Entry.name))]

/-- The defects of a stage, or, if it has none, those of its output. -/
def stageThen (ds : List Failure) (output : Outcome) (next : Term → List Failure) : List Failure :=
  match ds, output with
  | [], .ok t => next t
  | ds, _ => ds

namespace Spec

/-- The defect of a value whose kind is not accepted. -/
def kindDefects (accepts : Kind → Bool) (spec : Spec) (v : Value) (p : Path) : List Failure :=
  if accepts v.kind then [] else [.wrongType v spec p]

mutual

/-- Everything that is wrong with a value at a path, given what a match against a name yields and
everything that is wrong with a value under a name. -/
def defects (refer : String → Matcher) (report : String → Checker) : Spec → Checker
  | any, _, _ => []
  | string, v, p => kindDefects (· == .string) string v p
  | number, v, p => kindDefects Kind.isNumeric number v p
  | integer, v, p => kindDefects (· == .integer) integer v p
  | boolean, v, p => kindDefects (· == .boolean) boolean v p
  | array element, v, p =>
    match v.elements? with
    | some items => Checker.items (defects refer report element) p items
    | none => [.wrongType v (array element) p]
  | list element, v, p =>
    match v.elements? with
    | some items => Checker.items (defects refer report element) p items
    | none => [.wrongType v (list element) p]
  | object fields, v, p =>
    match v.mapping? with
    | some entries =>
      let ds := fieldDefects refer report entries p fields
      if ds.isEmpty then leftoverDefects fields entries p else ds
    | none => [.wrongType v (object fields) p]
  | proplist fields, v, p =>
    match v.proplist? with
    | some entries =>
      let ds := fieldDefects refer report entries p fields
      if ds.isEmpty then leftoverDefects fields entries p else ds
    | none => [.wrongType v (proplist fields) p]
  | member literals, v, p =>
    if literals.any fun literal => literal.same v.toTerm then []
    else [.wrongType v (member literals) p]
  | satisfy predicate description, v, p =>
    if predicate v.toTerm then [] else [.fault p (.constraintNotSatisfied description v.toTerm)]
  | convert function description, v, p =>
    match function v.toTerm with
    | .ok _ => []
    | .error reason => [.fault p (.conversionFailed description v.toTerm reason)]
  | pipeline [], _, _ => []
  | pipeline (stage :: stages), v, p =>
    stageThen (defects refer report stage v p) (canonical refer stage v p) fun t =>
      stageDefects refer report p stages t
  | named name, v, p => report name v p

/-- Everything that is wrong with the entries that the fields of a row declare. -/
def fieldDefects (refer : String → Matcher) (report : String → Checker) (entries : List Entry)
    (p : Path) : List Field → List Failure
  | [] => []
  | .required key spec :: fields =>
    (match Entry.first? key entries with
      | some v => defects refer report spec v (p.field key)
      | none => [.fault p (.missingField key)]) ++ fieldDefects refer report entries p fields
  | .optional key spec _ :: fields =>
    (match Entry.first? key entries with
      | some v => defects refer report spec v (p.field key)
      | none => []) ++ fieldDefects refer report entries p fields
  | .rest _ :: fields => fieldDefects refer report entries p fields

/-- Everything that is wrong with a term that goes through the stages of a pipeline. -/
def stageDefects (refer : String → Matcher) (report : String → Checker) (p : Path) :
    List Spec → Term → List Failure
  | [], _ => []
  | stage :: stages, t =>
    stageThen (defects refer report stage (.native t) p) (canonical refer stage (.native t) p)
      fun u => stageDefects refer report p stages u

end

/-! ### The defects at a node -/

variable {refer : String → Matcher} {report : String → Checker}

theorem defects_of_judge {s : Spec} {judge : Value → Except Fault Term}
    (h : s.judge? = some judge) (v : Value) (p : Path) :
    defects refer report s v p = (Failure.of? ((judge v).mapError (Failure.fault p))).toList := by
  cases s with
  | array | list | object | proplist | pipeline | named => cases h
  | any => cases h; rfl
  | string | number | integer | boolean =>
    cases h
    simp only [defects, kindDefects, judgeKind]
    split <;> rfl
  | member literals =>
    cases h
    simp only [defects, List.any_eq_true, ← List.find?_isSome]
    cases literals.find? fun literal => literal.same v.toTerm <;> rfl
  | satisfy predicate description =>
    cases h
    simp only [defects]
    split <;> rfl
  | convert function description =>
    cases h
    simp only [defects]
    cases function v.toTerm <;> rfl

theorem defects_of_element {s element : Spec} (h : s.element? = some element) (v : Value)
    (p : Path) :
    defects refer report s v p =
      match v.elements? with
      | some items => Checker.items (defects refer report element) p items
      | none => [.wrongType v s p] := by
  cases s with
  | array | list => cases h; rfl
  | _ => cases h

theorem defects_of_fields {s : Spec} {fields : List Field} (h : s.fields? = some fields) (v : Value)
    (p : Path) :
    defects refer report s v p =
      match s.entries? v with
      | some entries =>
        if (fieldDefects refer report entries p fields).isEmpty then
          leftoverDefects fields entries p
        else fieldDefects refer report entries p fields
      | none => [.wrongType v s p] := by
  cases s with
  | object | proplist => cases h; rfl
  | _ => cases h

end Spec

/-- What is wrong with the entry that one field declares. -/
def Field.defects (refer : String → Matcher) (report : String → Checker) (entries : List Entry)
    (p : Path) : Field → List Failure
  | required key spec =>
    match Entry.first? key entries with
    | some v => spec.defects refer report v (p.field key)
    | none => [.fault p (.missingField key)]
  | optional key spec _ =>
    match Entry.first? key entries with
    | some v => spec.defects refer report v (p.field key)
    | none => []
  | rest _ => []

theorem Spec.fieldDefects_eq_flatMap (refer : String → Matcher) (report : String → Checker)
    (entries : List Entry) (p : Path) (fields : List Field) :
    fieldDefects refer report entries p fields =
      fields.flatMap (Field.defects refer report entries p) := by
  induction fields with
  | nil => rfl
  | cons field fields ih =>
    rw [List.flatMap_cons, ← ih]
    cases field <;> rfl

/-! ### The first defect -/

theorem head_leftoverDefects (fields : List Field) (entries : List Entry) (p : Path)
    (slots : List (Option Term)) :
    (leftoverDefects fields entries p).head? =
      Failure.of? (closeFields fields entries p slots) := by
  cases h : Field.rest? fields with
  | some transform =>
    have hcaptured : Term.list ((Entry.residual fields entries).map Entry.pair) =
        Entry.captured fields entries := rfl
    rw [closeFields_of_rest h]
    simp only [leftoverDefects, h, Entry.leftover_eq_residual, hcaptured]
    cases transform (Entry.captured fields entries) <;> rfl
  | none =>
    rw [closeFields_of_no_rest h]
    simp only [leftoverDefects, h, Entry.leftover_eq_residual]
    split <;> rfl

theorem head_isEmpty_or (ds rest : List Failure) :
    (if ds.isEmpty then rest else ds).head? = ds.head?.or rest.head? := by
  cases ds <;> rfl

/-- A stage hands on exactly if it has no defects. -/
theorem head_stageThen {ds : List Failure} {x : Outcome} (h : ds.head? = Failure.of? x)
    {next : Term → List Failure} {go : Term → Outcome}
    (hn : ∀ t, (next t).head? = Failure.of? (go t)) :
    (stageThen ds x next).head? = Failure.of? (x.bind go) := by
  cases x with
  | ok t =>
    rw [List.head?_eq_none_iff.1 h]
    exact hn t
  | error f =>
    cases ds with
    | nil => cases h
    | cons d ds => exact h

theorem Matcher.head_items {m : Matcher} {c : Checker}
    (h : ∀ v p, (c v p).head? = Failure.of? (m v p)) (p : Path) (vs : List Value) :
    (c.items p vs).head? = Failure.of? (m.items p 0 vs) := by
  rw [Checker.items, List.head?_flatMap, m.items_eq_mapM, Failure.of?_mapM]
  simp only [h]

theorem Field.head_defects {refer : String → Matcher} {report : String → Checker} {field : Field}
    (h : ∀ spec, field.spec? = some spec → ∀ v p,
      (spec.defects refer report v p).head? = Failure.of? (spec.canonical refer v p))
    (entries : List Entry) (p : Path) :
    (field.defects refer report entries p).head? = Failure.of? (field.slot refer entries p) := by
  cases field with
  | required key spec =>
    simp only [Field.defects, Field.slot]
    cases Entry.first? key entries with
    | none => rfl
    | some v => exact (h spec rfl v _).trans (Failure.of?_map _ _).symm
  | optional key spec default =>
    simp only [Field.defects, Field.slot]
    cases Entry.first? key entries with
    | none => rfl
    | some v => exact (h spec rfl v _).trans (Failure.of?_map _ _).symm
  | rest transform => rfl

namespace Spec

variable {refer : String → Matcher} {report : String → Checker}

theorem head_stageDefects {stages : List Spec}
    (h : ∀ stage ∈ stages, ∀ v p,
      (stage.defects refer report v p).head? = Failure.of? (stage.canonical refer v p)) (p : Path) :
    ∀ t, (stageDefects refer report p stages t).head? = Failure.of? (through refer p stages t) := by
  induction stages with
  | nil => intro t; rfl
  | cons stage stages ih =>
    intro t
    rw [stageDefects, through_cons]
    exact head_stageThen (h stage List.mem_cons_self _ p)
      (ih fun s hs => h s (List.mem_cons_of_mem stage hs))

/-- **The failure of a match is its first defect**, if that is so for names. -/
theorem head_defects
    (hr : ∀ name v p, (report name v p).head? = Failure.of? (refer name v p)) (s : Spec) :
    ∀ v p, (s.defects refer report v p).head? = Failure.of? (s.canonical refer v p) := by
  induction s using Spec.ind with
  | leaf s judge h =>
    intro v p
    rw [defects_of_judge h, canonical_of_judge h]
    cases judge v <;> rfl
  | sequence s element h ih =>
    intro v p
    rw [defects_of_element h, canonical_of_element h]
    cases v.elements? with
    | none => rfl
    | some items => exact (Matcher.head_items ih p items).trans (Failure.of?_map _ _).symm
  | row s fields h ih =>
    intro v p
    rw [defects_of_fields h, canonical_of_fields h]
    cases s.entries? v with
    | none => rfl
    | some entries =>
      have hslots : (fieldDefects refer report entries p fields).head? =
          Failure.of? (slots refer entries p fields) := by
        rw [fieldDefects_eq_flatMap, List.head?_flatMap, slots_eq_mapM, Failure.of?_mapM]
        exact findSome_congr fun field hf => Field.head_defects (ih field hf) entries p
      rw [head_isEmpty_or, hslots]
      exact (Failure.of?_bind
        (fun slots => (head_leftoverDefects fields entries p slots).symm) _).symm
  | pipeline stages ih =>
    intro v p
    cases stages with
    | nil => rfl
    | cons stage stages =>
      rw [defects, canonical_pipeline_cons]
      exact head_stageThen (ih stage List.mem_cons_self v p)
        (head_stageDefects (fun s hs => ih s (List.mem_cons_of_mem stage hs)) p)
  | named name => exact hr name

end Spec

/-! ### Names -/

namespace Definitions

/-- Everything that is wrong with a value under a name, which may lead on to at most `bound` names
in a row. -/
def report (defs : Definitions) : Nat → String → Checker
  | 0, _, _, _ => [.endless]
  | bound + 1, name, v, p =>
    match find? defs name with
    | some spec => spec.defects (refer defs bound) (report defs bound) v p
    | none => [.undefined name]

/-- Everything that is wrong with a value, when at most `bound` names are followed in a row. -/
def defects (defs : Definitions) (bound : Nat) (spec : Spec) : Checker :=
  spec.defects (defs.refer bound) (defs.report bound)

theorem head_report (defs : Definitions) : ∀ bound name v p,
    (defs.report bound name v p).head? = Failure.of? (defs.refer bound name v p) := by
  intro bound
  induction bound with
  | zero => intro name v p; rfl
  | succ bound ih =>
    intro name v p
    simp only [report, refer]
    cases find? defs name with
    | none => rfl
    | some spec => exact Spec.head_defects ih spec v p

end Definitions

/-! ### Defects of the value -/

/-- The failure is a mismatch of the value, and not one of following names. -/
def Failure.IsMismatch (f : Failure) : Prop := ∃ m, f = .mismatch m

theorem Failure.isMismatch_fault (p : Path) (f : Fault) : (fault p f).IsMismatch := ⟨_, rfl⟩

theorem isMismatch_of_mem_leftoverDefects {fields : List Field} {entries : List Entry} {p : Path}
    {f : Failure} (h : f ∈ leftoverDefects fields entries p) : f.IsMismatch := by
  simp only [leftoverDefects] at h
  split at h
  · split at h
    · cases h
    · exact List.mem_singleton.1 h ▸ Failure.isMismatch_fault _ _
  · split at h
    · cases h
    · exact List.mem_singleton.1 h ▸ Failure.isMismatch_fault _ _

theorem mem_stageThen {ds : List Failure} {x : Outcome} {next : Term → List Failure} {f : Failure}
    (h : f ∈ stageThen ds x next) : f ∈ ds ∨ ∃ t, f ∈ next t := by
  unfold stageThen at h
  split at h
  · exact Or.inr ⟨_, h⟩
  · exact Or.inl h

theorem Field.mem_defects {refer : String → Matcher} {report : String → Checker}
    {entries : List Entry} {p : Path} {field : Field} {f : Failure}
    (h : f ∈ field.defects refer report entries p) :
    f.IsMismatch ∨ ∃ spec v q, field.spec? = some spec ∧ f ∈ spec.defects refer report v q := by
  cases field with
  | required key spec =>
    simp only [Field.defects] at h
    split at h
    · exact Or.inr ⟨spec, _, _, rfl, h⟩
    · exact Or.inl (List.mem_singleton.1 h ▸ Failure.isMismatch_fault _ _)
  | optional key spec default =>
    simp only [Field.defects] at h
    split at h
    · exact Or.inr ⟨spec, _, _, rfl, h⟩
    · cases h
  | rest transform => cases h

namespace Spec

variable {refer : String → Matcher} {report : String → Checker}

theorem isMismatch_of_mem_stageDefects {stages : List Spec}
    (h : ∀ stage ∈ stages, ∀ v p, ∀ f ∈ stage.defects refer report v p, f.IsMismatch) (p : Path) :
    ∀ t, ∀ f ∈ stageDefects refer report p stages t, f.IsMismatch := by
  induction stages with
  | nil => intro t f hf; rw [stageDefects] at hf; cases hf
  | cons stage stages ih =>
    intro t f hf
    rw [stageDefects] at hf
    rcases mem_stageThen hf with hf | ⟨u, hf⟩
    · exact h stage List.mem_cons_self _ p f hf
    · exact ih (fun s hs => h s (List.mem_cons_of_mem stage hs)) u f hf

/-- If only mismatches come from the names in a specification, only mismatches come from it. -/
theorem isMismatch_of_mem_defects (s : Spec) :
    (∀ name ∈ s.names, ∀ v p, ∀ f ∈ report name v p, f.IsMismatch) →
      ∀ v p, ∀ f ∈ s.defects refer report v p, f.IsMismatch := by
  induction s using Spec.ind with
  | leaf s judge h =>
    intro _ v p f hf
    rw [defects_of_judge h] at hf
    cases hj : judge v with
    | ok t => rw [hj] at hf; cases hf
    | error fault =>
      rw [hj] at hf
      exact List.mem_singleton.1 hf ▸ Failure.isMismatch_fault p fault
  | sequence s element h ih =>
    intro hn v p f hf
    rw [names_of_element h] at hn
    rw [defects_of_element h] at hf
    split at hf
    · obtain ⟨x, _, hx⟩ := List.mem_flatMap.1 hf
      exact ih hn _ _ f hx
    · exact List.mem_singleton.1 hf ▸ Failure.isMismatch_fault _ _
  | row s fields h ih =>
    intro hn v p f hf
    rw [names_of_fields h] at hn
    rw [defects_of_fields h] at hf
    split at hf
    · split at hf
      · exact isMismatch_of_mem_leftoverDefects hf
      · rw [fieldDefects_eq_flatMap] at hf
        obtain ⟨field, hfield, hf⟩ := List.mem_flatMap.1 hf
        rcases Field.mem_defects hf with hf | ⟨spec, w, q, hs, hf⟩
        · exact hf
        · exact ih field hfield spec hs
            (fun name hname => hn name (names_subset_fieldNames hfield hs hname)) w q f hf
    · exact List.mem_singleton.1 hf ▸ Failure.isMismatch_fault _ _
  | pipeline stages ih =>
    intro hn v p f hf
    rw [names] at hn
    have hstages : ∀ stage ∈ stages, ∀ v p, ∀ f ∈ stage.defects refer report v p, f.IsMismatch :=
      fun stage hs => ih stage hs fun name hname => hn name (names_subset_stageNames hs hname)
    cases stages with
    | nil => rw [defects] at hf; cases hf
    | cons stage stages =>
      rw [defects] at hf
      rcases mem_stageThen hf with hf | ⟨t, hf⟩
      · exact hstages stage List.mem_cons_self v p f hf
      · exact isMismatch_of_mem_stageDefects
          (fun s hs => hstages s (List.mem_cons_of_mem stage hs)) p t f hf
  | named name =>
    intro hn v p f hf
    exact hn name (by simp [names]) v p f hf

end Spec

namespace Definitions

/-- A specification whose names unfold has no defects but mismatches. -/
theorem Unfolds.isMismatch {defs : Definitions} :
    ∀ {bound : Nat} {spec : Spec}, defs.Unfolds bound spec →
      ∀ v p, ∀ f ∈ defs.defects bound spec v p, f.IsMismatch := by
  intro bound
  induction bound with
  | zero =>
    intro spec h
    refine Spec.isMismatch_of_mem_defects spec fun name hname => ?_
    rw [Unfolds] at h
    rw [h] at hname
    cases hname
  | succ bound ih =>
    intro spec h
    refine Spec.isMismatch_of_mem_defects spec fun name hname v p f hf => ?_
    obtain ⟨meaning, hm, hu⟩ := h name hname
    simp only [report, hm] at hf
    exact ih hu v p f hf

/-- If the names of a specification unfold, a match fails only because of the value. -/
theorem Unfolds.isMismatch_of_eq_error {defs : Definitions} {bound : Nat} {spec : Spec}
    (h : defs.Unfolds bound spec) {v : Value} {p : Path} {f : Failure}
    (hf : defs.matching bound spec v p = .error f) : f.IsMismatch := by
  have hhead : (defs.defects bound spec v p).head? = Failure.of? (defs.matching bound spec v p) :=
    Spec.head_defects (defs.head_report bound) spec v p
  rw [hf, Failure.of?_error] at hhead
  exact h.isMismatch v p f (List.mem_of_mem_head? hhead)

end Definitions

end Conform
