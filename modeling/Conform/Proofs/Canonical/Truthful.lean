import Conform.Proofs.Fields.Leftover
import Conform.Proofs.Fields.Sound
import Conform.Proofs.Spec.Parts

/-!
# Mismatches tell the truth

A mismatch has a path and a fault.  The path is walked through the views of the value,
`Value.walk?`, and through the parts of the specification, `Spec.Leads`; what it leads to are a node
and the part of the specification that the node was matched against.  `Fault.Describes` says of a
fault that it is true of these two.

`canonical_truthful` proves this of every mismatch of a match without stages after the first.  A
later stage judges the output of the one before it, which is not a part of the value.
-/

namespace Conform

/-! ### Walks -/

namespace Value

/-- The entries of a mapping or a proplist. -/
def entries? (v : Value) : Option (List Entry) := v.mapping?.or v.proplist?

/-- The child of a value that a step leads to: the element of an index, or the first entry of a
name. -/
def step? : Segment → Value → Option Value
  | .index i, v => v.elements?.bind fun items => items[i]?
  | .field name, v => v.entries?.bind (Entry.first? name)

/-- The node of a value that a path leads to. -/
def walk? : Path → Value → Option Value
  | [], v => some v
  | s :: q, v => (v.step? s).bind (walk? q)

/-- A mapping is no proplist. -/
theorem mapping?_eq_none_of_proplist? {v : Value} {entries : List Entry}
    (h : v.proplist? = some entries) : v.mapping? = none := by
  cases v with
  | document d => cases h
  | native t =>
    rw [eq_list_of_proplist? h]
    rfl

end Value

theorem Spec.entries?_eq {s : Spec} {v : Value} {entries : List Entry}
    (h : s.entries? v = some entries) : v.entries? = some entries := by
  cases s with
  | object fields =>
    have hm : v.mapping? = some entries := h
    rw [Value.entries?, hm, Option.some_or]
  | proplist fields =>
    have hp : v.proplist? = some entries := h
    rw [Value.entries?, Value.mapping?_eq_none_of_proplist? hp, Option.none_or, hp]
  | _ => cases h

/-! ### True faults -/

/-- The fault is true of a node that was matched against a specification. -/
def Fault.Describes (s : Spec) (n : Value) : Fault → Prop
  | wrongType value actual expected => value = n.toTerm ∧ actual = n.kind ∧ expected = s.label
  | missingField key =>
    ∃ entries, n.entries? = some entries ∧ (∀ e ∈ entries, e.name ≠ key) ∧
      ∃ fields spec, s.fields? = some fields ∧ .required key spec ∈ fields
  | superfluousFields names =>
    names ≠ [] ∧ names.Pairwise (· < ·) ∧
      ∃ entries fields, n.entries? = some entries ∧ s.fields? = some fields ∧
        ∀ name ∈ names, (∃ e ∈ entries, e.name = name) ∧ Field.declares fields name = false
  | constraintNotSatisfied description value =>
    value = n.toTerm ∧ ∃ predicate, s = .satisfy predicate description ∧ predicate value = false
  | conversionFailed description value reason =>
    (value = n.toTerm ∧
        ∃ function, s = .convert function description ∧ function value = .error reason) ∨
      description = restCapture ∧
        ∃ entries fields es transform, n.entries? = some entries ∧ s.fields? = some fields ∧
          Entry.Leftover fields entries es ∧ value = .list (es.map Entry.pair) ∧
          .rest transform ∈ fields ∧ transform value = .error reason

/-- The mismatch is true of a value that was matched against a specification at a path: its path
leads on from there to a node that its fault describes. -/
def Mismatch.TrueOf (defs : Definitions) (s : Spec) (v : Value) (p : Path) (m : Mismatch) : Prop :=
  ∃ q t n, m.path = p ++ q ∧ v.walk? q = some n ∧ s.Leads defs q t ∧ m.fault.Describes t n

namespace Mismatch.TrueOf

variable {defs : Definitions} {s : Spec} {v : Value} {p : Path} {m : Mismatch}

theorem here {f : Fault} (h : f.Describes s v) : TrueOf defs s v p { path := p, fault := f } :=
  ⟨[], s, v, (List.append_nil p).symm, rfl, .here s, h⟩

theorem element {element : Spec} (hs : s.element? = some element) {items : List Value}
    (hv : v.elements? = some items) {i : Nat} {w : Value} (hw : items[i]? = some w)
    (h : TrueOf defs element w (p.index i) m) : TrueOf defs s v p m := by
  obtain ⟨q, t, n, hpath, hwalk, hleads, hdesc⟩ := h
  refine ⟨.index i :: q, t, n, ?_, ?_, .element hs hleads, hdesc⟩
  · rw [hpath, Path.index, Path.child, List.append_assoc]
    rfl
  · simp only [Value.walk?, Value.step?, hv, Option.bind_some, hw, hwalk]

theorem field {fields : List Field} (hs : s.fields? = some fields) {field : Field}
    (hf : field ∈ fields) {key : String} (hk : field.key? = some key) {spec : Spec}
    (hspec : field.spec? = some spec) {entries : List Entry} (hv : v.entries? = some entries)
    {w : Value} (hw : Entry.first? key entries = some w)
    (h : TrueOf defs spec w (p.field key) m) : TrueOf defs s v p m := by
  obtain ⟨q, t, n, hpath, hwalk, hleads, hdesc⟩ := h
  refine ⟨.field key :: q, t, n, ?_, ?_, .field hs hf hk hspec hleads, hdesc⟩
  · rw [hpath, Path.field, Path.child, List.append_assoc]
    rfl
  · simp only [Value.walk?, Value.step?, hv, Option.bind_some, hw, hwalk]

theorem stage {stages : List Spec} {stage : Spec} (hs : stage ∈ stages)
    (h : TrueOf defs stage v p m) : TrueOf defs (.pipeline stages) v p m := by
  obtain ⟨q, t, n, hpath, hwalk, hleads, hdesc⟩ := h
  exact ⟨q, t, n, hpath, hwalk, .stage hs hleads, hdesc⟩

theorem name {name : String} (hs : defs.find? name = some s) (h : TrueOf defs s v p m) :
    TrueOf defs (.named name) v p m := by
  obtain ⟨q, t, n, hpath, hwalk, hleads, hdesc⟩ := h
  exact ⟨q, t, n, hpath, hwalk, .name hs hleads, hdesc⟩

end Mismatch.TrueOf

/-! ### One node -/

namespace Spec

variable {defs : Definitions} {refer : String → Matcher} {s : Spec} {v : Value}

theorem describes_wrongType (s : Spec) (v : Value) :
    (Fault.wrongType v.toTerm v.kind s.label).Describes s v :=
  ⟨rfl, rfl, rfl⟩

/-- The fault of a leaf is true of the value. -/
theorem describes_of_judge {judge : Value → Except Fault Term} (h : s.judge? = some judge)
    {f : Fault} (hf : judge v = .error f) : f.Describes s v := by
  cases s with
  | array | list | object | proplist | pipeline | named => cases h
  | any => cases h; cases hf
  | string | number | integer | boolean =>
    cases h
    simp only [judgeKind] at hf
    split at hf
    · cases hf
    · exact Except.error.inj hf ▸ describes_wrongType _ v
  | member literals =>
    cases h
    dsimp only at hf
    split at hf
    · cases hf
    · exact Except.error.inj hf ▸ describes_wrongType _ v
  | satisfy predicate description =>
    cases h
    dsimp only at hf
    split at hf
    · cases hf
    · rename_i hp
      exact Except.error.inj hf ▸ ⟨rfl, predicate, rfl, Bool.eq_false_iff.2 hp⟩
  | convert function description =>
    cases h
    dsimp only at hf
    split at hf
    · cases hf
    · rename_i reason hr
      exact Except.error.inj hf ▸ Or.inl ⟨rfl, function, rfl, hr⟩

/-- The fault of what is left over is true of the entries. -/
theorem trueOf_of_closeFields {fields : List Field} (hs : s.fields? = some fields)
    {entries : List Entry} (hv : v.entries? = some entries) {p : Path} {slots : List (Option Term)}
    {m : Mismatch} (h : closeFields fields entries p slots = .error (.mismatch m)) :
    m.TrueOf defs s v p := by
  have hres := Entry.leftover_residual fields entries
  rcases of_closeFields_eq_error h with ⟨transform, reason, hr, ht, hm⟩ | ⟨_, hne, hm⟩
  · cases hm
    exact .here (Or.inr ⟨rfl, entries, fields, _, transform, hv, hs, hres, rfl,
      Field.mem_of_rest?_eq hr, ht⟩)
  · cases hm
    refine .here ⟨by simpa using hne, List.pairwise_map.2 hres.ascending, entries, fields, hv, hs,
      fun name hname => ?_⟩
    obtain ⟨e, he, rfl⟩ := List.mem_map.1 hname
    obtain ⟨hdecl, hfind⟩ := (hres.mem_iff e).1 he
    exact ⟨⟨e, List.mem_of_find?_eq_some hfind, rfl⟩, hdecl⟩

theorem first?_eq_none {key : String} {entries : List Entry} (h : Entry.first? key entries = none) :
    ∀ e ∈ entries, e.name ≠ key := by
  intro e he hname
  rw [Entry.first?, Option.map_eq_none_iff, List.find?_eq_none] at h
  exact h e he (beq_iff_eq.2 hname)

/-- **Every mismatch is true**, if those under names are and no pipeline has a second stage. -/
theorem canonical_truthful
    (hr : ∀ name v p m, refer name v p = .error (.mismatch m) → m.TrueOf defs (named name) v p)
    (s : Spec) : s.SingleStaged → ∀ v p m, s.canonical refer v p = .error (.mismatch m) →
      m.TrueOf defs s v p := by
  induction s using Spec.ind with
  | leaf s judge h =>
    intro _ v p m hm
    rw [canonical_of_judge h] at hm
    cases hj : judge v with
    | ok t => rw [hj] at hm; cases hm
    | error f =>
      rw [hj] at hm
      cases hm
      exact .here (describes_of_judge h hj)
  | sequence s element h ih =>
    intro hs v p m hm
    rw [canonical_of_element h] at hm
    cases hv : v.elements? with
    | none =>
      rw [hv] at hm
      cases hm
      exact .here (describes_wrongType s v)
    | some items =>
      simp only [hv, map_eq_error_iff, Matcher.items_eq_mapM] at hm
      obtain ⟨⟨w, i⟩, hmem, hw⟩ := Failure.exists_of_mapM_eq_error hm
      exact .element h hv (List.mem_zipIdx_iff_getElem?.1 hmem)
        (ih (hs.element h) w (p.index i) m hw)
  | row s fields h ih =>
    intro hs v p m hm
    rw [canonical_of_fields h] at hm
    cases hv : s.entries? v with
    | none =>
      rw [hv] at hm
      cases hm
      exact .here (describes_wrongType s v)
    | some entries =>
      have hentries := Spec.entries?_eq hv
      simp only [hv, bind_eq_error_iff, slots_eq_mapM] at hm
      rcases hm with hm | ⟨slots, _, hm⟩
      · obtain ⟨field, hf, hslot⟩ := Failure.exists_of_mapM_eq_error hm
        rcases Field.of_slot_eq_error hslot with
          ⟨key, spec, rfl, hnone, hm⟩ | ⟨key, spec, w, hk, hspec, hw, hm⟩
        · cases hm
          exact .here ⟨entries, hentries, first?_eq_none hnone, fields, spec, h, hf⟩
        · exact .field h hf hk hspec hentries hw
            (ih field hf spec hspec (hs.field h hf hspec) w (p.field key) m hm)
      · exact trueOf_of_closeFields h hentries hm
  | pipeline stages ih =>
    intro hs v p m hm
    cases stages with
    | nil => rw [canonical] at hm; cases hm
    | cons stage stages =>
      obtain rfl := hs.stages_eq
      rw [canonical_pipeline_cons, bind_eq_error_iff] at hm
      rcases hm with hm | ⟨t, _, hm⟩
      · exact .stage List.mem_cons_self
          (ih stage List.mem_cons_self (hs.stage List.mem_cons_self) v p m hm)
      · rw [through] at hm
        cases hm
  | named name =>
    intro _ v p m hm
    exact hr name v p m hm

end Spec

namespace Definitions

theorem refer_truthful {defs : Definitions} (hdefs : ∀ d ∈ defs, d.2.SingleStaged) (bound : Nat) :
    ∀ name v p m, defs.refer bound name v p = .error (.mismatch m) →
      m.TrueOf defs (.named name) v p := by
  refine refer_ind (motive := fun name matcher => ∀ v p m, matcher v p = .error (.mismatch m) →
    m.TrueOf defs (.named name) v p) ?_ ?_ ?_ bound
  · intro name v p m hm
    cases hm
  · intro name v p m hm
    cases hm
  · intro name spec refer hs ih v p m hm
    obtain ⟨d, hd, rfl⟩ := mem_of_find? hs
    exact .name hs (Spec.canonical_truthful ih d.2 (hdefs d hd) v p m hm)

/-- **Mismatches tell the truth.**  If no pipeline has a second stage, the path of a mismatch leads
from the value to a node, along the specification to what the node was matched against, and the
fault is true of the two. -/
theorem mismatch_truthful {defs : Definitions} (hdefs : ∀ d ∈ defs, d.2.SingleStaged) {spec : Spec}
    (hspec : spec.SingleStaged) {bound : Nat} {v : Value} {m : Mismatch}
    (h : defs.matching bound spec v Path.root = .error (.mismatch m)) :
    ∃ part node, v.walk? m.path = some node ∧ spec.Leads defs m.path part ∧
      m.fault.Describes part node := by
  obtain ⟨q, part, node, hpath, hwalk, hleads, hdesc⟩ :=
    Spec.canonical_truthful (refer_truthful hdefs bound) spec hspec v Path.root m h
  rw [hpath]
  exact ⟨part, node, hwalk, hleads, hdesc⟩

/-- The second element of the first of two entries of one name. -/
theorem mismatch_truthful_of_repeated_key :
    let defs : Definitions := [("count", .pipeline [.integer])]
    let spec : Spec := .object [.required "a" (.array (.named "count"))]
    let v : Value := .native (.map [("a", .list [.int 1, .str "x"]), ("a", .null)])
    let m : Mismatch := ⟨[.field "a", .index 1], .wrongType (.str "x") .string Spec.integer.label⟩
    (∀ d ∈ defs, d.2.SingleStaged) ∧ spec.SingleStaged ∧
      defs.matching 1 spec v Path.root = .error (.mismatch m) ∧
      ∃ part node, v.walk? m.path = some node ∧ spec.Leads defs m.path part ∧
        m.fault.Describes part node := by
  intro defs spec v m
  have hdefs : ∀ d ∈ defs, d.2.SingleStaged := by
    intro d hd stages hw
    obtain rfl := List.mem_singleton.1 hd
    rcases hw with _ | h | h | ⟨hs, hw⟩
    · exact Nat.le_refl 1
    · cases h
    · cases h
    · obtain rfl := List.mem_singleton.1 hs
      rcases hw with _ | h | h
      · cases h
      · cases h
  have hspec : (Spec.object [.required "a" (.array (.named "count"))]).SingleStaged := by
    intro stages hw
    rcases hw with _ | h | ⟨h, hf, hs, hw⟩
    · cases h
    · cases h
      obtain rfl := List.mem_singleton.1 hf
      cases hs
      rcases hw with _ | ⟨h, hw⟩ | h
      · cases h
        rcases hw with _ | h | h
        · cases h
        · cases h
      · cases h
  have hrun : defs.matching 1 spec v Path.root = .error (.mismatch m) := by rfl
  exact ⟨hdefs, hspec, hrun, mismatch_truthful hdefs hspec hrun⟩

end Definitions

end Conform
