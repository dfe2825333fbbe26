import Conform.Proofs.Canonical.Nodes
import Conform.Proofs.Fields.Leftover

/-!
# Documents and their native forms

A document and its native form are matched in lockstep.  They differ in two places only: the kind of
an array is `array` in the one and `list` in the other, and an empty array is an empty proplist in
native form but never a proplist as a document.

* `Follows` relates what the two matches yield, and is kept by every step of a match:
  `Follows.bind`, `Follows.mapM`.
* `canonical_follows` is the simulation; after the first stage of a pipeline both sides are the same
  native match.
-/

namespace Conform

/-! ### Related outcomes -/

namespace Failure

/-- Failures that differ at most in that the one calls an array what the other calls a list. -/
inductive Alike : Failure → Failure → Prop
  | same (f : Failure) : Alike f f
  | sequence (p : Path) (value : Term) (expected : String) :
    Alike (fault p (.wrongType value .array expected)) (fault p (.wrongType value .list expected))

end Failure

/-- What a document yields compared to what its native form yields: the same result, failures that
are alike, or anything if an empty array was no proplist. -/
inductive Follows {α : Type} : Except Failure α → Except Failure α → Prop
  | ok (a : α) : Follows (.ok a) (.ok a)
  | alike {f g : Failure} (h : f.Alike g) : Follows (.error f) (.error g)
  | emptyArray (p : Path) (y : Except Failure α) :
    Follows (.error (.fault p (.wrongType (.list []) .array "proplist"))) y

namespace Follows

variable {α β : Type}

theorem refl (x : Except Failure α) : Follows x x := by
  cases x with
  | ok a => exact ok a
  | error f => exact alike (.same f)

theorem bind {x y : Except Failure α} (h : Follows x y) {g k : α → Except Failure β}
    (hg : ∀ a, Follows (g a) (k a)) : Follows (x.bind g) (y.bind k) := by
  cases h with
  | ok a => exact hg a
  | alike h => exact alike h
  | emptyArray p y => exact emptyArray p _

theorem compatible : Compatible Follows := ⟨ok, fun h hg => h.bind hg⟩

theorem map {x y : Except Failure α} (h : Follows x y) (g : α → β) :
    Follows (x.map g) (y.map g) :=
  compatible.map h g

theorem mapM {g k : α → Except Failure β} {as : List α} (h : ∀ a ∈ as, Follows (g a) (k a)) :
    Follows (as.mapM g) (as.mapM k) :=
  compatible.mapM (List.forall₂_same.2 h)

end Follows

/-! ### Native views -/

/-- The native form of a value, as a value. -/
def Value.toNative (v : Value) : Value := native v.toTerm

/-- The entry with the native form of its value. -/
def Entry.toNative (e : Entry) : Entry := { e with value := e.value.toNative }

namespace Document

theorem kind_toTerm (d : Document) :
    d.toTerm.kind = d.kind ∨ d.kind = .array ∧ d.toTerm.kind = .list := by
  cases d with
  | array items => exact Or.inr ⟨rfl, by rw [toTerm]; rfl⟩
  | number n => exact Or.inl (by rw [toTerm, Number.kind_toTerm]; rfl)
  | _ => exact Or.inl (by rw [toTerm]; rfl)

/-- No document is a pair. -/
theorem keyed?_toTerm (d : Document) : d.toTerm.keyed? = none := by
  cases d with
  | number n =>
    rw [toTerm]
    cases n with
    | integer n _ _ => rw [Number.toTerm_integer]; split <;> rfl
    | float x _ => rfl
  | _ => rw [toTerm]; rfl

/-- Of all documents only the empty array has a native form that is a proplist. -/
theorem proplist?_toTerm (d : Document) :
    d = .array [] ∨ (Value.native d.toTerm).proplist? = none := by
  cases d with
  | array items =>
    cases items with
    | nil => exact Or.inl rfl
    | cons d ds =>
      right
      simp [Value.proplist?, toTerm, toTermItems, Term.asProplist?, keyed?_toTerm]
  | number n =>
    right
    rw [toTerm]
    cases n with
    | integer n _ _ => rw [Number.toTerm_integer]; split <;> rfl
    | float x _ => rfl
  | _ => right; rw [toTerm]; rfl

end Document

namespace Value

@[simp] theorem toTerm_toNative (v : Value) : v.toNative.toTerm = v.toTerm := rfl

theorem kind_toNative (v : Value) :
    v.toNative.kind = v.kind ∨ v.kind = .array ∧ v.toNative.kind = .list := by
  cases v with
  | document d => exact d.kind_toTerm
  | native t => exact Or.inl rfl

theorem elements?_toNative (v : Value) :
    v.toNative.elements? = v.elements?.map fun items => items.map toNative := by
  cases v with
  | native t => cases t <;> simp [toNative, elements?, toTerm, Function.comp_def]
  | document d =>
    cases d with
    | array items =>
      simp [toNative, elements?, toTerm, Document.toTerm, Document.toTermItems_eq_map,
        Function.comp_def]
    | number n =>
      cases n with
      | integer n _ _ =>
        simp only [toNative, toTerm, Document.toTerm, Number.toTerm_integer]
        split <;> rfl
      | float x _ => rfl
    | _ => simp [toNative, elements?, toTerm, Document.toTerm]

/-- A value with elements is in native form the list of theirs. -/
theorem toTerm_of_elements? {v : Value} {items : List Value}
    (h : v.elements? = some items) : v.toTerm = .list (items.map toTerm) := by
  have hnative : v.toNative.elements? = some (items.map toNative) := by
    rw [v.elements?_toNative, h, Option.map_some]
  cases ht : v.toTerm with
  | list ts =>
    rw [toNative, ht] at hnative
    have hitems : ts.map native = items.map toNative := Option.some.inj hnative
    have hterms := congrArg (List.map toTerm) hitems
    rw [List.map_map, List.map_map] at hterms
    have hts : ts.map (toTerm ∘ native) = ts := List.map_id ts
    rw [← hts, hterms]
    rfl
  | _ => rw [toNative, ht] at hnative; cases hnative

theorem mapping?_toNative (v : Value) :
    v.toNative.mapping? = v.mapping?.map fun entries => entries.map Entry.toNative := by
  cases v with
  | native t =>
    cases t <;> simp [toNative, mapping?, toTerm, Entry.toNative, Function.comp_def]
  | document d =>
    cases d with
    | object members =>
      simp [toNative, mapping?, toTerm, Document.toTerm, Document.toTermMembers_eq_map,
        Entry.toNative, Function.comp_def]
    | number n =>
      cases n with
      | integer n _ _ =>
        simp only [toNative, toTerm, Document.toTerm, Number.toTerm_integer]
        split <;> rfl
      | float x _ => rfl
    | _ => simp [toNative, mapping?, toTerm, Document.toTerm]

end Value

namespace Entry

theorem first?_toNative (key : String) (entries : List Entry) :
    first? key (entries.map toNative) = (first? key entries).map Value.toNative := by
  rw [first?, first?, List.find?_map, Option.map_map, Option.map_map]
  rfl

theorem residual_toNative (fields : List Field) (entries : List Entry) :
    residual fields (entries.map toNative) = (residual fields entries).map toNative :=
  residual_map (fun e => (rfl : e.toNative.name = e.name)) fields entries

theorem captured_toNative (fields : List Field) (entries : List Entry) :
    captured fields (entries.map toNative) = captured fields entries := by
  rw [captured, captured, residual_toNative, List.map_map]
  rfl

end Entry

theorem closeFields_toNative (fields : List Field) (entries : List Entry) (p : Path)
    (slots : List (Option Term)) :
    closeFields fields (entries.map Entry.toNative) p slots =
      closeFields fields entries p slots := by
  cases h : Field.rest? fields with
  | some transform =>
    rw [closeFields_of_rest h, closeFields_of_rest h, Entry.captured_toNative]
  | none =>
    rw [closeFields_of_no_rest h, closeFields_of_no_rest h, Entry.residual_toNative, List.map_map,
      List.isEmpty_map]
    rfl

/-! ### The simulation -/

namespace Follows

theorem wrongType {α : Type} (v : Value) (s : Spec) (p : Path) :
    Follows (.error (.wrongType v s p) : Except Failure α)
      (.error (.wrongType v.toNative s p)) := by
  rcases v.kind_toNative with h | ⟨h, h'⟩
  · rw [Failure.wrongType, Failure.wrongType, h]
    exact refl _
  · rw [Failure.wrongType, Failure.wrongType, h, h']
    exact alike (.sequence p _ _)

end Follows

namespace Spec

variable {refer : String → Matcher}

/-- A judgement by kind that does not tell an array from a list. -/
theorem follows_ofKind {accepts : Kind → Bool} (h : accepts .list = accepts .array) (s : Spec)
    (v : Value) (p : Path) :
    Follows (ofKind accepts s v p) (ofKind accepts s v.toNative p) := by
  have hkind : accepts v.toNative.kind = accepts v.kind := by
    rcases v.kind_toNative with hk | ⟨hk, hk'⟩
    · rw [hk]
    · rw [hk, hk', h]
  unfold ofKind
  rw [hkind]
  split
  · exact Follows.ok v.toTerm
  · exact Follows.wrongType v s p

theorem follows_of_judge {s : Spec} {judge : Value → Except Fault Term}
    (h : s.judge? = some judge) (v : Value) (p : Path) :
    Follows (s.canonical refer v p) (s.canonical refer v.toNative p) := by
  cases s with
  | array | list | object | proplist | pipeline | named => cases h
  | any => exact Follows.ok v.toTerm
  | string | number | integer | boolean =>
    simp only [canonical]
    exact follows_ofKind rfl _ v p
  | member literals =>
    simp only [canonical, Value.toTerm_toNative]
    split
    · exact Follows.ok _
    · exact Follows.wrongType v _ p
  | satisfy | convert =>
    simp only [canonical, Value.toTerm_toNative]
    exact Follows.refl _

/-- The elements of a sequence, one after the other. -/
theorem follows_items {m : Matcher} (h : ∀ v p, Follows (m v p) (m v.toNative p)) (p : Path)
    (vs : List Value) : Follows (m.items p 0 vs) (m.items p 0 (vs.map Value.toNative)) := by
  rw [m.items_eq_mapM, m.items_eq_mapM, List.zipIdx_map, List.mapM_map]
  exact Follows.mapM fun x _ => h x.1 (p.index x.2)

/-- The entry that a field declares, or its absence. -/
theorem follows_slot {field : Field}
    (h : ∀ spec, field.spec? = some spec → ∀ v p,
      Follows (spec.canonical refer v p) (spec.canonical refer v.toNative p))
    (entries : List Entry) (p : Path) :
    Follows (field.slot refer entries p) (field.slot refer (entries.map Entry.toNative) p) := by
  cases field with
  | required key spec =>
    simp only [Field.slot, Entry.first?_toNative]
    cases Entry.first? key entries with
    | none => exact Follows.refl _
    | some v => exact (h spec rfl v _).map some
  | optional key spec default =>
    simp only [Field.slot, Entry.first?_toNative]
    cases Entry.first? key entries with
    | none => exact Follows.refl _
    | some v => exact (h spec rfl v _).map some
  | rest transform => exact Follows.refl _

theorem follows_row {fields : List Field}
    (h : ∀ field ∈ fields, ∀ spec, field.spec? = some spec → ∀ v p,
      Follows (spec.canonical refer v p) (spec.canonical refer v.toNative p))
    (entries : List Entry) (p : Path) :
    Follows ((slots refer entries p fields).bind (closeFields fields entries p))
      ((slots refer (entries.map Entry.toNative) p fields).bind
        (closeFields fields (entries.map Entry.toNative) p)) := by
  rw [slots_eq_mapM, slots_eq_mapM]
  refine (Follows.mapM fun field hf => follows_slot (h field hf) entries p).bind fun slots => ?_
  rw [closeFields_toNative]
  exact Follows.refl _

/-- The entries of a document are those of its native form, but for the empty array. -/
theorem entries?_toNative (s : Spec) (d : Document) :
    s.entries? (Value.document d).toNative =
        (s.entries? (.document d)).map (fun entries => entries.map Entry.toNative) ∨
      d = .array [] ∧ ∀ fields, s.fields? = some fields → s = proplist fields := by
  cases s with
  | object fields => exact Or.inl (Value.mapping?_toNative (.document d))
  | proplist fields =>
    rcases d.proplist?_toTerm with hd | hd
    · exact Or.inr ⟨hd, fun _ h => congrArg proplist (Option.some.inj h)⟩
    · exact Or.inl hd
  | _ => exact Or.inl rfl

/-- **A match of the native form follows the match of the value**, if that is so for names. -/
theorem canonical_follows (hr : ∀ name v p, Follows (refer name v p) (refer name v.toNative p))
    (s : Spec) : ∀ v p, Follows (s.canonical refer v p) (s.canonical refer v.toNative p) := by
  induction s using Spec.ind with
  | leaf s judge h => exact follows_of_judge h
  | sequence s element h ih =>
    intro v p
    rw [canonical_of_element h, canonical_of_element h, v.elements?_toNative]
    cases v.elements? with
    | none => exact Follows.wrongType v s p
    | some items => exact (follows_items ih p items).map Term.list
  | row s fields h ih =>
    intro v p
    cases v with
    | native t => exact Follows.refl _
    | document d =>
      rw [canonical_of_fields h, canonical_of_fields h]
      rcases entries?_toNative s d with he | ⟨rfl, hs⟩
      · rw [he]
        cases s.entries? (.document d) with
        | none => exact Follows.wrongType (.document d) s p
        | some entries => exact follows_row ih entries p
      · obtain rfl := hs fields h
        exact Follows.emptyArray p _
  | pipeline stages ih =>
    intro v p
    cases stages with
    | nil => exact Follows.ok v.toTerm
    | cons stage stages =>
      -- later stages see the same term on both sides
      rw [canonical_pipeline_cons, canonical_pipeline_cons]
      exact (ih stage List.mem_cons_self v p).bind fun t => Follows.refl _
  | named name => exact hr name

end Spec

namespace Definitions

theorem refer_follows (defs : Definitions) (bound : Nat) :
    ∀ name v p, Follows (defs.refer bound name v p) (defs.refer bound name v.toNative p) := by
  refine refer_ind (motive := fun _ m => ∀ v p, Follows (m v p) (m v.toNative p)) ?_ ?_ ?_ bound
  · intro name v p
    exact Follows.refl _
  · intro name v p
    exact Follows.refl _
  · intro name spec refer _ ih
    exact Spec.canonical_follows ih spec

/-- **The two doors agree.**  A document and its native form have the same canonical form, or they
fail alike, or an empty array of the document was expected to be a proplist.  So whatever a document
is accepted as, its native form is too. -/
theorem matching_document_native (defs : Definitions) (bound : Nat) (spec : Spec) (d : Document)
    (p : Path) :
    ((∃ t, defs.matching bound spec (.document d) p = .ok t ∧
        defs.matching bound spec (.native d.toTerm) p = .ok t) ∨
      (∃ f g, defs.matching bound spec (.document d) p = .error f ∧
        defs.matching bound spec (.native d.toTerm) p = .error g ∧ f.Alike g) ∨
      ∃ q, defs.matching bound spec (.document d) p =
        .error (.fault q (.wrongType (.list []) .array "proplist"))) ∧
      ∀ t, defs.matching bound spec (.document d) p = .ok t →
        defs.matching bound spec (.native d.toTerm) p = .ok t := by
  have h : Follows (defs.matching bound spec (.document d) p)
      (defs.matching bound spec (.native d.toTerm) p) :=
    Spec.canonical_follows (defs.refer_follows bound) spec (.document d) p
  generalize defs.matching bound spec (.document d) p = x at h ⊢
  generalize defs.matching bound spec (.native d.toTerm) p = y at h ⊢
  cases h with
  | ok t => exact ⟨Or.inl ⟨t, rfl, rfl⟩, fun _ ht => ht⟩
  | alike h => exact ⟨Or.inr (Or.inl ⟨_, _, rfl, rfl, h⟩), nofun⟩
  | emptyArray q y => exact ⟨Or.inr (Or.inr ⟨q, rfl⟩), nofun⟩

end Definitions

end Conform
