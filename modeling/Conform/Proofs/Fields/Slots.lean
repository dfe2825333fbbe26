import Conform.Proofs.Canonical.Nodes
import Conform.Proofs.Fields.Leftover
import Conform.Proofs.Fields.Sound

/-!
# The slots of a row of fields

A row of fields is matched against entries one field at a time, and the slot of a rest directive is
filled when all others are.  This file says what comes out without the order of these steps.

* `Field.DeclaredMatch`: the declared fields match, whatever is left over; then all slots before the
  rest directive can be filled, `exists_slots_iff`.
* `Field.Accepts`: the conditions under which the entries match, one for each sort of field.
* `Field.Fills`: what the slot of a field holds.
* `matching_fields`: a match succeeds exactly under the conditions, and then yields the tuple of the
  slots.
-/

namespace Conform

namespace Field

/-- All declared fields of a row match: what is required is there, and what is declared and there
matches by itself. -/
structure DeclaredMatch (alone : Spec → Matcher) (fields : List Field) (entries : List Entry)
    (p : Path) : Prop where
  required : ∀ key spec, .required key spec ∈ fields → ∃ v, Entry.first? key entries = some v
  declared : ∀ field ∈ fields, ∀ key spec v, field.key? = some key → field.spec? = some spec →
    Entry.first? key entries = some v → ∃ t, alone spec v (p.field key) = .ok t

/-- The entries match a row of fields: what is required is there, what is declared and there matches
by itself, and what is left over is accepted by the rest directive, or is nothing. -/
structure Accepts (alone : Spec → Matcher) (fields : List Field) (entries : List Entry) (p : Path) :
    Prop where
  required : ∀ key spec, .required key spec ∈ fields → ∃ v, Entry.first? key entries = some v
  declared : ∀ field ∈ fields, ∀ key spec v, field.key? = some key → field.spec? = some spec →
    Entry.first? key entries = some v → ∃ t, alone spec v (p.field key) = .ok t
  leftover : ∃ es, Entry.Leftover fields entries es ∧
    ((∃ transform t, .rest transform ∈ fields ∧ transform (.list (es.map Entry.pair)) = .ok t) ∨
      (∀ transform, .rest transform ∉ fields) ∧ es = [])

/-- The term is what the slot of a field of the row holds. -/
def Fills (alone : Spec → Matcher) (fields : List Field) (entries : List Entry) (p : Path) :
    Field → Term → Prop
  | required key spec, t =>
    ∃ v, Entry.first? key entries = some v ∧ alone spec v (p.field key) = .ok t
  | optional key spec default, t =>
    match Entry.first? key entries with
    | some v => alone spec v (p.field key) = .ok t
    | none => t = default
  | rest transform, t =>
    ∃ es, Entry.Leftover fields entries es ∧ transform (.list (es.map Entry.pair)) = .ok t

variable {refer : String → Matcher} {fields : List Field} {entries : List Entry} {p : Path}

/-! ### Slots before the rest directive -/

/-- The slot of a declared field holds what it should hold. -/
theorem slot_eq_ok_iff {field : Field} {key : String} (h : field.key? = some key)
    {slot : Option Term} :
    field.slot refer entries p = .ok slot ↔
      ∃ t, slot = some t ∧ field.Fills (Spec.canonical refer) fields entries p t := by
  cases field with
  | required key spec =>
    simp only [Field.slot, Fills]
    cases Entry.first? key entries with
    | none => simp
    | some v =>
      rw [map_eq_ok_iff]
      simp [and_comm, eq_comm]
  | optional key spec default =>
    simp only [Field.slot, Fills]
    cases Entry.first? key entries with
    | none => simp [eq_comm]
    | some v =>
      rw [map_eq_ok_iff]
      simp [and_comm, eq_comm]
  | rest => cases h

/-- The slot of a field whose entry is there can be filled if the entry matches by itself. -/
theorem exists_slot_iff_of_first? {field : Field} {key : String} {spec : Spec}
    (hk : field.key? = some key) (hs : field.spec? = some spec) {v : Value}
    (hv : Entry.first? key entries = some v) :
    (∃ slot, field.slot refer entries p = .ok slot) ↔
      ∀ key spec v, field.key? = some key → field.spec? = some spec →
        Entry.first? key entries = some v → ∃ t, spec.canonical refer v (p.field key) = .ok t := by
  rw [slot_of_first? hk hs hv, exists_map_eq_ok_iff]
  constructor
  · intro ht k s w hk' hs' hw
    obtain rfl := Option.some.inj (hk.symm.trans hk')
    obtain rfl := Option.some.inj (hs.symm.trans hs')
    obtain rfl := Option.some.inj (hv.symm.trans hw)
    exact ht
  · intro h
    exact h key spec v hk hs hv

/-- A slot can be filled under the conditions on its own field. -/
theorem exists_slot_eq_ok_iff {field : Field} :
    (∃ slot, field.slot refer entries p = .ok slot) ↔
      (∀ key spec, field = .required key spec → ∃ v, Entry.first? key entries = some v) ∧
        ∀ key spec v, field.key? = some key → field.spec? = some spec →
          Entry.first? key entries = some v →
            ∃ t, spec.canonical refer v (p.field key) = .ok t := by
  cases field with
  | required key spec =>
    cases h : Entry.first? key entries with
    | none => simp [Field.slot, h]
    | some v =>
      rw [exists_slot_iff_of_first? rfl rfl h, iff_and_self]
      intro _ k s e
      cases e
      exact ⟨v, h⟩
  | optional key spec default =>
    cases h : Entry.first? key entries with
    | none =>
      have hslot : (optional key spec default).slot refer entries p = .ok (some default) := by
        simp only [Field.slot, h]
      refine iff_of_true ⟨_, hslot⟩ ⟨fun _ _ e => ?_, fun k s w hk _ hw => ?_⟩
      · cases e
      · cases hk
        rw [h] at hw
        cases hw
    | some v =>
      rw [exists_slot_iff_of_first? rfl rfl h, iff_and_self]
      intro _ k s e
      cases e
  | rest transform => simp [Field.slot, Field.key?]

/-- All slots before the rest directive can be filled exactly if the declared fields match. -/
theorem exists_slots_iff :
    (∃ slots, fields.mapM (Field.slot refer entries p) = .ok slots) ↔
      DeclaredMatch (Spec.canonical refer) fields entries p := by
  rw [exists_mapM_eq_ok_iff]
  simp only [exists_slot_eq_ok_iff]
  constructor
  · intro h
    exact ⟨fun key spec hm => (h _ hm).1 key spec rfl, fun field hf => (h field hf).2⟩
  · rintro ⟨hreq, hdecl⟩ field hf
    exact ⟨fun key spec e => hreq key spec (e ▸ hf), hdecl field hf⟩

/-! ### The rest directive -/

/-- What the last step of a match fills the open slots with: what the rest directive makes of what
is left over, or, if there is none and nothing is left over, null. -/
def Remainder (fields : List Field) (entries : List Entry) (t : Term) : Prop :=
  match rest? fields with
  | some transform => transform (Entry.captured fields entries) = .ok t
  | none => Entry.residual fields entries = [] ∧ t = .null

theorem closeFields_eq_ok_iff {slots : List (Option Term)} {t : Term} :
    closeFields fields entries p slots = .ok t ↔
      ∃ rest, Remainder fields entries rest ∧
        t = .tuple (slots.map fun slot => slot.getD rest) := by
  simp only [Remainder]
  cases h : rest? fields with
  | some transform =>
    rw [closeFields_of_rest h]
    cases ht : transform (Entry.captured fields entries) <;> simp [ht, eq_comm]
  | none =>
    rw [closeFields_of_no_rest h]
    cases Entry.residual fields entries <;> simp [eq_comm]

/-- There is something to fill the open slots with under the condition on what is left over. -/
theorem exists_remainder_iff (hs : Sound fields) :
    (∃ t, Remainder fields entries t) ↔
      ∃ es, Entry.Leftover fields entries es ∧
        ((∃ transform t, .rest transform ∈ fields ∧ transform (.list (es.map Entry.pair)) = .ok t) ∨
          (∀ transform, .rest transform ∉ fields) ∧ es = []) := by
  have hres := Entry.leftover_residual fields entries
  simp only [Remainder]
  cases h : rest? fields with
  | some transform =>
    have hmem := mem_of_rest?_eq h
    constructor
    · rintro ⟨t, ht⟩
      exact ⟨_, hres, Or.inl ⟨transform, t, hmem, ht⟩⟩
    · rintro ⟨es, hes, ⟨other, t, hother, ht⟩ | ⟨hnone, _⟩⟩
      · rw [hs.rest?_eq hother] at h
        cases h
        rw [hes.unique hres] at ht
        exact ⟨t, ht⟩
      · exact absurd hmem (hnone transform)
  | none =>
    have hnone := rest?_eq_none_iff.1 h
    constructor
    · rintro ⟨_, hnil, _⟩
      exact ⟨_, hres, Or.inr ⟨hnone, hnil⟩⟩
    · rintro ⟨es, hes, ⟨other, t, hother, _⟩ | ⟨_, rfl⟩⟩
      · exact absurd hother (hnone other)
      · exact ⟨.null, hres.unique hes, rfl⟩

/-- The open slot of a field holds the right term once it is filled. -/
theorem fills_getD_of_slot_eq_ok (hs : Sound fields) {rest : Term}
    (hrest : Remainder fields entries rest) {field : Field} (hf : field ∈ fields)
    {slot : Option Term} (h : field.slot refer entries p = .ok slot) :
    field.Fills (Spec.canonical refer) fields entries p (slot.getD rest) := by
  cases hkey : field.key? with
  | some key =>
    obtain ⟨t, rfl, ht⟩ := (slot_eq_ok_iff hkey).1 h
    exact ht
  | none =>
    obtain ⟨transform, rfl⟩ := eq_rest_of_key? hkey
    cases h
    simp only [Remainder, hs.rest?_eq hf] at hrest
    exact ⟨_, Entry.leftover_residual fields entries, hrest⟩

end Field

/-! ### The match of a row -/

namespace Spec

theorem keyed_of_entries? {s : Spec} {v : Value} {entries : List Entry}
    (h : s.entries? v = some entries) : ∀ e ∈ entries, e.Keyed := by
  cases s with
  | object => exact Value.keyed_of_mapping? h
  | proplist => exact Value.keyed_of_proplist? h
  | _ => cases h

variable {refer : String → Matcher} {fields : List Field} {spec : Spec} {v : Value}
  {entries : List Entry}

/-- A match of a row yields the tuple of the slots of its fields, the open one filled. -/
theorem canonical_fields_eq_ok_iff (hspec : spec.fields? = some fields)
    (hentries : spec.entries? v = some entries) {p : Path} {t : Term} :
    spec.canonical refer v p = .ok t ↔
      ∃ slots, fields.mapM (Field.slot refer entries p) = .ok slots ∧
        ∃ rest, Field.Remainder fields entries rest ∧
          t = .tuple (slots.map fun slot => slot.getD rest) := by
  rw [canonical_of_entries hspec hentries]
  simp only [bind_eq_ok_iff, Field.closeFields_eq_ok_iff]

theorem exists_canonical_fields_eq_ok_iff (hsound : Field.Sound fields)
    (hspec : spec.fields? = some fields) (hentries : spec.entries? v = some entries) {p : Path} :
    (∃ t, spec.canonical refer v p = .ok t) ↔ Field.Accepts (canonical refer) fields entries p := by
  have hsplit : (∃ t, spec.canonical refer v p = .ok t) ↔
      Field.DeclaredMatch (canonical refer) fields entries p ∧
        ∃ rest, Field.Remainder fields entries rest := by
    simp only [canonical_fields_eq_ok_iff hspec hentries, ← Field.exists_slots_iff]
    constructor
    · rintro ⟨_, slots, hslots, rest, hrest, _⟩
      exact ⟨⟨slots, hslots⟩, rest, hrest⟩
    · rintro ⟨⟨slots, hslots⟩, rest, hrest⟩
      exact ⟨_, slots, hslots, rest, hrest, rfl⟩
  rw [hsplit, Field.exists_remainder_iff hsound]
  constructor
  · rintro ⟨⟨hreq, hdecl⟩, hleft⟩
    exact ⟨hreq, hdecl, hleft⟩
  · rintro ⟨hreq, hdecl, hleft⟩
    exact ⟨⟨hreq, hdecl⟩, hleft⟩

end Spec

namespace Definitions

/-- **Success and result of the match of a row of fields.**  An object or a proplist that was let
pass matches a value with entries exactly if the entries are accepted, each declared one by a match
of its first value alone.  It yields a tuple with one slot for each field, at the place where the
field is declared. -/
theorem matching_fields {fields : List Field} (hfields : Field.defect? fields = none) {spec : Spec}
    (hspec : spec.fields? = some fields) {v : Value} {entries : List Entry}
    (hentries : spec.entries? v = some entries) (defs : Definitions) (bound : Nat) (p : Path) :
    ((∃ t, defs.matching bound spec v p = .ok t) ↔
      Field.Accepts (defs.matching bound) fields entries p) ∧
      ∀ t, defs.matching bound spec v p = .ok t →
        ∃ slots, t = .tuple slots ∧ slots.length = fields.length ∧
          ∀ (i : Nat) (field : Field) (slot : Term), fields[i]? = some field →
            slots[i]? = some slot → field.Fills (defs.matching bound) fields entries p slot := by
  have hsound := Field.defect?_eq_none_iff.1 hfields
  refine ⟨Spec.exists_canonical_fields_eq_ok_iff hsound hspec hentries, fun t ht => ?_⟩
  obtain ⟨slots, hslots, rest, hrest, rfl⟩ :=
    (Spec.canonical_fields_eq_ok_iff hspec hentries).1 ht
  have hrow := mapM_eq_ok_iff.1 hslots
  refine ⟨_, rfl, by rw [List.length_map, hrow.length_eq], fun i field slot hf hslot => ?_⟩
  rw [List.getElem?_map] at hslot
  obtain ⟨found, hfound, rfl⟩ := Option.map_eq_some_iff.1 hslot
  exact Field.fills_getD_of_slot_eq_ok hsound hrest (List.mem_of_getElem? hf)
    (rel_of_getElem? hrow hf hfound)

/-- A proplist with a key in both forms, an absent optional field, and the rest directive first. -/
theorem matching_fields_of_repeated_key :
    let fields : List Field :=
      [.rest .ok, .required "a" .integer, .optional "b" .string (.bool false)]
    let v : Value := .native (.list [.tuple [.str "x", .null], .tuple [.atom "a", .int 1],
      .tuple [.str "a", .str "later"], .tuple [.atom "x", .int 2]])
    Field.defect? fields = none ∧ Spec.fields? (.proplist fields) = some fields ∧
      ∃ entries, Spec.entries? (.proplist fields) v = some entries ∧
        Field.Accepts (Definitions.matching [] 0) fields entries Path.root ∧
        Definitions.matching [] 0 (.proplist fields) v Path.root =
          .ok (.tuple [.list [.tuple [.str "x", .null]], .int 1, .bool false]) := by
  intro fields v
  have hrun : Definitions.matching [] 0 (.proplist fields) v Path.root =
      .ok (.tuple [.list [.tuple [.str "x", .null]], .int 1, .bool false]) := by rfl
  have hfields : Field.defect? fields = none := by rfl
  exact ⟨hfields, rfl, _, rfl, (matching_fields hfields rfl rfl [] 0 Path.root).1.1 ⟨_, hrun⟩, hrun⟩

end Definitions

end Conform
