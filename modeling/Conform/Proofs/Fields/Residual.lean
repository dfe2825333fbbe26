import Conform.Proofs.Fields.Slots
import Conform.Proofs.Text.Bytes

/-!
# The residual of a match

A rest directive captures what the declared fields of its row leave over, and without one the same
entries are superfluous.  `Entry.Complete` says which entries these are: of each name that is there
and not declared the first one, in ascending byte order of the names.

* `complete_iff`: what a match leaves over is complete, and nothing else is.
* `canonical_captured`: what is captured is a proplist that is captured again as it is.
* `matching_residual`: both consumers see these entries, all of them, once the declared fields
  match.
-/

namespace Conform

theorem Field.mem_keys_iff {fields : List Field} {key : String} :
    key ∈ keys fields ↔ declares fields key = true := by
  rw [keys, List.mem_filterMap, declares, List.any_eq_true]
  simp only [beq_iff_eq]

theorem Field.not_mem_keys_iff {fields : List Field} {key : String} :
    key ∉ keys fields ↔ declares fields key = false := by
  rw [mem_keys_iff, Bool.not_eq_true]

namespace Entry

/-- The entries `es` are the complete residual of some entries: their names are those that are there
and that no field declares, once each and in ascending byte order, and each of them is the first of
its name. -/
structure Complete (fields : List Field) (entries es : List Entry) : Prop where
  ascending : es.Pairwise fun d e => Text.bytes d.name < Text.bytes e.name
  names : ∀ name, name ∈ es.map Entry.name ↔
    name ∈ entries.map Entry.name ∧ name ∉ Field.keys fields
  first : ∀ e ∈ es, ∃ before after, entries = before ++ e :: after ∧ ∀ d ∈ before, d.name ≠ e.name

variable {fields : List Field} {entries es : List Entry}

/-- **What a match leaves over is complete.** -/
theorem complete_residual (fields : List Field) (entries : List Entry) :
    Complete fields entries (residual fields entries) := by
  have hleft := leftover_residual fields entries
  refine ⟨hleft.ascending.imp fun h => Text.bytes_lt_iff.2 h, fun name => ?_, fun e he => ?_⟩
  · rw [mem_residual_names, Field.not_mem_keys_iff, and_comm]
  · exact find?_name_eq_some_iff.1 ((hleft.mem_iff e).1 he).2

theorem Complete.leftover (h : Complete fields entries es) : Leftover fields entries es := by
  refine ⟨h.ascending.imp fun hlt => Text.bytes_lt_iff.1 hlt, fun e => ⟨fun he => ?_, ?_⟩⟩
  · have hname := (h.names e.name).1 (List.mem_map_of_mem he)
    exact ⟨Field.not_mem_keys_iff.1 hname.2, find?_name_eq_some_iff.2 (h.first e he)⟩
  · rintro ⟨hdecl, hfind⟩
    have hthere : e.name ∈ entries.map Entry.name :=
      List.mem_map_of_mem (List.mem_of_find?_eq_some hfind)
    -- an entry of this name is in the list, and there is only one first entry of a name
    obtain ⟨d, hd, hname⟩ :=
      List.mem_map.1 ((h.names e.name).2 ⟨hthere, Field.not_mem_keys_iff.2 hdecl⟩)
    have hfirst := find?_name_eq_some_iff.2 (h.first d hd)
    rw [hname, hfind] at hfirst
    rwa [Option.some.inj hfirst]

/-- There is one complete residual. -/
theorem complete_iff : Complete fields entries es ↔ es = residual fields entries := by
  constructor
  · intro h
    exact h.leftover.unique (leftover_residual fields entries)
  · rintro rfl
    exact complete_residual fields entries

/-- An entry is declared or its name is left over, and not both. -/
theorem mem_keys_iff_not_residual {e : Entry} (he : e ∈ entries) :
    e.name ∈ Field.keys fields ↔ e.name ∉ (residual fields entries).map Entry.name := by
  have hname : e.name ∈ entries.map Entry.name := List.mem_map_of_mem he
  rw [mem_residual_names, ← Field.not_mem_keys_iff]
  constructor
  · intro hkey hres
    exact hres.1 hkey
  · intro h
    by_contra hkey
    exact h ⟨hkey, hname⟩

end Entry

namespace Spec

variable {refer : String → Matcher} {fields : List Field} {spec : Spec} {v : Value}
  {entries : List Entry} {p : Path}

/-- Once the declared fields match, what is left over decides. -/
theorem exists_canonical_eq_closeFields (hspec : spec.fields? = some fields)
    (hentries : spec.entries? v = some entries)
    (h : Field.DeclaredMatch (canonical refer) fields entries p) :
    ∃ slots, fields.mapM (Field.slot refer entries p) = .ok slots ∧
      spec.canonical refer v p = closeFields fields entries p slots := by
  obtain ⟨slots, hslots⟩ := Field.exists_slots_iff.2 h
  refine ⟨slots, hslots, ?_⟩
  rw [canonical_of_entries hspec hentries, hslots]
  rfl

/-- **Entries that are captured are captured again as they are**, if their names ascend. -/
theorem canonical_captured {es : List Entry} (hasc : es.Pairwise fun d e => d.name < e.name)
    (hkeyed : ∀ e ∈ es, e.Keyed) (q : Path) :
    canonical refer (.proplist [Field.restIdentity]) (.native (.list (es.map Entry.pair))) q =
      .ok (.tuple [.list (es.map Entry.pair)]) := by
  let ds : List Entry := es.map fun e => { e with value := .native e.value.toTerm }
  have hentries : (proplist [Field.restIdentity]).entries?
      (.native (.list (es.map Entry.pair))) = some ds := Entry.proplist?_pairs hkeyed
  have hds : ds.Pairwise fun d e => d.name < e.name := List.pairwise_map.2 hasc
  have hself : Entry.residual [Field.restIdentity] ds = ds :=
    (Entry.leftover_residual _ ds).unique (Entry.leftover_self hds fun _ _ => rfl)
  have hcaptured : Entry.captured [Field.restIdentity] ds = .list (es.map Entry.pair) := by
    rw [Entry.captured, hself, List.map_map]
    rfl
  have hrest : Field.rest? [Field.restIdentity] = some .ok := rfl
  rw [canonical_of_entries rfl hentries]
  show closeFields [Field.restIdentity] ds q [none] = _
  rw [closeFields_of_rest hrest, hcaptured]
  rfl

end Spec

namespace Definitions

/-- **The residual is complete.**  Once all declared fields of a row match, the entries that no
field declares decide: each name of theirs once, in ascending byte order, with the key and the value
of its first entry.  A rest directive fills its slot with what its conversion makes of the list of
these pairs, which is a proplist without declared names and is captured again as it is.  Without a
rest directive there has to be no such entry, or all their names are reported. -/
theorem matching_residual {fields : List Field} (hfields : Field.defect? fields = none)
    {spec : Spec} (hspec : spec.fields? = some fields) {v : Value} {entries : List Entry}
    (hentries : spec.entries? v = some entries) (defs : Definitions) (bound : Nat) {p : Path}
    (hmatch : Field.DeclaredMatch (defs.matching bound) fields entries p) :
    let es := Entry.residual fields entries
    let captured := Term.list (es.map fun e => .tuple [e.key, e.value.toTerm])
    (∀ ds, Entry.Complete fields entries ds ↔ ds = es) ∧
      (∀ e ∈ entries, e.name ∈ Field.keys fields ↔ e.name ∉ es.map Entry.name) ∧
      (∀ (i : Nat) (transform : Conversion), fields[i]? = some (.rest transform) →
        (∀ t, transform captured = .ok t →
          ∃ slots, defs.matching bound spec v p = .ok (.tuple slots) ∧ slots[i]? = some t) ∧
        ∀ reason, transform captured = .error reason →
          defs.matching bound spec v p =
            .error (.fault p (.conversionFailed restCapture captured reason))) ∧
      captured.asProplist? = some (es.map fun e => (e.key, e.value.toTerm)) ∧
      (∀ e ∈ es, e.key.keyName? = some e.name ∧ e.name ∉ Field.keys fields) ∧
      (∀ q, defs.matching bound (.proplist [Field.restIdentity]) (.native captured) q =
        .ok (.tuple [captured])) ∧
      ((∀ transform, .rest transform ∉ fields) →
        (es = [] → ∃ t, defs.matching bound spec v p = .ok t) ∧
        (es ≠ [] → defs.matching bound spec v p =
          .error (.fault p (.superfluousFields (es.map Entry.name))))) := by
  intro es captured
  have hsound := Field.defect?_eq_none_iff.1 hfields
  have hleft : Entry.Leftover fields entries es := Entry.leftover_residual fields entries
  have hkeyed : ∀ e ∈ es, e.Keyed := hleft.keyed (Spec.keyed_of_entries? hentries)
  obtain ⟨slots, hslots, hclose⟩ := Spec.exists_canonical_eq_closeFields hspec hentries hmatch
  have hrun : defs.matching bound spec v p = closeFields fields entries p slots := hclose
  have hundeclared : ∀ e ∈ es, e.name ∉ Field.keys fields := fun e he =>
    Field.not_mem_keys_iff.2 ((hleft.mem_iff e).1 he).1
  refine ⟨fun ds => Entry.complete_iff,
    fun e he => Entry.mem_keys_iff_not_residual he, fun i transform hi => ?_,
    Entry.asProplist?_pairs hkeyed, fun e he => ⟨hkeyed e he, hundeclared e he⟩,
    Spec.canonical_captured hleft.ascending hkeyed, fun hno => ?_⟩
  · have hrest : Field.rest? fields = some transform := hsound.rest?_eq (List.mem_of_getElem? hi)
    rw [closeFields_of_rest hrest] at hrun
    constructor
    · intro t ht
      change transform (Entry.captured fields entries) = .ok t at ht
      rw [ht] at hrun
      -- the slot of the directive is the one that is still open
      obtain ⟨slot, hslot, hopen⟩ := exists_getElem?_of_mapM_eq_ok hslots hi
      cases hopen
      refine ⟨_, hrun, ?_⟩
      rw [List.getElem?_map, hslot]
      rfl
    · intro reason hreason
      change transform (Entry.captured fields entries) = .error reason at hreason
      rw [hreason] at hrun
      exact hrun
  · have hrest : Field.rest? fields = none := Field.rest?_eq_none_iff.2 hno
    rw [closeFields_of_no_rest hrest] at hrun
    constructor
    · intro hnil
      change Entry.residual fields entries = [] at hnil
      rw [hnil, List.isEmpty_nil, if_pos rfl] at hrun
      exact ⟨_, hrun⟩
    · intro hne
      rw [if_neg fun h => hne (List.isEmpty_iff.1 h)] at hrun
      exact hrun

/-- The names that are left over come again in both forms of their keys, and the rest directive is
neither the first field nor the last. -/
theorem matching_residual_of_repeated_key :
    let fields : List Field :=
      [.optional "m" .string (.bool false), Field.restIdentity, .required "b" .integer]
    let v : Value := .native (.list [.tuple [.str "z", .null], .tuple [.atom "b", .int 1],
      .tuple [.atom "é", .int 2], .tuple [.atom "z", .int 3], .tuple [.str "é", .null]])
    let entries : List Entry := [⟨"z", .str "z", .native .null⟩, ⟨"b", .atom "b", .native (.int 1)⟩,
      ⟨"é", .atom "é", .native (.int 2)⟩, ⟨"z", .atom "z", .native (.int 3)⟩,
      ⟨"é", .str "é", .native .null⟩]
    Field.defect? fields = none ∧ Spec.fields? (.proplist fields) = some fields ∧
      Spec.entries? (.proplist fields) v = some entries ∧
      Field.DeclaredMatch (Definitions.matching [] 0) fields entries Path.root ∧
      ∃ slots, Definitions.matching [] 0 (.proplist fields) v Path.root = .ok (.tuple slots) ∧
        slots[1]? = some (.list [.tuple [.str "z", .null], .tuple [.atom "é", .int 2]]) := by
  intro fields v entries
  have hfields : Field.defect? fields = none := by rfl
  have hentries : Spec.entries? (.proplist fields) v = some entries := by rfl
  have hslots : fields.mapM (Field.slot (Definitions.refer [] 0) entries Path.root) =
      .ok [some (.bool false), none, some (.int 1)] := by rfl
  have hmatch : Field.DeclaredMatch (Definitions.matching [] 0) fields entries Path.root :=
    Field.exists_slots_iff.1 ⟨_, hslots⟩
  have hresidual := matching_residual hfields rfl hentries [] 0 hmatch
  exact ⟨hfields, rfl, hentries, hmatch, (hresidual.2.2.1 1 .ok rfl).1 _ rfl⟩

end Definitions

end Conform
