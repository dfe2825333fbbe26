import Conform.Proofs.Canonical.Subvalues
import Conform.Proofs.Fields.Slots
import Mathlib.Data.List.InsertIdx

/-!
# Rows that put up with more

A row of fields without a rest directive is strict: what it leaves over is superfluous.  With the
directive that keeps everything put in at some place, the row is lenient.  `Field.Lenient` says what
the two make of a value, side by side: the lenient row has one slot more, with what the strict row
complains about; every other failure is the same.

That the complaint of the row itself is not mistaken for one of a value below it is due to the path,
`Failure.under_child_ne`.
-/

namespace Conform

section

variable {α : Type} {xs ys : List α} {a b : α} {k : Nat}

theorem getElem?_insertIdx_of_le (hk : k ≤ xs.length) : (xs.insertIdx k a)[k]? = some a := by
  rw [List.getElem?_insertIdx_self, if_pos hk]

/-- What is put into a list at a place of it is seen there. -/
theorem eq_of_insertIdx_eq (hk : k ≤ xs.length) (h : ys.insertIdx k b = xs.insertIdx k a) :
    b = a := by
  have hlen : (ys.insertIdx k b).length = xs.length + 1 := by
    rw [h, List.length_insertIdx_of_le_length hk]
  have hk' : k ≤ ys.length := by
    by_contra hlt
    rw [List.insertIdx_of_length_lt (by omega)] at hlen
    omega
  have hb : (ys.insertIdx k b)[k]? = some b := getElem?_insertIdx_of_le hk'
  rw [h, getElem?_insertIdx_of_le hk] at hb
  exact (Option.some.inj hb).symm

end

/-- What is found below a child is not found at the node itself. -/
theorem Failure.under_child_ne (p : Path) (s : Segment) (f : Failure) (fault : Fault) :
    f.under (p.child s) ≠ .fault p fault := by
  intro h
  cases f with
  | mismatch m =>
    have hpath : p.child s ++ m.path = p := congrArg Mismatch.path (Failure.mismatch.inj h)
    have hlen := congrArg List.length hpath
    rw [Path.child_append, List.length_append, List.length_cons] at hlen
    omega
  | endless => cases h
  | undefined name => cases h

namespace Field

/-! ### A row with one more field -/

section

variable {fields : List Field} {k : Nat}

theorem declares_insertIdx_rest (hk : k ≤ fields.length) (transform : Conversion) (key : String) :
    declares (fields.insertIdx k (rest transform)) key = declares fields key := by
  rw [Bool.eq_iff_iff, declares, declares, List.any_eq_true, List.any_eq_true]
  simp only [List.mem_insertIdx hk, exists_eq_or_imp]
  exact or_iff_right Bool.false_ne_true

theorem residual_insertIdx_rest (hk : k ≤ fields.length) (transform : Conversion)
    (entries : List Entry) :
    Entry.residual (fields.insertIdx k (rest transform)) entries =
      Entry.residual fields entries := by
  simp only [Entry.residual, declares_insertIdx_rest hk transform]

/-- A rest directive that is put into a row without one is the rest directive of the row. -/
theorem rest?_insertIdx_rest (hrest : rest? fields = none) (hk : k ≤ fields.length)
    (transform : Conversion) : rest? (fields.insertIdx k (rest transform)) = some transform := by
  have hmem : rest transform ∈ fields.insertIdx k (rest transform) :=
    (List.mem_insertIdx hk).2 (Or.inl rfl)
  cases hother : rest? (fields.insertIdx k (rest transform)) with
  | none => exact absurd hmem (rest?_eq_none_iff.1 hother transform)
  | some other =>
    rcases (List.mem_insertIdx hk).1 (mem_of_rest?_eq hother) with heq | hmem'
    · cases heq
      rfl
    · exact absurd hmem' (rest?_eq_none_iff.1 hrest other)

end

/-- Without a rest directive no slot is left open. -/
theorem exists_map_some_of_slots {refer : String → Matcher} {fields : List Field}
    {entries : List Entry} {p : Path} {slots : List (Option Term)} (hrest : rest? fields = none)
    (h : fields.mapM (Field.slot refer entries p) = .ok slots) :
    ∃ ts : List Term, slots = ts.map some := by
  have hno := rest?_eq_none_iff.1 hrest
  have hrow := mapM_eq_ok_iff.1 h
  clear h hrest
  induction hrow with
  | nil => exact ⟨[], rfl⟩
  | @cons field slot fields slots hslot _ ih =>
    obtain ⟨ts, rfl⟩ := ih fun transform hm => hno transform (List.mem_cons_of_mem field hm)
    cases hkey : field.key? with
    | none =>
      obtain ⟨transform, rfl⟩ := eq_rest_of_key? hkey
      exact absurd List.mem_cons_self (hno transform)
    | some key =>
      obtain ⟨t, rfl, _⟩ := (@slot_eq_ok_iff refer fields entries p field key hkey slot).1 hslot
      exact ⟨t :: ts, rfl⟩

/-- No slot stays empty because something is superfluous at the row itself. -/
theorem slot_ne_superfluous {defs : Definitions} {bound : Nat} {field : Field}
    {entries : List Entry} {p : Path} {f : Failure}
    (h : field.slot (defs.refer bound) entries p = .error f) (names : List String) :
    f ≠ .fault p (.superfluousFields names) := by
  rcases of_slot_eq_error h with ⟨key, spec, _, _, rfl⟩ | ⟨key, spec, v, _, _, _, hf⟩
  · intro heq
    cases heq
  · have hvalue : defs.matching bound spec v (p.field key) = .error f := hf
    rw [Definitions.matching_from_root, mapError_eq_error_iff] at hvalue
    obtain ⟨g, _, rfl⟩ := hvalue
    exact Failure.under_child_ne p _ g _

/-! ### The two rows side by side -/

/-- What a strict row makes of a value at a path, beside what is made of it by the lenient row that
keeps what is left over at a place. -/
inductive Lenient (k : Nat) (p : Path) : Outcome → Outcome → Prop
  /-- Nothing is left over. -/
  | nothing {slots : List Term} : k ≤ slots.length →
    Lenient k p (.ok (.tuple slots)) (.ok (.tuple (slots.insertIdx k (.list []))))
  /-- Some entries are left over. -/
  | leftover {slots : List Term} {es : List Entry} : k ≤ slots.length → es ≠ [] →
    (∀ e ∈ es, e.Keyed) →
    Lenient k p (.error (.fault p (.superfluousFields (es.map Entry.name))))
      (.ok (.tuple (slots.insertIdx k (.list (es.map Entry.pair)))))
  /-- The match fails before it comes to what is left over. -/
  | failed {f : Failure} : (∀ names, f ≠ .fault p (.superfluousFields names)) →
    Lenient k p (.error f) (.error f)

variable {fields : List Field} {entries : List Entry} {k : Nat} {p : Path}

/-- The last step of both rows. -/
theorem lenient_closeFields (hrest : rest? fields = none) (hk : k ≤ fields.length)
    (hkeyed : ∀ e ∈ entries, e.Keyed) {ts : List Term} (hts : k ≤ ts.length) :
    Lenient k p (closeFields fields entries p (ts.map some))
      (closeFields (fields.insertIdx k restIdentity) entries p
        ((ts.map some).insertIdx k none)) := by
  have hinserted : rest? (fields.insertIdx k restIdentity) = some .ok :=
    rest?_insertIdx_rest hrest hk .ok
  have hsame : Entry.residual (fields.insertIdx k restIdentity) entries =
      Entry.residual fields entries := residual_insertIdx_rest hk .ok entries
  have hslots : ∀ t, ((ts.map some).insertIdx k none).map (fun slot => slot.getD t) =
      ts.insertIdx k t := by
    intro t
    rw [List.map_insertIdx, List.map_map]
    exact congrArg (fun slots => slots.insertIdx k t) (List.map_id ts)
  have hkept : (ts.map some).map (fun slot => slot.getD .null) = ts := by
    rw [List.map_map]
    exact List.map_id ts
  rw [closeFields_of_no_rest hrest, closeFields_of_rest hinserted, Entry.captured, hsame]
  simp only [hslots, hkept]
  have hkeyed' : ∀ e ∈ Entry.residual fields entries, e.Keyed :=
    (Entry.leftover_residual fields entries).keyed hkeyed
  by_cases hnil : Entry.residual fields entries = []
  · rw [hnil]
    exact .nothing hts
  · rw [if_neg fun h => hnil (List.isEmpty_iff.1 h)]
    exact .leftover hts hnil hkeyed'

/-- The two rows match side by side. -/
theorem lenient_matching {defs : Definitions} {bound : Nat} (strict lenient : Spec)
    (hrest : rest? fields = none) (hk : k ≤ fields.length) (hs : strict.fields? = some fields)
    (hl : lenient.fields? = some (fields.insertIdx k restIdentity)) {v : Value}
    (hentries : strict.entries? v = lenient.entries? v) (hlabel : strict.label = lenient.label)
    (p : Path) :
    Lenient k p (defs.matching bound strict v p) (defs.matching bound lenient v p) := by
  rw [Definitions.matching, Definitions.matching]
  cases hv : strict.entries? v with
  | none =>
    rw [Spec.canonical_of_fields hs, Spec.canonical_of_fields hl, ← hentries, hv]
    dsimp only
    rw [Failure.wrongType, Failure.wrongType, ← hlabel]
    refine .failed fun names h => ?_
    cases h
  | some entries =>
    have hopen : restIdentity.slot (defs.refer bound) entries p = .ok none := rfl
    rw [Spec.canonical_of_entries hs hv, Spec.canonical_of_entries hl (hentries ▸ hv),
      mapM_insertIdx hopen]
    cases hrun : fields.mapM (Field.slot (defs.refer bound) entries p) with
    | error f =>
      obtain ⟨field, _, hf⟩ := Failure.exists_of_mapM_eq_error hrun
      exact .failed (slot_ne_superfluous hf)
    | ok slots =>
      obtain ⟨ts, rfl⟩ := exists_map_some_of_slots hrest hrun
      have hlen : fields.length = (ts.map some).length := (mapM_eq_ok_iff.1 hrun).length_eq
      rw [List.length_map] at hlen
      exact lenient_closeFields hrest hk (Spec.keyed_of_entries? hv) (hlen ▸ hk)

/-! ### What follows for the two outcomes -/

section

variable {strict lenient : Outcome}

theorem Lenient.ok_iff (h : Lenient k p strict lenient) (slots : List Term) :
    strict = .ok (.tuple slots) ↔ lenient = .ok (.tuple (slots.insertIdx k (.list []))) := by
  constructor
  · intro hok
    cases h with
    | nothing => cases hok; rfl
    | leftover => cases hok
    | failed => cases hok
  · intro hok
    cases h with
    | nothing hts =>
      have hslots := Term.tuple.inj (Except.ok.inj hok)
      rw [List.insertIdx_injective k _ hslots]
    | leftover hts hne =>
      have hslots := Term.tuple.inj (Except.ok.inj hok)
      have hlist := Term.list.inj (eq_of_insertIdx_eq hts hslots.symm)
      exact absurd (List.map_eq_nil_iff.1 hlist.symm) hne
    | failed => cases hok

theorem Lenient.superfluous_iff (h : Lenient k p strict lenient) (names : List String) :
    strict = .error (.fault p (.superfluousFields names)) ↔
      ∃ slots items pairs, lenient = .ok (.tuple slots) ∧ slots[k]? = some (.list items) ∧
        items ≠ [] ∧ (Term.list items).asProplist? = some pairs ∧
        pairs.map (fun pair => pair.1.keyName?) = names.map some := by
  constructor
  · intro herror
    cases h with
    | nothing => cases herror
    | @leftover slots es hts hne hkeyed =>
      cases herror
      refine ⟨_, es.map Entry.pair, _, rfl, getElem?_insertIdx_of_le hts,
        fun h => hne (List.map_eq_nil_iff.1 h), Entry.asProplist?_pairs hkeyed, ?_⟩
      rw [List.map_map, List.map_map]
      exact List.map_congr_left hkeyed
    | failed hf => cases herror; exact absurd rfl (hf names)
  · rintro ⟨slots, items, pairs, hok, hget, hitems, hpairs, hnames⟩
    cases h with
    | nothing hts =>
      cases hok
      rw [getElem?_insertIdx_of_le hts] at hget
      cases hget
      exact absurd rfl hitems
    | @leftover slots es hts hne hkeyed =>
      cases hok
      rw [getElem?_insertIdx_of_le hts] at hget
      cases hget
      rw [Entry.asProplist?_pairs hkeyed] at hpairs
      cases hpairs
      have hspell : (es.map Entry.name).map some = names.map some := by
        rw [← hnames, List.map_map, List.map_map]
        exact (List.map_congr_left hkeyed).symm
      have hsame := List.map_injective_iff.2 (Option.some_injective String) hspell
      rw [hsame]
    | failed => cases hok

theorem Lenient.error_iff (h : Lenient k p strict lenient) (f : Failure) :
    lenient = .error f ↔
      strict = .error f ∧ ∀ names, f ≠ .fault p (.superfluousFields names) := by
  cases h with
  | nothing =>
    constructor
    · intro h
      cases h
    · rintro ⟨h, _⟩
      cases h
  | leftover =>
    constructor
    · intro h
      cases h
    · rintro ⟨h, hf⟩
      cases h
      exact absurd rfl (hf _)
  | failed hf =>
    constructor
    · intro h
      cases h
      exact ⟨rfl, hf⟩
    · exact And.left

end

end Field

namespace Definitions

/-- **Strict and lenient rows agree.**  Let a row of fields have no rest directive, and the lenient
row be this one with the directive that keeps everything put in at any place.  Then the strict row
matches a value exactly if the lenient one yields the same slots with an empty list put in at the
place.  The strict row complains about names of its own exactly if the lenient one yields a list of
pairs there whose keys spell these names in their order.  And the lenient row fails in the ways in
which the strict one fails otherwise, a complaint from further below included. -/
theorem matching_lenient (defs : Definitions) (bound : Nat) {fields : List Field}
    (hrest : ∀ transform, .rest transform ∉ fields) {k : Nat} (hk : k ≤ fields.length)
    {form : List Field → Spec} (hform : form = Spec.object ∨ form = Spec.proplist) (v : Value)
    (p : Path) :
    let strict := defs.matching bound (form fields) v p
    let lenient := defs.matching bound (form (fields.insertIdx k Field.restIdentity)) v p
    (∀ slots, strict = .ok (.tuple slots) ↔
        lenient = .ok (.tuple (slots.insertIdx k (.list [])))) ∧
      (∀ names, strict = .error (.fault p (.superfluousFields names)) ↔
        ∃ slots items pairs, lenient = .ok (.tuple slots) ∧ slots[k]? = some (.list items) ∧
          items ≠ [] ∧ (Term.list items).asProplist? = some pairs ∧
          pairs.map (fun pair => pair.1.keyName?) = names.map some) ∧
      ∀ f, lenient = .error f ↔
        strict = .error f ∧ ∀ names, f ≠ .fault p (.superfluousFields names) := by
  intro strict lenient
  have hno : Field.rest? fields = none := Field.rest?_eq_none_iff.2 hrest
  have hrows : Field.Lenient k p strict lenient := by
    rcases hform with rfl | rfl
    · exact Field.lenient_matching (.object fields) (.object _) hno hk rfl rfl rfl rfl p
    · exact Field.lenient_matching (.proplist fields) (.proplist _) hno hk rfl rfl rfl rfl p
  exact ⟨hrows.ok_iff, hrows.superfluous_iff, hrows.error_iff⟩

/-- Two names are left over, one of them in both forms of its key, and the directive is put in
between two fields. -/
theorem matching_lenient_of_repeated_key :
    let fields : List Field := [.required "a" .integer, .optional "b" .string .null]
    let v : Value := .native (.list [.tuple [.atom "x", .int 1], .tuple [.str "a", .int 2],
      .tuple [.str "x", .null], .tuple [.str "w", .bool true]])
    let p : Path := [.field "row"]
    let slots : List Term :=
      [.int 2, .list [.tuple [.str "w", .bool true], .tuple [.atom "x", .int 1]], .null]
    (∀ transform, .rest transform ∉ fields) ∧ 1 ≤ fields.length ∧
      (Spec.proplist = Spec.object ∨ Spec.proplist = Spec.proplist) ∧
      Definitions.matching [] 0 (.proplist (fields.insertIdx 1 Field.restIdentity)) v p =
        .ok (.tuple slots) ∧
      Definitions.matching [] 0 (.proplist fields) v p =
        .error (.fault p (.superfluousFields ["w", "x"])) := by
  intro fields v p slots
  have hrest : ∀ transform, .rest transform ∉ fields := Field.rest?_eq_none_iff.1 rfl
  have hlenient : Definitions.matching [] 0
      (.proplist (fields.insertIdx 1 Field.restIdentity)) v p = .ok (.tuple slots) := by rfl
  have hagree := matching_lenient [] 0 hrest (by decide : 1 ≤ 2) (Or.inr rfl) v p
  exact ⟨hrest, by decide, Or.inr rfl, hlenient,
    (hagree.2.1 ["w", "x"]).2 ⟨slots, _, _, hlenient, rfl, List.cons_ne_nil _ _, rfl, rfl⟩⟩

end Definitions

end Conform
