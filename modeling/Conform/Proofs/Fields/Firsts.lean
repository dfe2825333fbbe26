import Conform.Proofs.Canonical.Nodes
import Conform.Proofs.Fields.Leftover

/-!
# First entries

Entries may come in any order and a name may come again.  `Entry.firsts` is the table of what
counts: for each name its first entry, with the form of the key and the value.

* `firsts_eq_iff`: two lists of entries have one table if they look up alike.  Two ways to get there
  are to move entries past entries of other names, `firsts_eq_of_filter_eq`, and to repeat a name
  later on, `Repeated.firsts_eq`.
* `canonical_eq_of_firsts`: the outcome of a match depends on the table alone.
* `canonical_eq_of_no_rest`: without a rest directive it does not depend on the keys of entries
  either, nor on the values of those that no field declares.
-/

namespace Conform

/-! ### Tables -/

/-- Tables that look up alike are equal. -/
theorem Table.Ascending.ext {α : Type} {xs ys : List (String × α)} (hx : Ascending xs)
    (hy : Ascending ys) (h : ∀ name, find? name xs = find? name ys) : xs = ys := by
  refine eq_of_ascending Prod.fst hx hy fun ⟨name, content⟩ => ?_
  rw [hx.mem_iff, hy.mem_iff, h name]

namespace Entry

/-- The first entry of every name. -/
def firsts (entries : List Entry) : List (String × Entry) :=
  Table.firsts (entries.map fun e => (e.name, e))

theorem find?_firsts (name : String) (entries : List Entry) :
    Table.find? name (firsts entries) = entries.find? fun e => e.name == name := by
  rw [firsts, Table.find?_firsts, Table.find?, List.find?_map, Option.map_map]
  exact Option.map_id'

/-- The first entry of a name, one entry on. -/
theorem find?_name_cons (name : String) (e : Entry) (es : List Entry) :
    ((e :: es).find? fun d => d.name == name) =
      if e.name = name then some e else es.find? fun d => d.name == name := by
  by_cases h : e.name = name <;> simp [h]

variable {es ds : List Entry}

theorem firsts_eq_iff :
    firsts es = firsts ds ↔
      ∀ name : String, es.find? (fun e => e.name == name) = ds.find? fun d => d.name == name := by
  constructor
  · intro h name
    rw [← find?_firsts, ← find?_firsts, h]
  · intro h
    refine (Table.ascending_firsts _).ext (Table.ascending_firsts _) fun name => ?_
    have hfind := h name
    rw [← find?_firsts, ← find?_firsts] at hfind
    exact hfind

/-- Entries of different names may change places. -/
theorem firsts_eq_of_filter_eq
    (h : ∀ name : String, es.filter (fun e => e.name == name) = ds.filter fun d => d.name == name) :
    firsts es = firsts ds := by
  refine firsts_eq_iff.2 fun name => ?_
  rw [← List.head?_filter, ← List.head?_filter, h name]

/-- The second list is the first with entries put in whose names came before them; `seen` are the
names before both lists. -/
inductive Repeated : List String → List Entry → List Entry → Prop
  | nil (seen : List String) : Repeated seen [] []
  | next {seen : List String} (e : Entry) {es ds : List Entry} :
    Repeated (e.name :: seen) es ds → Repeated seen (e :: es) (e :: ds)
  | again {seen : List String} {e : Entry} {es ds : List Entry} :
    e.name ∈ seen → Repeated seen es ds → Repeated seen es (e :: ds)

theorem Repeated.find?_eq {seen : List String} (h : Repeated seen es ds) :
    ∀ name ∉ seen, es.find? (fun e => e.name == name) = ds.find? fun d => d.name == name := by
  induction h with
  | nil => exact fun _ _ => rfl
  | next e _ ih =>
    intro name hname
    rw [find?_name_cons, find?_name_cons]
    by_cases he : e.name = name
    · rw [if_pos he, if_pos he]
    · rw [if_neg he, if_neg he]
      exact ih name fun hmem => (List.mem_cons.1 hmem).elim (fun h => he h.symm) hname
  | @again _ e _ _ he _ ih =>
    intro name hname
    have hne : e.name ≠ name := fun h => hname (h ▸ he)
    rw [find?_name_cons, if_neg hne]
    exact ih name hname

/-- A name may come again. -/
theorem Repeated.firsts_eq (h : Repeated [] es ds) : firsts es = firsts ds :=
  firsts_eq_iff.2 fun name => h.find?_eq name List.not_mem_nil

/-! ### What a row of fields reads of its entries -/

theorem first?_eq_of_firsts (h : firsts es = firsts ds) (key : String) :
    first? key es = first? key ds := by
  rw [first?, first?, firsts_eq_iff.1 h key]

theorem residual_eq_of_firsts (h : firsts es = firsts ds) (fields : List Field) :
    residual fields es = residual fields ds := by
  have hes := leftover_residual fields es
  have hds := leftover_residual fields ds
  have hleft : Leftover fields es (residual fields ds) := by
    refine ⟨hds.ascending, fun e => ?_⟩
    rw [hds.mem_iff, firsts_eq_iff.1 h]
  exact hes.unique hleft

/-- The entries have the same name, and the same value if a field declares it. -/
def AlikeUnder (fields : List Field) (e d : Entry) : Prop :=
  e.name = d.name ∧ (Field.declares fields e.name = true → e.value = d.value)

variable {fields : List Field}

theorem first?_eq_of_alike (h : List.Forall₂ (AlikeUnder fields) es ds) {key : String}
    (hkey : Field.declares fields key = true) : first? key es = first? key ds := by
  induction h with
  | nil => rfl
  | @cons e d es ds he _ ih =>
    obtain ⟨hname, hvalue⟩ := he
    rw [first?, first?, find?_name_cons, find?_name_cons, ← hname]
    by_cases hk : e.name = key
    · rw [if_pos hk, if_pos hk, Option.map_some, Option.map_some, hvalue (hk ▸ hkey)]
    · rw [if_neg hk, if_neg hk]
      exact ih

/-- The names that are left over depend on the names of the entries alone. -/
theorem residual_names_eq (h : es.map Entry.name = ds.map Entry.name) (fields : List Field) :
    (residual fields es).map Entry.name = (residual fields ds).map Entry.name := by
  have hes := List.pairwise_map.2 (leftover_residual fields es).ascending
  have hds := List.pairwise_map.2 (leftover_residual fields ds).ascending
  refine eq_of_ascending id hes hds fun name => ?_
  rw [mem_residual_names, mem_residual_names, h]

end Entry

/-! ### The outcome of a match -/

section

variable {refer : String → Matcher} {fields : List Field} {es ds : List Entry}

/-- A slot depends on the first entry of the key that its field declares. -/
theorem Field.slot_congr {field : Field}
    (h : ∀ key, field.key? = some key → Entry.first? key es = Entry.first? key ds) (p : Path) :
    field.slot refer es p = field.slot refer ds p := by
  cases field with
  | required | optional => simp only [slot, h _ rfl]
  | rest => rfl

/-- The slots depend on the first entries of the keys that the row declares. -/
theorem Spec.slots_congr
    (h : ∀ key, Field.declares fields key = true → Entry.first? key es = Entry.first? key ds)
    (p : Path) : slots refer es p fields = slots refer ds p fields := by
  rw [slots_eq_mapM, slots_eq_mapM]
  refine mapM_congr fun field hf => Field.slot_congr (fun key hkey => h key ?_) p
  exact List.any_eq_true.2 ⟨field, hf, beq_iff_eq.2 hkey⟩

theorem closeFields_eq_of_no_rest (hrest : Field.rest? fields = none)
    (h : (Entry.residual fields es).map Entry.name = (Entry.residual fields ds).map Entry.name)
    (p : Path) (slots : List (Option Term)) :
    closeFields fields es p slots = closeFields fields ds p slots := by
  have hempty : (Entry.residual fields es).isEmpty = (Entry.residual fields ds).isEmpty := by
    rw [← List.isEmpty_map (f := Entry.name), h, List.isEmpty_map]
  rw [closeFields_of_no_rest hrest, closeFields_of_no_rest hrest, hempty, h]

end

namespace Spec

variable {refer : String → Matcher} {spec : Spec} {fields : List Field} {v w : Value}
  {es ds : List Entry}

/-- **A match of a row depends on the first entries alone.** -/
theorem canonical_eq_of_firsts (hspec : spec.fields? = some fields) (hv : spec.entries? v = some es)
    (hw : spec.entries? w = some ds) (h : Entry.firsts es = Entry.firsts ds) (p : Path) :
    spec.canonical refer v p = spec.canonical refer w p := by
  have hclose : closeFields fields es p = closeFields fields ds p := by
    funext slots
    simp only [closeFields, Entry.residual_eq_of_firsts h]
  have hslots : slots refer es p fields = slots refer ds p fields :=
    slots_congr (fun key _ => Entry.first?_eq_of_firsts h key) p
  rw [canonical_of_fields hspec, canonical_of_fields hspec, hv, hw]
  simp only [hclose, hslots]

/-- Without a rest directive a match of a row depends only on the names of the entries and on the
values of those it declares. -/
theorem canonical_eq_of_no_rest (hspec : spec.fields? = some fields)
    (hrest : Field.rest? fields = none) (hv : spec.entries? v = some es)
    (hw : spec.entries? w = some ds) (h : List.Forall₂ (Entry.AlikeUnder fields) es ds) (p : Path) :
    spec.canonical refer v p = spec.canonical refer w p := by
  have hnames : es.map Entry.name = ds.map Entry.name := by
    rw [← List.forall₂_eq_eq_eq, List.forall₂_map_left_iff, List.forall₂_map_right_iff]
    exact h.imp fun _ _ he => he.1
  have hclose : closeFields fields es p = closeFields fields ds p :=
    funext (closeFields_eq_of_no_rest hrest (Entry.residual_names_eq hnames fields) p)
  have hslots : slots refer es p fields = slots refer ds p fields :=
    slots_congr (fun _ hkey => Entry.first?_eq_of_alike h hkey) p
  rw [canonical_of_fields hspec, canonical_of_fields hspec, hv, hw]
  simp only [hclose, hslots]

end Spec

/-! ### Maps and lists of pairs -/

/-- The pairs of a map, keyed by strings, are a proplist of the same entries. -/
theorem Value.proplist?_pairs (entries : List (String × Term)) :
    (native (.list (entries.map fun e => .pair e.1 e.2))).proplist? =
      (native (.map entries)).mapping? := by
  let es : List Entry := entries.map fun e => ⟨e.1, .str e.1, native e.2⟩
  have hlist : (entries.map fun e => Term.pair e.1 e.2) = es.map Entry.pair := by
    rw [List.map_map]
    rfl
  have hkeyed : ∀ e ∈ es, e.Keyed := by
    intro e he
    obtain ⟨x, _, rfl⟩ := List.mem_map.1 he
    rfl
  rw [hlist, Entry.proplist?_pairs hkeyed, List.map_map]
  rfl

namespace Definitions

/-- **Order, later entries and key forms do not show.**  A row of fields makes the same of two
values whose entries have one table of first entries, so entries of different names may change
places and names may come again.  Without a rest directive the entries may also have other keys for
their names, and other values unless a field declares them.  And a map is matched as an object in
the way in which its pairs are matched as a proplist. -/
theorem matching_of_firsts (defs : Definitions) (bound : Nat) (fields : List Field) (p : Path) :
    (∀ (spec : Spec) (v w : Value) (es ds : List Entry), spec.fields? = some fields →
      spec.entries? v = some es → spec.entries? w = some ds →
      (Entry.firsts es = Entry.firsts ds ∨
        (∀ name : String,
          es.filter (fun e => e.name == name) = ds.filter fun d => d.name == name) ∨
        Entry.Repeated [] es ds ∨
        Field.rest? fields = none ∧ List.Forall₂ (Entry.AlikeUnder fields) es ds) →
      defs.matching bound spec v p = defs.matching bound spec w p) ∧
    ∀ entries : List (String × Term),
      defs.matching bound (.object fields) (.native (.map entries)) p =
        defs.matching bound (.proplist fields)
          (.native (.list (entries.map fun e => .pair e.1 e.2))) p := by
  constructor
  · rintro spec v w es ds hspec hv hw (h | h | h | ⟨hrest, h⟩)
    · exact Spec.canonical_eq_of_firsts hspec hv hw h p
    · exact Spec.canonical_eq_of_firsts hspec hv hw (Entry.firsts_eq_of_filter_eq h) p
    · exact Spec.canonical_eq_of_firsts hspec hv hw h.firsts_eq p
    · exact Spec.canonical_eq_of_no_rest hspec hrest hv hw h p
  · intro entries
    simp only [matching, Spec.canonical, Value.proplist?_pairs, Value.mapping?]

/-- A key comes again in its other form and between entries of other names, under a rest directive
that would show it. -/
theorem matching_of_firsts_of_repeated_key :
    let fields : List Field := [.required "a" .integer, .rest .ok]
    let v : Value := .native (.list [.tuple [.atom "a", .int 1], .tuple [.str "x", .null]])
    let w : Value := .native (.list [.tuple [.str "x", .null], .tuple [.atom "a", .int 1],
      .tuple [.atom "x", .int 2], .tuple [.str "a", .str "later"]])
    ∃ es ds, Spec.entries? (.proplist fields) v = some es ∧
      Spec.entries? (.proplist fields) w = some ds ∧ Entry.firsts es = Entry.firsts ds ∧
      Definitions.matching [] 0 (.proplist fields) v Path.root =
        Definitions.matching [] 0 (.proplist fields) w Path.root ∧
      Definitions.matching [] 0 (.proplist fields) v Path.root =
        .ok (.tuple [.int 1, .list [.tuple [.str "x", .null]]]) := by
  intro fields v w
  refine ⟨_, _, rfl, rfl, rfl, ?_, rfl⟩
  exact (matching_of_firsts [] 0 fields Path.root).1 (.proplist fields) v w _ _ rfl rfl rfl
    (Or.inl rfl)

end Definitions

end Conform
