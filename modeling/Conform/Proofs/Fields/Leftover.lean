import Conform.Proofs.Term.Proplists
import Mathlib.Data.List.Sort

/-!
# The entries that a row of fields leaves over

`Leftover` says of a list of entries what it should be: the first entry of every name that is there
and that no field declares, in ascending order of the names.  There is only one such list,
`Leftover.unique`, and `Entry.residual` is it, `leftover_residual`.  So is what one gets by keeping
the first entry of every name and sorting afterwards, `leftover_eq_residual`.

The entries of a value are *keyed*: their keys spell their names.  So what a rest directive captures
is a proplist, `asProplist?_pairs`.
-/

namespace Conform

/-! ### Tables -/

/-- A list whose texts ascend strictly is determined by its members. -/
theorem eq_of_ascending {α : Type} (text : α → String) {xs ys : List α}
    (hx : xs.Pairwise fun a b => text a < text b) (hy : ys.Pairwise fun a b => text a < text b)
    (h : ∀ a, a ∈ xs ↔ a ∈ ys) : xs = ys := by
  have hirrefl : Std.Irrefl fun a b : α => text a < text b := ⟨fun a => String.lt_irrefl (text a)⟩
  have hantisymm : Std.Antisymm fun a b : α => text a < text b :=
    ⟨fun a b hab hba => absurd (String.lt_trans hab hba) (String.lt_irrefl (text a))⟩
  exact hx.eq_of_mem_iff hy h

namespace Table

variable {α β : Type}

/-- In a table the entries are what a look-up finds. -/
theorem Ascending.mem_iff {entries : List (String × α)} (h : Ascending entries) (name : String)
    (content : α) : (name, content) ∈ entries ↔ find? name entries = some content := by
  induction entries with
  | nil => simp
  | cons e rest ih =>
    obtain ⟨hfirst, hrest⟩ := List.pairwise_cons.1 h
    rw [List.mem_cons, ih hrest, find?_cons]
    by_cases he : e.1 = name
    · rw [if_pos he]
      constructor
      · rintro (rfl | hmem)
        · rfl
        · have hlt : e.1 < name := hfirst (name, content) ((ih hrest).2 hmem)
          exact absurd (he ▸ hlt) (String.lt_irrefl name)
      · intro hc
        exact Or.inl (Prod.ext he.symm (Option.some.inj hc).symm)
    · rw [if_neg he]
      constructor
      · rintro (rfl | hmem)
        · exact absurd rfl he
        · exact hmem
      · exact Or.inr

theorem mem_of_mem_firsts {entries : List (String × α)} {e : String × α} (h : e ∈ firsts entries) :
    e ∈ entries := by
  induction entries with
  | nil => exact h
  | cons d rest ih =>
    rcases mem_insert h with rfl | h
    · exact List.mem_cons_self
    · exact List.mem_cons_of_mem d (ih h)

theorem insert_map (g : α → β) (name : String) (content : α) (entries : List (String × α)) :
    insert name (g content) (entries.map fun e => (e.1, g e.2)) =
      (insert name content entries).map fun e => (e.1, g e.2) := by
  induction entries with
  | nil => rfl
  | cons e rest ih =>
    simp only [List.map_cons, insert]
    split
    · rfl
    · split
      · rfl
      · rw [ih]; rfl

theorem firsts_map (g : α → β) (entries : List (String × α)) :
    firsts (entries.map fun e => (e.1, g e.2)) = (firsts entries).map fun e => (e.1, g e.2) := by
  induction entries with
  | nil => rfl
  | cons e rest ih =>
    show insert e.1 (g e.2) (firsts (rest.map fun e => (e.1, g e.2))) = _
    rw [ih, insert_map]
    rfl

end Table

/-! ### Keys -/

/-- The key of the entry spells its name. -/
def Entry.Keyed (e : Entry) : Prop := e.key.keyName? = some e.name

theorem Value.keyed_of_mapping? {v : Value} {entries : List Entry} (h : v.mapping? = some entries) :
    ∀ e ∈ entries, e.Keyed := by
  have hstr : ∀ (name : String) (w : Value), Entry.Keyed ⟨name, .str name, w⟩ := fun _ _ => rfl
  intro e he
  cases v with
  | document d =>
    cases d with
    | object members =>
      cases h
      obtain ⟨m, _, rfl⟩ := List.mem_map.1 he
      exact hstr m.1 _
    | _ => cases h
  | native t =>
    cases t with
    | map es =>
      cases h
      obtain ⟨m, _, rfl⟩ := List.mem_map.1 he
      exact hstr m.1 _
    | _ => cases h

theorem Value.keyed_of_proplist? {v : Value} {entries : List Entry}
    (h : v.proplist? = some entries) : ∀ e ∈ entries, e.Keyed := by
  intro e he
  cases v with
  | document d => cases h
  | native t =>
    obtain ⟨pairs, _, hentries⟩ := Option.bind_eq_some_iff.1 h
    obtain ⟨pair, _, hpair⟩ := exists_of_mapM_eq_some hentries he
    obtain ⟨name, hname, rfl⟩ := Option.map_eq_some_iff.1 hpair
    exact hname

/-- Keyed entries, side by side with their keys, are a proplist. -/
theorem Entry.asProplist?_pairs {es : List Entry} (h : ∀ e ∈ es, e.Keyed) :
    (Term.list (es.map pair)).asProplist? = some (es.map fun e => (e.key, e.value.toTerm)) := by
  refine Term.asProplist?_eq_some_iff.2 ⟨?_, fun p hp => ?_⟩
  · rw [List.map_map]
    rfl
  · obtain ⟨e, he, rfl⟩ := List.mem_map.1 hp
    exact ⟨e.name, Term.keyName?_eq_some_iff.1 (h e he)⟩

/-- So keyed entries come back from the native list of their pairs, their values in native form. -/
theorem Entry.proplist?_pairs {es : List Entry} (h : ∀ e ∈ es, e.Keyed) :
    (Value.native (.list (es.map pair))).proplist? =
      some (es.map fun e => { e with value := .native e.value.toTerm }) := by
  refine Value.proplist?_eq_some_iff.2 ⟨_, asProplist?_pairs h, ?_⟩
  refine List.forall₂_map_left_iff.2 (List.forall₂_map_right_iff.2 ?_)
  exact List.forall₂_same.2 fun e he => ⟨rfl, rfl, Term.keyName?_eq_some_iff.1 (h e he)⟩

/-! ### What is left over -/

namespace Entry

/-- The entries `es` are what a row of fields leaves over of some entries: of each name that it does
not declare the first one, in ascending order of the names. -/
structure Leftover (fields : List Field) (entries es : List Entry) : Prop where
  ascending : es.Pairwise fun d e => d.name < e.name
  mem_iff : ∀ e, e ∈ es ↔
    Field.declares fields e.name = false ∧ entries.find? (fun d => d.name == e.name) = some e

/-- An entry is found under its name exactly if it is the first one of it. -/
theorem find?_name_eq_some_iff {entries : List Entry} {e : Entry} :
    entries.find? (fun d => d.name == e.name) = some e ↔
      ∃ before after, entries = before ++ e :: after ∧ ∀ d ∈ before, d.name ≠ e.name := by
  rw [List.find?_eq_some_iff_append]
  simp only [beq_self_eq_true, true_and, Bool.not_eq_true', beq_eq_false_iff_ne]

/-- There is only one list of what is left over. -/
theorem Leftover.unique {fields : List Field} {entries es ds : List Entry}
    (h : Leftover fields entries es) (h' : Leftover fields entries ds) : es = ds :=
  eq_of_ascending Entry.name h.ascending h'.ascending fun e =>
    (h.mem_iff e).trans (h'.mem_iff e).symm

theorem Leftover.keyed {fields : List Field} {entries es : List Entry}
    (h : Leftover fields entries es) (hkeyed : ∀ e ∈ entries, e.Keyed) : ∀ e ∈ es, e.Keyed := by
  intro e he
  have hfind := ((h.mem_iff e).1 he).2
  exact hkeyed e (List.mem_of_find?_eq_some hfind)

/-- A row that declares none of some entries leaves all of them over, if their names ascend. -/
theorem leftover_self {fields : List Field} {es : List Entry}
    (hasc : es.Pairwise fun d e => d.name < e.name)
    (hdecl : ∀ e ∈ es, Field.declares fields e.name = false) : Leftover fields es es := by
  refine ⟨hasc, fun e => ⟨fun he => ⟨hdecl e he, ?_⟩, fun h => List.mem_of_find?_eq_some h.2⟩⟩
  obtain ⟨before, after, rfl⟩ := List.append_of_mem he
  refine find?_name_eq_some_iff.2 ⟨before, after, rfl, fun d hd h => ?_⟩
  have hlt : d.name < e.name := (List.pairwise_append.1 hasc).2.2 d hd e List.mem_cons_self
  exact String.lt_irrefl e.name (h ▸ hlt)

/-- The undeclared entries of a row, under their names. -/
def undeclared (fields : List Field) (entries : List Entry) : List (String × Entry) :=
  (entries.filter fun e => !Field.declares fields e.name).map fun e => (e.name, e)

theorem residual_eq (fields : List Field) (entries : List Entry) :
    residual fields entries = (Table.firsts (undeclared fields entries)).map Prod.snd := rfl

/-- The first undeclared entry of a name is the first entry of a name that is not declared. -/
theorem find?_undeclared (fields : List Field) (entries : List Entry) (name : String) (e : Entry) :
    Table.find? name (undeclared fields entries) = some e ↔
      Field.declares fields name = false ∧ entries.find? (fun d => d.name == name) = some e := by
  induction entries with
  | nil => simp [undeclared]
  | cons d entries ih =>
    simp only [undeclared] at ih ⊢
    by_cases hd : d.name = name
    · subst hd
      cases hdecl : Field.declares fields d.name <;> simp_all [Table.find?_cons]
    · cases hdecl : Field.declares fields d.name <;> simp_all [Table.find?_cons]

theorem name_eq_of_mem_firsts {fields : List Field} {entries : List Entry} {x : String × Entry}
    (h : x ∈ Table.firsts (undeclared fields entries)) : x.1 = x.2.name := by
  obtain ⟨e, _, rfl⟩ := List.mem_map.1 (Table.mem_of_mem_firsts h)
  rfl

/-- **What a match leaves over is what it should leave over.** -/
theorem leftover_residual (fields : List Field) (entries : List Entry) :
    Leftover fields entries (residual fields entries) := by
  have hasc := Table.ascending_firsts (undeclared fields entries)
  constructor
  · rw [residual_eq, List.pairwise_map]
    refine hasc.imp_of_mem fun ha hb hab => ?_
    rwa [← name_eq_of_mem_firsts ha, ← name_eq_of_mem_firsts hb]
  · intro e
    rw [← find?_undeclared, ← Table.find?_firsts, ← hasc.mem_iff, residual_eq, List.mem_map]
    constructor
    · rintro ⟨x, hx, rfl⟩
      rw [← name_eq_of_mem_firsts hx]
      exact hx
    · intro he
      exact ⟨_, he, rfl⟩

/-- Of each name the first entry, in the order of the entries. -/
def firstOfEach : List Entry → List Entry
  | [] => []
  | e :: es => e :: (firstOfEach es).filter fun d => d.name != e.name

theorem mem_firstOfEach_iff {entries : List Entry} {e : Entry} :
    e ∈ firstOfEach entries ↔ entries.find? (fun d => d.name == e.name) = some e := by
  induction entries with
  | nil => simp [firstOfEach]
  | cons d entries ih =>
    rw [firstOfEach, List.mem_cons, List.mem_filter, ih, List.find?_cons]
    by_cases hname : d.name = e.name
    · simp [hname, eq_comm]
    · have hne : e ≠ d := fun heq => hname (congrArg Entry.name heq.symm)
      have htest : (d.name == e.name) = false := beq_eq_false_iff_ne.2 hname
      simp [htest, hne, Ne.symm hname]

theorem pairwise_firstOfEach (entries : List Entry) :
    (firstOfEach entries).Pairwise fun d e => d.name ≠ e.name := by
  induction entries with
  | nil => exact .nil
  | cons e entries ih =>
    refine .cons (fun d hd => ?_) (ih.filter _)
    have hne : d.name ≠ e.name := by simpa using (List.mem_filter.1 hd).2
    exact hne.symm

/-- What a row of fields leaves over of some entries, sorted when it has been found. -/
def leftover (fields : List Field) (entries : List Entry) : List Entry :=
  (firstOfEach (entries.filter fun e => !Field.declares fields e.name)).mergeSort
    fun d e => d.name ≤ e.name

theorem leftover_leftover (fields : List Field) (entries : List Entry) :
    Leftover fields entries (leftover fields entries) := by
  constructor
  · have hle : (leftover fields entries).Pairwise fun d e => d.name ≤ e.name := by
      refine (List.pairwise_mergeSort (fun a b c => ?_) (fun a b => ?_) _).imp of_decide_eq_true
      · simpa using String.le_trans
      · simpa using String.le_total a.name b.name
    have hne : (leftover fields entries).Pairwise fun d e => d.name ≠ e.name :=
      (List.mergeSort_perm _ _).symm.pairwise (pairwise_firstOfEach _) Ne.symm
    refine (hle.and hne).imp fun {d e} h => ?_
    exact Decidable.byContradiction fun hlt => h.2 (String.le_antisymm h.1 (String.not_lt.1 hlt))
  · intro e
    have hid : (Prod.snd ∘ fun d : Entry => (d.name, d)) = id := rfl
    rw [leftover, List.mem_mergeSort, mem_firstOfEach_iff, ← find?_undeclared, Table.find?,
      undeclared, List.find?_map, Option.map_map, hid, Option.map_id_apply]
    rfl

/-- The two ways to find what is left over agree. -/
theorem leftover_eq_residual (fields : List Field) (entries : List Entry) :
    leftover fields entries = residual fields entries :=
  (leftover_leftover fields entries).unique (leftover_residual fields entries)

/-- The names that are left over are those that are there and not declared. -/
theorem mem_residual_names {fields : List Field} {entries : List Entry} {name : String} :
    name ∈ (residual fields entries).map Entry.name ↔
      Field.declares fields name = false ∧ name ∈ entries.map Entry.name := by
  have hres := leftover_residual fields entries
  constructor
  · intro h
    obtain ⟨e, he, rfl⟩ := List.mem_map.1 h
    obtain ⟨hdecl, hfind⟩ := (hres.mem_iff e).1 he
    exact ⟨hdecl, List.mem_map_of_mem (List.mem_of_find?_eq_some hfind)⟩
  · rintro ⟨hdecl, hname⟩
    obtain ⟨d, hd, rfl⟩ := List.mem_map.1 hname
    cases hfind : entries.find? fun e => e.name == d.name with
    | none => exact absurd (beq_self_eq_true _) (List.find?_eq_none.1 hfind d hd)
    | some e =>
      have he : e.name = d.name := by simpa using List.find?_some hfind
      exact List.mem_map.2 ⟨e, (hres.mem_iff e).2 ⟨he ▸ hdecl, he ▸ hfind⟩, he⟩

/-- What is left over depends on an entry only through its name. -/
theorem residual_map {g : Entry → Entry} (h : ∀ e, (g e).name = e.name) (fields : List Field)
    (entries : List Entry) :
    residual fields (entries.map g) = (residual fields entries).map g := by
  have hmap : undeclared fields (entries.map g) =
      (undeclared fields entries).map fun x => (x.1, g x.2) := by
    simp only [undeclared, List.filter_map, List.map_map, Function.comp_def, h]
  rw [residual_eq, residual_eq, hmap, Table.firsts_map, List.map_map, List.map_map]
  rfl

end Entry

end Conform
