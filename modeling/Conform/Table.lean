/-!
# Tables

A table is a list of named entries in strictly ascending order of their names, the order of code
points.  It is what an object of a document and a store of settings are made of.

* `Ascending` says that a list is a table; `insert` and `erase` keep it.
* `find?_insert` and `find?_erase` say what the operations do to a look-up.
-/

namespace Conform

namespace Table

variable {α : Type}

/-- The names ascend strictly. -/
def Ascending (entries : List (String × α)) : Prop :=
  entries.Pairwise fun a b => a.1 < b.1

instance (entries : List (String × α)) : Decidable (Ascending entries) :=
  inferInstanceAs (Decidable (List.Pairwise _ _))

/-- The content of the entry of a name. -/
def find? (name : String) (entries : List (String × α)) : Option α :=
  (entries.find? fun e => e.1 == name).map Prod.snd

/-- Puts an entry at its place, in place of the one of the same name if there is one. -/
def insert (name : String) (content : α) : List (String × α) → List (String × α)
  | [] => [(name, content)]
  | e :: rest =>
    if name = e.1 then (name, content) :: rest
    else if name < e.1 then (name, content) :: e :: rest
    else e :: insert name content rest

/-- Takes out the entry of a name. -/
def erase (name : String) (entries : List (String × α)) : List (String × α) :=
  entries.filter fun e => e.1 != name

/-- The table of the given entries, the last one of a name counting. -/
def ofList (entries : List (String × α)) : List (String × α) :=
  entries.foldl (fun table e => insert e.1 e.2 table) []

/-- The table of the given entries, the first one of a name counting. -/
def firsts (entries : List (String × α)) : List (String × α) :=
  entries.foldr (fun e table => insert e.1 e.2 table) []

/-- The names of a list of entries. -/
def names (entries : List (String × α)) : List String := entries.map Prod.fst

@[simp] theorem find?_nil (name : String) : find? name ([] : List (String × α)) = none := rfl

theorem find?_cons (name : String) (e : String × α) (rest : List (String × α)) :
    find? name (e :: rest) = if e.1 = name then some e.2 else find? name rest := by
  by_cases h : e.1 = name <;> simp [find?, h]

@[simp] theorem find?_insert_self (name : String) (content : α) (entries : List (String × α)) :
    find? name (insert name content entries) = some content := by
  induction entries with
  | nil => simp [insert, find?_cons]
  | cons e rest ih =>
    unfold insert
    split
    · simp [find?_cons]
    · split
      · simp [find?_cons]
      · rename_i h _
        rw [find?_cons, if_neg fun h' => h h'.symm, ih]

theorem find?_insert_of_ne {name other : String} (h : other ≠ name) (content : α)
    (entries : List (String × α)) :
    find? other (insert name content entries) = find? other entries := by
  induction entries with
  | nil => simp [insert, find?_cons, h.symm]
  | cons e rest ih =>
    unfold insert
    split
    · rename_i he
      rw [find?_cons, find?_cons, if_neg h.symm, if_neg (he ▸ h.symm)]
    · split
      · rw [find?_cons, if_neg h.symm]
      · rw [find?_cons, find?_cons, ih]

/-- The names of a list are those that a look-up finds. -/
theorem mem_names_iff {name : String} {entries : List (String × α)} :
    name ∈ names entries ↔ (find? name entries).isSome = true := by
  induction entries with
  | nil => simp [names]
  | cons e rest ih =>
    rw [find?_cons]
    by_cases h : e.1 = name
    · simp [names, h]
    · rw [if_neg h, ← ih]
      simp [names, Ne.symm h]

theorem find?_erase_self (name : String) (entries : List (String × α)) :
    find? name (erase name entries) = none := by
  induction entries with
  | nil => rfl
  | cons e rest ih =>
    by_cases h : e.1 = name
    · simpa [erase, h] using ih
    · simp only [erase, bne_iff_ne, ne_eq, h, not_false_eq_true, List.filter_cons_of_pos] at ih ⊢
      rw [find?_cons, if_neg h]
      exact ih

theorem find?_erase_of_ne {name other : String} (h : other ≠ name) (entries : List (String × α)) :
    find? other (erase name entries) = find? other entries := by
  induction entries with
  | nil => rfl
  | cons e rest ih =>
    by_cases he : e.1 = name
    · rw [find?_cons, if_neg (he ▸ h.symm)]
      simpa [erase, he] using ih
    · simp only [erase, bne_iff_ne, ne_eq, he, not_false_eq_true, List.filter_cons_of_pos] at ih ⊢
      rw [find?_cons, find?_cons, ih]

/-- Every name of an insertion is the inserted one or was there before. -/
theorem mem_insert {name : String} {content : α} {entries : List (String × α)}
    {e : String × α} (h : e ∈ insert name content entries) : e = (name, content) ∨ e ∈ entries := by
  induction entries with
  | nil => simpa [insert] using h
  | cons d rest ih =>
    unfold insert at h
    split at h
    · rcases List.mem_cons.1 h with h | h
      · exact Or.inl h
      · exact Or.inr (List.mem_cons_of_mem _ h)
    · split at h
      · rcases List.mem_cons.1 h with h | h
        · exact Or.inl h
        · exact Or.inr h
      · rcases List.mem_cons.1 h with h | h
        · exact Or.inr (h ▸ List.mem_cons_self)
        · exact (ih h).imp id (List.mem_cons_of_mem _)

theorem Ascending.insert {entries : List (String × α)} (h : Ascending entries) (name : String)
    (content : α) : Ascending (Table.insert name content entries) := by
  induction entries with
  | nil => simp [Table.insert, Ascending]
  | cons e rest ih =>
    have hs := List.pairwise_cons.1 h
    unfold Table.insert
    split
    · rename_i he
      exact List.pairwise_cons.2 ⟨fun d hd => he ▸ hs.1 d hd, hs.2⟩
    · split
      · rename_i hlt
        refine List.pairwise_cons.2 ⟨fun d hd => ?_, h⟩
        rcases List.mem_cons.1 hd with rfl | hd
        · exact hlt
        · exact String.lt_trans hlt (hs.1 d hd)
      · rename_i hne hnlt
        refine List.pairwise_cons.2 ⟨fun d hd => ?_, ih hs.2⟩
        rcases mem_insert hd with rfl | hd
        · exact Std.lt_of_le_of_ne (String.not_lt.1 hnlt) fun h => hne h.symm
        · exact hs.1 d hd

theorem ascending_firsts (entries : List (String × α)) : Ascending (firsts entries) := by
  induction entries with
  | nil => exact List.Pairwise.nil
  | cons e rest ih => exact ih.insert e.1 e.2

theorem ascending_ofList (entries : List (String × α)) : Ascending (ofList entries) := by
  suffices h : ∀ table : List (String × α), Ascending table →
      Ascending (entries.foldl (fun table e => insert e.1 e.2 table) table) from
    h [] List.Pairwise.nil
  induction entries with
  | nil => exact fun _ h => h
  | cons e rest ih => exact fun table h => ih _ (h.insert e.1 e.2)

/-- A table of first entries looks up what the list does. -/
theorem find?_firsts (name : String) (entries : List (String × α)) :
    find? name (firsts entries) = find? name entries := by
  induction entries with
  | nil => rfl
  | cons e rest ih =>
    rw [find?_cons, ← ih]
    by_cases h : e.1 = name
    · rw [if_pos h, ← h]
      exact find?_insert_self _ _ _
    · rw [if_neg h]
      exact find?_insert_of_ne (Ne.symm h) _ _

/-- A table of last entries looks up from the end of the list. -/
theorem find?_ofList (name : String) (entries : List (String × α)) :
    find? name (ofList entries) = find? name entries.reverse := by
  have hfirsts : ofList entries = firsts entries.reverse := List.foldr_reverse.symm
  rw [hfirsts, find?_firsts]

theorem Ascending.erase {entries : List (String × α)} (h : Ascending entries) (name : String) :
    Ascending (Table.erase name entries) :=
  List.Pairwise.sublist List.filter_sublist h

/-- The content of an entry that a look-up finds is in the list under its name. -/
theorem mem_of_find? {name : String} {content : α} {entries : List (String × α)}
    (h : find? name entries = some content) : (name, content) ∈ entries := by
  obtain ⟨e, he, rfl⟩ := Option.map_eq_some_iff.1 h
  have hname : e.1 = name := by simpa using List.find?_some he
  exact hname ▸ List.mem_of_find?_eq_some he

end Table

end Conform
