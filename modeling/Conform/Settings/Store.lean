import Conform.Document.Basic
import Conform.Table
import Conform.Value

/-!
# Stores of settings

A setting is stored under a namespace and a key.  A `Store` is a table of namespaces, each a table
of its settings; a namespace without settings is not in it.

The tables ascend by name, and they stand for hash maps, in which names have no order: a map is then
one table, whatever it went through.  The keys of a hash map have to be collected and sorted when
they are asked for.  The names of a table are in that order already, so `Store.keys` has nothing
left to sort.

* `Store.get?_set` and `Store.get?_remove`: seen through `get?`, the store is a finite map from
  pairs of names to values.
-/

namespace Conform

/-- Settings in memory. -/
structure Store where
  namespaces : List (String × List (String × Value))

namespace Store

/-- The store without settings. -/
def empty : Store := { namespaces := [] }

instance : Inhabited Store := ⟨empty⟩

/-- The settings of a namespace, by key. -/
def settings (store : Store) (ns : String) : List (String × Value) :=
  (Table.find? ns store.namespaces).getD []

/-- The value stored under a namespace and a key. -/
def get? (store : Store) (ns key : String) : Option Value := Table.find? key (store.settings ns)

/-- The keys that are set in a namespace, in ascending order. -/
def keys (store : Store) (ns : String) : List String := Table.names (store.settings ns)

/-- Stores a value. -/
def set (store : Store) (ns key : String) (v : Value) : Store :=
  { namespaces := Table.insert ns (Table.insert key v (store.settings ns)) store.namespaces }

/-- Takes a value out, and its namespace with it if it was the last one there. -/
def remove (store : Store) (ns key : String) : Store :=
  match Table.find? ns store.namespaces with
  | none => store
  | some settings =>
    let left := Table.erase key settings
    if left.isEmpty then { namespaces := Table.erase ns store.namespaces }
    else { namespaces := Table.insert ns left store.namespaces }

@[simp] theorem get?_empty (ns key : String) : empty.get? ns key = none := rfl

theorem settings_set (store : Store) (ns key other : String) (v : Value) :
    (store.set ns key v).settings other =
      if other = ns then Table.insert key v (store.settings ns) else store.settings other := by
  unfold settings set
  split
  · rename_i h
    rw [h, Table.find?_insert_self]
    rfl
  · rename_i h
    rw [Table.find?_insert_of_ne h]

theorem settings_remove (store : Store) (ns key other : String) :
    (store.remove ns key).settings other =
      if other = ns then Table.erase key (store.settings ns) else store.settings other := by
  by_cases ho : other = ns
  · subst ho
    rw [if_pos rfl]
    unfold settings remove
    cases h : Table.find? other store.namespaces with
    | none => simp [h, Table.erase]
    | some settings =>
      dsimp only
      split
      · rename_i hl
        rw [Table.find?_erase_self]
        exact (List.isEmpty_iff.1 hl).symm
      · rw [Table.find?_insert_self]
        rfl
  · rw [if_neg ho]
    unfold settings remove
    cases h : Table.find? ns store.namespaces with
    | none => rfl
    | some settings =>
      dsimp only
      split
      · rw [Table.find?_erase_of_ne ho]
      · rw [Table.find?_insert_of_ne ho]

/-- **Storing is a map update.** -/
theorem get?_set (store : Store) (ns key ns' key' : String) (v : Value) :
    (store.set ns key v).get? ns' key' =
      if ns' = ns ∧ key' = key then some v else store.get? ns' key' := by
  unfold get?
  rw [settings_set]
  by_cases hns : ns' = ns
  · subst hns
    rw [if_pos rfl]
    by_cases hkey : key' = key
    · subst hkey
      rw [if_pos ⟨rfl, rfl⟩, Table.find?_insert_self]
    · rw [if_neg fun h => hkey h.2, Table.find?_insert_of_ne hkey]
  · rw [if_neg hns, if_neg fun h => hns h.1]

/-- **Removing is a map deletion.** -/
theorem get?_remove (store : Store) (ns key ns' key' : String) :
    (store.remove ns key).get? ns' key' =
      if ns' = ns ∧ key' = key then none else store.get? ns' key' := by
  unfold get?
  rw [settings_remove]
  by_cases hns : ns' = ns
  · subst hns
    rw [if_pos rfl]
    by_cases hkey : key' = key
    · subst hkey
      rw [if_pos ⟨rfl, rfl⟩, Table.find?_erase_self]
    · rw [if_neg fun h => hkey h.2, Table.find?_erase_of_ne hkey]
  · rw [if_neg hns, if_neg fun h => hns h.1]

end Store

end Conform
