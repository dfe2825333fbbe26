import Conform.Proofs.Settings.Faults
import Conform.Settings.Operation
import Mathlib.Data.Finmap

/-!
# Stores are flat maps

A store keeps a table of tables.  Seen from outside it is one finite map from pairs of a namespace
and a key to values, a `FlatMap`, on which every operation is a single map operation: storing
inserts, removing erases, and a load overlays the map with what its tree holds, or leaves it as it
is and names the fault of the tree.

* `Performs` and `Runs` say so for one operation and for a row of them, from the leaves of a tree
  and the documents that these denote; by `Performs.unique` and `Runs.unique` they are functions.
* `WellFormed` is the invariant of the two levels: both ascend, and no namespace is empty.
* `Holds.perform`: an operation has the same answer on a well-formed store and on the map that it
  holds, and the store after it holds the map after it.  By `Holds.run` so has a row of operations.
* `run_represents`: after every history that begins with the empty store, what can be seen of the
  store is the flat map of the history.
-/

namespace Conform

/-- A finite map from pairs of a namespace and a key to values. -/
abbrev FlatMap := Finmap fun _ : String × String => Value

/-! ### Operations on a map -/

namespace FlatMap

/-- What an operation answers on a map, and the map after it. -/
inductive Performs : Store.Operation → FlatMap → Store.Answer → FlatMap → Prop
  | set (ns key : String) (v : Value) (m : FlatMap) :
    Performs (.set ns key v) m (.previous (m.lookup (ns, key))) (m.insert (ns, key) v)
  | remove (ns key : String) (m : FlatMap) :
    Performs (.remove ns key) m (.previous (m.lookup (ns, key))) (m.erase (ns, key))
  | malformed (m : FlatMap) : Performs (.load none) m (.rejected .malformed) m
  | loaded {tree : Yaml} {m m' : FlatMap} : tree.Loadable →
    tree.Overlays (fun ns key => m'.lookup (ns, key)) (fun ns key => m.lookup (ns, key)) →
    Performs (.load (some tree)) m (.loaded tree.leaves.length) m'
  | refused {tree : Yaml} {fault : LoadFault} (m : FlatMap) : tree.Refused fault →
    Performs (.load (some tree)) m (.rejected fault) m

/-- What a row of operations answers on a map, and the map after it. -/
inductive Runs : List Store.Operation → FlatMap → List Store.Answer → FlatMap → Prop
  | nil (m : FlatMap) : Runs [] m [] m
  | cons {op : Store.Operation} {ops : List Store.Operation} {m m' m'' : FlatMap}
    {answer : Store.Answer} {answers : List Store.Answer} :
    Performs op m answer m' → Runs ops m' answers m'' →
    Runs (op :: ops) m (answer :: answers) m''

theorem lookup_insert_pair (m : FlatMap) (ns key ns' key' : String) (v : Value) :
    (m.insert (ns, key) v).lookup (ns', key') =
      if ns' = ns ∧ key' = key then some v else m.lookup (ns', key') := by
  by_cases hpair : (ns', key') = (ns, key)
  · rw [if_pos (Prod.mk.inj hpair), hpair, Finmap.lookup_insert]
  · have hne : ¬ (ns' = ns ∧ key' = key) := fun h => hpair (congrArg₂ Prod.mk h.1 h.2)
    rw [if_neg hne, Finmap.lookup_insert_of_ne m hpair]

theorem lookup_erase_pair (m : FlatMap) (ns key ns' key' : String) :
    (m.erase (ns, key)).lookup (ns', key') =
      if ns' = ns ∧ key' = key then none else m.lookup (ns', key') := by
  by_cases hpair : (ns', key') = (ns, key)
  · rw [if_pos (Prod.mk.inj hpair), hpair, Finmap.lookup_erase]
  · have hne : ¬ (ns' = ns ∧ key' = key) := fun h => hpair (congrArg₂ Prod.mk h.1 h.2)
    rw [if_neg hne, Finmap.lookup_erase_ne hpair]

/-- An operation has one answer and leaves one map. -/
theorem Performs.unique {op : Store.Operation} {m m' m'' : FlatMap} {a b : Store.Answer}
    (h : Performs op m a m') (h' : Performs op m b m'') : a = b ∧ m' = m'' := by
  cases h with
  | set | remove | malformed =>
    cases h'
    exact ⟨rfl, rfl⟩
  | loaded hloadable hover =>
    cases h' with
    | loaded _ hover' =>
      exact ⟨rfl, Finmap.ext_lookup fun pair => hover.unique hover' pair.1 pair.2⟩
    | refused _ hrefused => exact absurd hrefused (Yaml.loadable_iff_not_refused.1 hloadable _)
  | refused _ hrefused =>
    cases h' with
    | loaded hloadable _ => exact absurd hrefused (Yaml.loadable_iff_not_refused.1 hloadable _)
    | refused _ hrefused' => exact ⟨congrArg Store.Answer.rejected (hrefused.unique hrefused'), rfl⟩

/-- A row of operations has one row of answers and leaves one map. -/
theorem Runs.unique {ops : List Store.Operation} {m m' : FlatMap} {as : List Store.Answer}
    (h : Runs ops m as m') : ∀ {bs : List Store.Answer} {m'' : FlatMap}, Runs ops m bs m'' →
      as = bs ∧ m' = m'' := by
  induction h with
  | nil =>
    intro bs m'' h'
    cases h'
    exact ⟨rfl, rfl⟩
  | cons hop _ ih =>
    intro bs m'' h'
    cases h' with
    | cons hop' hops' =>
      obtain ⟨rfl, rfl⟩ := hop.unique hop'
      obtain ⟨rfl, rfl⟩ := ih hops'
      exact ⟨rfl, rfl⟩

end FlatMap

/-! ### Settings over a map -/

/-- The pair and the value of a setting that is loaded. -/
def Setting.entry (s : Setting) : Σ _ : String × String, Value :=
  ⟨(s.ns, s.key), .document s.content⟩

/-- Among settings that are loaded, the first one of a pair. -/
theorem dlookup_entries (ns key : String) (settings : List Setting) :
    (settings.map Setting.entry).dlookup (ns, key) =
      (settings.find? fun s => s.ns == ns && s.key == key).map fun s => .document s.content := by
  induction settings with
  | nil => rfl
  | cons s settings ih =>
    rw [List.map_cons, List.find?_cons]
    by_cases hpair : ns = s.ns ∧ key = s.key
    · obtain ⟨rfl, rfl⟩ := hpair
      have hentry : s.entry = ⟨(s.ns, s.key), .document s.content⟩ := rfl
      rw [hentry, List.dlookup_cons_eq, beq_self_eq_true, beq_self_eq_true]
      rfl
    · have hne : (ns, key) ≠ s.entry.1 := fun h =>
        hpair ⟨congrArg Prod.fst h, congrArg Prod.snd h⟩
      have htest : (s.ns == ns && s.key == key) = false := by
        rw [Bool.and_eq_false_iff, beq_eq_false_iff_ne, beq_eq_false_iff_ne]
        by_cases hns : s.ns = ns
        · exact Or.inr fun hkey => hpair ⟨hns.symm, hkey.symm⟩
        · exact Or.inl hns
      rw [List.dlookup_cons_ne _ _ hne, ih, htest]

namespace FlatMap

/-- Settings over a map; where a pair is set several times, the last setting counts. -/
def overlay (m : FlatMap) (settings : List Setting) : FlatMap :=
  (settings.reverse.map Setting.entry).toFinmap ∪ m

theorem lookup_overlay (settings : List Setting) (m : FlatMap) (pair : String × String) :
    (m.overlay settings).lookup pair =
      ((settings.reverse.map Setting.entry).dlookup pair).or (m.lookup pair) := by
  rw [overlay, ← Finmap.dlookup_list_toFinmap]
  by_cases h : pair ∈ (settings.reverse.map Setting.entry).toFinmap
  · obtain ⟨v, hv⟩ := Finmap.mem_iff.1 h
    rw [Finmap.lookup_union_left h, hv, Option.some_or]
  · rw [Finmap.lookup_union_right h, Finmap.lookup_eq_none.2 h, Option.none_or]

theorem overlays_overlay {tree : Yaml} {ss : List Setting} (h : tree.settings = .ok ss)
    (m : FlatMap) :
    tree.Overlays (fun ns key => (m.overlay ss).lookup (ns, key))
      (fun ns key => m.lookup (ns, key)) := by
  refine Yaml.overlays_of_settings h fun ns key => ?_
  show (m.overlay ss).lookup (ns, key) = _
  rw [lookup_overlay, dlookup_entries]

end FlatMap

/-! ### The invariant of the two levels -/

namespace Store

/-- Namespaces and the keys of each ascend strictly, and every namespace has a setting. -/
structure WellFormed (store : Store) : Prop where
  ascending : Table.Ascending store.namespaces
  settings_ascending : ∀ n ∈ store.namespaces, Table.Ascending n.2
  settings_ne_nil : ∀ n ∈ store.namespaces, n.2 ≠ []

theorem wellFormed_empty : empty.WellFormed :=
  ⟨List.Pairwise.nil, (fun _ h => nomatch h), fun _ h => nomatch h⟩

namespace WellFormed

variable {store : Store}

theorem ascending_settings (h : store.WellFormed) (ns : String) :
    Table.Ascending (store.settings ns) := by
  unfold settings
  cases hns : Table.find? ns store.namespaces with
  | none => exact List.Pairwise.nil
  | some settings => exact h.settings_ascending _ (Table.mem_of_find? hns)

/-- The settings of a namespace may be replaced by other ones. -/
theorem insert (h : store.WellFormed) (ns : String) {settings : List (String × Value)}
    (hasc : Table.Ascending settings) (hne : settings ≠ []) :
    WellFormed { namespaces := Table.insert ns settings store.namespaces } := by
  refine ⟨h.ascending.insert ns settings, fun n hn => ?_, fun n hn => ?_⟩
  · rcases Table.mem_insert hn with rfl | hn
    · exact hasc
    · exact h.settings_ascending n hn
  · rcases Table.mem_insert hn with rfl | hn
    · exact hne
    · exact h.settings_ne_nil n hn

theorem set (h : store.WellFormed) (ns key : String) (v : Value) :
    (store.set ns key v).WellFormed := by
  refine h.insert ns ((h.ascending_settings ns).insert key v) fun hnil => ?_
  have hfind := Table.find?_insert_self key v (store.settings ns)
  rw [hnil] at hfind
  cases hfind

theorem remove (h : store.WellFormed) (ns key : String) : (store.remove ns key).WellFormed := by
  unfold Store.remove
  cases hns : Table.find? ns store.namespaces with
  | none => exact h
  | some settings =>
    have hasc : Table.Ascending settings := h.settings_ascending _ (Table.mem_of_find? hns)
    dsimp only
    split
    · -- the last setting of the namespace is gone, and the namespace with it
      have hsub : Table.erase ns store.namespaces ⊆ store.namespaces := List.filter_subset_self _
      exact ⟨h.ascending.erase ns, fun n hn => h.settings_ascending n (hsub hn),
        fun n hn => h.settings_ne_nil n (hsub hn)⟩
    · rename_i hleft
      exact h.insert ns (hasc.erase key) fun hnil => hleft (List.isEmpty_iff.2 hnil)

theorem merge (settings : List Setting) :
    ∀ {store : Store}, store.WellFormed → (store.merge settings).WellFormed := by
  induction settings with
  | nil => exact fun h => h
  | cons s settings ih => exact fun h => ih (h.set s.ns s.key (.document s.content))

end WellFormed

/-! ### What a merge does -/

/-- Merging settings is putting them over the store, the last one of a pair first. -/
theorem get?_merge (settings : List Setting) (ns key : String) : ∀ store : Store,
    (store.merge settings).get? ns key =
      ((settings.reverse.map Setting.entry).dlookup (ns, key)).or (store.get? ns key) := by
  induction settings with
  | nil => intro store; rfl
  | cons s settings ih =>
    intro store
    have hstep : store.merge (s :: settings) =
        (store.set s.ns s.key (.document s.content)).merge settings := rfl
    rw [hstep, ih, get?_set, List.reverse_cons, List.map_append, List.dlookup_append,
      Option.or_assoc]
    congr 1
    by_cases hpair : ns = s.ns ∧ key = s.key
    · obtain ⟨rfl, rfl⟩ := hpair
      rw [if_pos ⟨rfl, rfl⟩, List.map_singleton, Setting.entry, List.dlookup_cons_eq,
        Option.some_or]
    · have hne : (ns, key) ≠ s.entry.1 := fun h =>
        hpair ⟨congrArg Prod.fst h, congrArg Prod.snd h⟩
      rw [if_neg hpair, List.map_singleton, List.dlookup_cons_ne _ _ hne, List.dlookup_nil,
        Option.none_or]

/-! ### Representation -/

/-- The store is well-formed and has under each pair what the map has. -/
structure Holds (store : Store) (m : FlatMap) : Prop where
  wellFormed : store.WellFormed
  get : ∀ ns key, store.get? ns key = m.lookup (ns, key)

/-- **One operation.**  A store that holds a map answers as the map does, and holds afterwards what
the map is then. -/
theorem Holds.perform {store : Store} {m : FlatMap} (h : store.Holds m) (op : Operation) :
    ∃ m', m.Performs op (store.perform op).1 m' ∧ (store.perform op).2.Holds m' := by
  cases op with
  | set ns key v =>
    have hanswer : (store.perform (.set ns key v)).1 = .previous (m.lookup (ns, key)) :=
      congrArg Answer.previous (h.get ns key)
    refine ⟨m.insert (ns, key) v, hanswer ▸ .set ns key v m, h.wellFormed.set ns key v,
      fun ns' key' => ?_⟩
    show (store.set ns key v).get? ns' key' = (m.insert (ns, key) v).lookup (ns', key')
    rw [get?_set, FlatMap.lookup_insert_pair, h.get]
  | remove ns key =>
    have hanswer : (store.perform (.remove ns key)).1 = .previous (m.lookup (ns, key)) :=
      congrArg Answer.previous (h.get ns key)
    refine ⟨m.erase (ns, key), hanswer ▸ .remove ns key m, h.wellFormed.remove ns key,
      fun ns' key' => ?_⟩
    show (store.remove ns key).get? ns' key' = (m.erase (ns, key)).lookup (ns', key')
    rw [get?_remove, FlatMap.lookup_erase_pair, h.get]
  | load tree =>
    cases tree with
    | none => exact ⟨m, .malformed m, h⟩
    | some tree =>
      simp only [Store.perform, load]
      cases hss : tree.settings with
      | error fault => exact ⟨m, .refused m (Yaml.settings_eq_error_iff.1 hss), h⟩
      | ok settings =>
        have hloadable : tree.Loadable := (Yaml.exists_settings_iff tree).1 ⟨settings, hss⟩
        have hcount : settings.length = tree.leaves.length :=
          (Yaml.yields_of_settings hss).length_eq.symm
        refine ⟨m.overlay settings, ?_, h.wellFormed.merge settings, fun ns key => ?_⟩
        · show m.Performs (.load (some tree)) (.loaded settings.length) (m.overlay settings)
          rw [hcount]
          exact .loaded hloadable (FlatMap.overlays_overlay hss m)
        · show (store.merge settings).get? ns key = (m.overlay settings).lookup (ns, key)
          rw [get?_merge, h.get, FlatMap.lookup_overlay]

/-- **A row of operations**, on a store and on the map that it holds. -/
theorem Holds.run (ops : List Operation) : ∀ {store : Store} {m : FlatMap}, store.Holds m →
    ∃ m', m.Runs ops (store.run ops).1 m' ∧ (store.run ops).2.Holds m' := by
  induction ops with
  | nil => exact fun {_ m} h => ⟨m, .nil m, h⟩
  | cons op ops ih =>
    intro store m h
    obtain ⟨m', hanswer, hnext⟩ := h.perform op
    obtain ⟨m'', hanswers, hlast⟩ := ih hnext
    exact ⟨m'', .cons hanswer hanswers, hlast⟩

/-! ### What can be seen -/

/-- The store is observably the map: every look-up finds what the map has, the keys of a namespace
are those under which something is found, in ascending order and each once, and no namespace is kept
without a setting. -/
structure Represents (store : Store) (m : FlatMap) : Prop where
  get : ∀ ns key, store.get? ns key = m.lookup (ns, key)
  keys_ascending : ∀ ns, (store.keys ns).Pairwise (· < ·)
  keys_nodup : ∀ ns, (store.keys ns).Nodup
  mem_keys : ∀ ns key, key ∈ store.keys ns ↔ (store.get? ns key).isSome = true
  settings_ne_nil : ∀ n ∈ store.namespaces, n.2 ≠ []

theorem Holds.represents {store : Store} {m : FlatMap} (h : store.Holds m) :
    store.Represents m := by
  have hasc : ∀ ns, (store.keys ns).Pairwise (· < ·) := fun ns =>
    List.pairwise_map.2 (h.wellFormed.ascending_settings ns)
  refine ⟨h.get, hasc, fun ns => ?_, fun ns key => Table.mem_names_iff,
    h.wellFormed.settings_ne_nil⟩
  refine (hasc ns).imp fun {a b} (hlt : a < b) (heq : a = b) => ?_
  exact String.lt_irrefl b (heq ▸ hlt)

/-- **A store is the flat map of its history.**  Any row of operations has one row of answers on
the empty map and leaves one map there; on the empty store each of them has answered likewise, and
the store is observably this map. -/
theorem run_represents (ops : List Operation) :
    ∃ m, (∀ answers m', FlatMap.Runs ops ∅ answers m' ↔ answers = (empty.run ops).1 ∧ m' = m) ∧
      (empty.run ops).2.Represents m := by
  have hempty : empty.Holds ∅ := ⟨wellFormed_empty, fun _ _ => rfl⟩
  obtain ⟨m, hruns, hholds⟩ := hempty.run ops
  refine ⟨m, fun answers m' => ⟨fun h => h.unique hruns, ?_⟩, hholds.represents⟩
  rintro ⟨rfl, rfl⟩
  exact hruns

end Store

end Conform
