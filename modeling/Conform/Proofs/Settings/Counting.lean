import Conform.Proofs.Settings.Loading
import Mathlib.Data.List.Dedup

/-!
# How many settings a load counts

A load answers with the number of leaves of its tree, `Yaml.names` being their pairs of names.  What
the store reports after it is every pair once, `Store.reported_merge`.  So the number is that of the
keys in the store only if no two leaves have names of the same texts, `Store.load_count`; a number
and a string may well have, and then a leaf is counted whose value is not stored.
-/

namespace Conform

theorem Table.Ascending.nodup_names {α : Type} {entries : List (String × α)}
    (h : Table.Ascending entries) : (Table.names entries).Nodup := by
  refine List.pairwise_map.2 (h.imp fun {a b} hlt heq => ?_)
  exact String.lt_irrefl b.1 (heq ▸ hlt)

namespace Yaml

/-- The texts of the two keys of every leaf that has them, in order. -/
def names (tree : Yaml) : List (String × String) :=
  tree.leaves.filterMap fun l => l.1.keyText?.bind fun ns => l.2.1.keyText?.map (ns, ·)

/-- The names of a tree that is accepted are those of its settings. -/
theorem names_of_settings {tree : Yaml} {ss : List Setting} (h : tree.settings = .ok ss) :
    tree.names = ss.map fun s => (s.ns, s.key) := by
  have hyields := yields_of_settings h
  rw [names]
  generalize tree.leaves = leaves at hyields
  clear h
  induction hyields with
  | nil => rfl
  | @cons l s ls ss hls _ ih =>
    obtain ⟨hns, hkey, _⟩ := hls
    rw [List.filterMap_cons, hns, Option.bind_some, hkey, Option.map_some, ih, List.map_cons]

end Yaml

namespace Store

/-- Every key that the store reports, after its namespace. -/
def reported (store : Store) : List (String × String) :=
  store.namespaces.flatMap fun n => (store.keys n.1).map (n.1, ·)

theorem mem_reported_iff {store : Store} {ns key : String} :
    (ns, key) ∈ store.reported ↔ (store.get? ns key).isSome = true := by
  have hkeys : key ∈ store.keys ns ↔ (store.get? ns key).isSome = true := Table.mem_names_iff
  rw [← hkeys, reported, List.mem_flatMap]
  constructor
  · rintro ⟨n, _, hmem⟩
    obtain ⟨_, hkey, heq⟩ := List.mem_map.1 hmem
    obtain ⟨rfl, rfl⟩ := Prod.mk.inj heq
    exact hkey
  · intro hkey
    cases hns : Table.find? ns store.namespaces with
    | none =>
      rw [keys, settings, hns] at hkey
      cases hkey
    | some settings => exact ⟨_, Table.mem_of_find? hns, List.mem_map.2 ⟨key, hkey, rfl⟩⟩

theorem WellFormed.nodup_reported {store : Store} (h : store.WellFormed) :
    store.reported.Nodup := by
  refine List.nodup_flatMap.2 ⟨fun n _ => ?_, h.ascending.imp fun {m n} hlt => ?_⟩
  · exact (h.ascending_settings n.1).nodup_names.map fun _ _ heq => (Prod.mk.inj heq).2
  · intro pair hm hn
    obtain ⟨_, _, rfl⟩ := List.mem_map.1 hm
    obtain ⟨_, _, heq⟩ := List.mem_map.1 hn
    exact String.lt_irrefl _ ((Prod.mk.inj heq).1 ▸ hlt)

/-- **What is reported after a merge** is what is merged and what was there, each once. -/
theorem reported_merge {store : Store} (h : store.WellFormed) (ss : List Setting) :
    (store.merge ss).reported.Perm ((ss.map fun s => (s.ns, s.key)) ++ store.reported).dedup := by
  -- neither list repeats a pair, so it is enough that they have the same ones
  refine (List.perm_ext_iff_of_nodup (h.merge ss).nodup_reported (List.nodup_dedup _)).2 ?_
  rintro ⟨ns, key⟩
  have hmerged : (ns, key) ∈ (ss.reverse.map Setting.entry).keys ↔
      (ns, key) ∈ ss.map fun s => (s.ns, s.key) := by
    rw [List.keys, List.map_map, List.mem_map, List.mem_map]
    exact exists_congr fun s => and_congr_left fun _ => List.mem_reverse
  rw [mem_reported_iff, get?_merge, Option.isSome_or, Bool.or_eq_true, List.dlookup_isSome, hmerged,
    List.mem_dedup, List.mem_append, mem_reported_iff]

/-- **What a load counts.**  A load into the empty store answers with the number of leaves, and the
store reports the names of these, each pair once.  So the answer is the number of the keys that are
reported exactly if no two leaves have the same pair of names. -/
theorem load_count {tree : Yaml} {n : Nat} {store : Store}
    (h : empty.load (some tree) = .ok (n, store)) :
    n = tree.names.length ∧ store.reported.Perm tree.names.dedup ∧ store.reported.length ≤ n ∧
      (store.reported.length = n ↔ tree.names.Nodup) := by
  have hload : empty.load (some tree) = tree.settings.map fun ss => (ss.length, empty.merge ss) :=
    rfl
  obtain ⟨ss, hss, heq⟩ := map_eq_ok_iff.1 (hload ▸ h)
  obtain ⟨rfl, rfl⟩ := Prod.mk.inj heq
  have hnames := Yaml.names_of_settings hss
  have hlength : ss.length = tree.names.length := by rw [hnames, List.length_map]
  have hreported : (empty.merge ss).reported.Perm tree.names.dedup := by
    have hmerge := reported_merge wellFormed_empty ss
    rwa [show empty.reported = [] from rfl, List.append_nil, ← hnames] at hmerge
  have hsub := List.dedup_sublist tree.names
  refine ⟨hlength, hreported, ?_, ?_⟩
  · rw [hreported.length_eq, hlength]
    exact hsub.length_le
  · rw [hreported.length_eq, hlength, ← List.dedup_eq_self]
    exact ⟨hsub.eq_of_length, fun heq => by rw [heq]⟩

/-- Keys of different texts in two namespaces. -/
theorem load_count_of_distinct_keys :
    let tree : Yaml := .mapping
      [(.string "ports", .mapping
          [(.integer 1 (by decide) (by decide), .string "one"), (.bool true, .null)]),
        (.string "hosts", .mapping [(.string "1", .string "uno")])]
    let store : Store := { namespaces :=
      [("hosts", [("1", .document (.string "uno"))]),
        ("ports", [("1", .document (.string "one")), ("true", .document .null)])] }
    empty.load (some tree) = .ok (3, store) ∧ tree.names.Nodup ∧ store.reported.length = 3 := by
  intro tree store
  have hload : empty.load (some tree) = .ok (3, store) := by rfl
  have hnodup : tree.names.Nodup := by decide
  exact ⟨hload, hnodup, (load_count hload).2.2.2.2 hnodup⟩

/-- A number and a string of one text in a namespace: two settings are counted where there is one,
and the first of them cannot be read. -/
theorem load_counts_colliding_keys :
    let tree : Yaml := .mapping [(.string "ports", .mapping
      [(.integer 1 (by decide) (by decide), .string "one"), (.string "1", .string "uno")])]
    ∃ store, empty.load (some tree) = .ok (2, store) ∧ store.reported = [("ports", "1")] ∧
      store.get? "ports" "1" = some (.document (.string "uno")) ∧ store.reported.length ≠ 2 :=
  ⟨{ namespaces := [("ports", [("1", .document (.string "uno"))])] }, rfl, rfl, rfl, by decide⟩

end Store

end Conform
