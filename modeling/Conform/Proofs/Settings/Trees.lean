import Conform.Proofs.Settings.Documents

/-!
# Trees of settings

Which trees are accepted, and what an accepted one holds, said without the conversion of the tree:
`Loadable` trees are accepted, and `setting?` is the value that counts under a pair of names.  What
a load makes of anything that is looked up by pairs of names is `Overlays`.

* `settings_mapping`: the settings of a tree are two rows, one of namespaces and one of members in
  each of them, so that what is known of `List.mapM` opens both.
* `yields_of_settings`: the settings are those of the leaves, one by one, and look-ups from the end
  find the same.
* `overlays_of_settings`: putting the settings of a tree over something, the last one of a pair
  first, is overlaying it with what the tree holds.
-/

namespace Conform

namespace Yaml

/-! ### Rows of settings -/

/-- The setting of a member of a namespace. -/
def toSetting (ns : String) (m : Yaml × Yaml) : Except LoadFault Setting :=
  (keyAt (.within ns) m.1).bind fun key =>
    (toDocument ns key Path.root m.2).map fun content => { ns, key, content }

/-- The settings of the content of a namespace. -/
def toSettings (ns : String) : Yaml → Except LoadFault (List Setting)
  | mapping members => members.mapM (toSetting ns)
  | _ => .error (.namespaceContent ns)

theorem settingsWithin_eq_mapM (ns : String) (members : List (Yaml × Yaml)) :
    settingsWithin ns members = members.mapM (toSetting ns) := by
  induction members with
  | nil => rfl
  | cons m ms ih =>
    rw [mapM_cons, ← ih, toSetting, bind_map_bind]
    rfl

theorem settingsOf_cons (k v : Yaml) (ms : List (Yaml × Yaml)) :
    settingsOf ((k, v) :: ms) =
      ((keyAt .top k).bind fun ns => toSettings ns v).bind fun here =>
        (settingsOf ms).map (here ++ ·) := by
  rw [settingsOf]
  cases keyAt .top k with
  | error fault => rfl
  | ok ns =>
    cases v with
    | mapping members =>
      show (settingsWithin ns members).bind _ = (members.mapM (toSetting ns)).bind _
      rw [settingsWithin_eq_mapM]
    | _ => rfl

theorem settings_mapping (namespaces : List (Yaml × Yaml)) :
    (mapping namespaces).settings =
      (namespaces.mapM fun m => (keyAt .top m.1).bind fun ns => toSettings ns m.2).map
        List.flatten := by
  rw [settings]
  induction namespaces with
  | nil => rfl
  | cons m ms ih =>
    obtain ⟨k, v⟩ := m
    rw [mapM_cons, settingsOf_cons, ih]
    cases (keyAt .top k).bind fun ns => toSettings ns v with
    | error fault => rfl
    | ok here =>
      cases ms.mapM fun m => (keyAt .top m.1).bind fun ns => toSettings ns m.2 with
      | error fault => rfl
      | ok rows => rfl

/-! ### Acceptance -/

/-- The tree is a mapping of settings: its keys are scalars and its values can be converted. -/
def IsNamespace : Yaml → Prop
  | mapping members => ∀ m ∈ members, m.1.IsKey ∧ m.2.Convertible
  | _ => False

/-- The tree is empty, or a mapping of namespaces whose keys are scalars. -/
def Loadable : Yaml → Prop
  | null => True
  | mapping namespaces => ∀ m ∈ namespaces, m.1.IsKey ∧ m.2.IsNamespace
  | _ => False

theorem exists_toSetting_iff {ns : String} {m : Yaml × Yaml} :
    (∃ s, toSetting ns m = .ok s) ↔ m.1.IsKey ∧ m.2.Convertible :=
  exists_keyAt_bind_iff fun _ => exists_map_eq_ok_iff.trans (exists_toDocument_iff m.2 Path.root)

theorem exists_toSettings_iff {ns : String} {v : Yaml} :
    (∃ ss, toSettings ns v = .ok ss) ↔ v.IsNamespace := by
  cases v with
  | mapping members =>
    rw [toSettings, exists_mapM_eq_ok_iff]
    exact forall₂_congr fun m _ => exists_toSetting_iff
  | _ => exact ⟨fun ⟨_, h⟩ => (nomatch h), False.elim⟩

theorem exists_settings_iff (tree : Yaml) : (∃ ss, tree.settings = .ok ss) ↔ tree.Loadable := by
  cases tree with
  | null => exact ⟨fun _ => trivial, fun _ => ⟨[], rfl⟩⟩
  | mapping namespaces =>
    rw [settings_mapping, exists_map_eq_ok_iff, exists_mapM_eq_ok_iff]
    exact forall₂_congr fun m _ => exists_keyAt_bind_iff fun _ => exists_toSettings_iff
  | _ => exact ⟨fun ⟨_, h⟩ => (nomatch h), False.elim⟩

/-! ### What is stored -/

/-- The members of a mapping, in order; other trees have none. -/
def members : Yaml → List (Yaml × Yaml)
  | mapping members => members
  | _ => []

/-- The values of a tree of settings in order, each after its two keys. -/
def leaves (tree : Yaml) : List (Yaml × Yaml × Yaml) :=
  tree.members.flatMap fun m => m.2.members.map fun n => (m.1, n.1, n.2)

/-- The value that counts under a pair of names, the last one with keys of these texts. -/
def setting? (tree : Yaml) (ns key : String) : Option Yaml :=
  (tree.leaves.reverse.find? fun l =>
    l.1.keyText? == some ns && l.2.1.keyText? == some key).map fun l => l.2.2

/-- The setting has the names of the leaf and what its value denotes. -/
def Yields (l : Yaml × Yaml × Yaml) (s : Setting) : Prop :=
  l.1.keyText? = some s.ns ∧ l.2.1.keyText? = some s.key ∧ l.2.2.Denotes s.content

theorem yields_of_toSettings {k v : Yaml} {ns : String} {ss : List Setting}
    (hns : k.keyText? = some ns) (h : toSettings ns v = .ok ss) :
    List.Forall₂ Yields (v.members.map fun m => (k, m.1, m.2)) ss := by
  cases v with
  | mapping members =>
    rw [List.forall₂_map_left_iff]
    refine (mapM_eq_ok_iff.1 h).imp fun m s hs => ?_
    obtain ⟨key, hkey, hs⟩ := bind_eq_ok_iff.1 hs
    obtain ⟨d, hd, rfl⟩ := map_eq_ok_iff.1 hs
    exact ⟨hns, keyAt_eq_ok_iff.1 hkey, (toDocument_eq_ok_iff.1 hd).2⟩
  | _ => cases h

theorem yields_of_settings {tree : Yaml} {ss : List Setting} (h : tree.settings = .ok ss) :
    List.Forall₂ Yields tree.leaves ss := by
  cases tree with
  | null =>
    cases h
    exact .nil
  | mapping namespaces =>
    rw [settings_mapping, map_eq_ok_iff] at h
    obtain ⟨rows, hrows, rfl⟩ := h
    rw [leaves, List.flatMap_def]
    refine List.rel_flatten (List.forall₂_map_left_iff.2 ?_)
    refine (mapM_eq_ok_iff.1 hrows).imp fun m row hrow => ?_
    obtain ⟨ns, hns, hrow⟩ := bind_eq_ok_iff.1 hrow
    exact yields_of_toSettings (keyAt_eq_ok_iff.1 hns) hrow
  | _ => cases h

/-! ### What a load makes of what was there -/

/-- What is looked up before and after a load of the tree: under every pair of names for which the
tree has a value stands the one document that the value denotes, and under the others what stood
there. -/
structure Overlays (tree : Yaml) (after before : String → String → Option Value) : Prop where
  stored : ∀ ns key y, tree.setting? ns key = some y →
    ∃ d, (∀ e, y.Denotes e ↔ e = d) ∧ after ns key = some (.document d)
  kept : ∀ ns key, tree.setting? ns key = none → after ns key = before ns key

theorem Overlays.unique {tree : Yaml} {after after' before : String → String → Option Value}
    (h : tree.Overlays after before) (h' : tree.Overlays after' before) (ns key : String) :
    after ns key = after' ns key := by
  cases hy : tree.setting? ns key with
  | none => rw [h.kept ns key hy, h'.kept ns key hy]
  | some y =>
    obtain ⟨d, hd, hafter⟩ := h.stored ns key y hy
    obtain ⟨d', hd', hafter'⟩ := h'.stored ns key y hy
    have heq : d = d' := (hd' d).1 ((hd d).2 rfl)
    rw [hafter, hafter', heq]

/-- Leaves and settings go together one by one, so the last ones of a pair of names do. -/
theorem rel_last_of_settings {tree : Yaml} {ss : List Setting} (h : tree.settings = .ok ss)
    (ns key : String) :
    Option.Rel Yields
      (tree.leaves.reverse.find? fun l =>
        l.1.keyText? == some ns && l.2.1.keyText? == some key)
      (ss.reverse.find? fun s => s.ns == ns && s.key == key) := by
  refine rel_find? (List.rel_reverse (yields_of_settings h)) fun l s hls => ?_
  rw [hls.1, hls.2.1]
  rfl

theorem overlays_of_settings {tree : Yaml} {ss : List Setting} (h : tree.settings = .ok ss)
    {after before : String → String → Option Value}
    (hafter : ∀ ns key, after ns key =
      ((ss.reverse.find? fun s => s.ns == ns && s.key == key).map fun s =>
        .document s.content).or (before ns key)) :
    tree.Overlays after before := by
  refine ⟨fun ns key y hy => ?_, fun ns key hnone => ?_⟩
  · obtain ⟨l, hl, rfl⟩ := Option.map_eq_some_iff.1 hy
    obtain ⟨s, hs, _, _, hdenotes⟩ := exists_eq_some_of_rel (hl ▸ rel_last_of_settings h ns key)
    refine ⟨s.content, fun e => ⟨fun he => he.unique hdenotes, fun he => he ▸ hdenotes⟩, ?_⟩
    rw [hafter, hs]
    rfl
  · have hsome := isSome_eq_of_rel (rel_last_of_settings h ns key)
    rw [Option.map_eq_none_iff.1 hnone, eq_comm, Option.isSome_none, Option.isSome_eq_false_iff,
      Option.isNone_iff_eq_none] at hsome
    rw [hafter, hsome]
    rfl

end Yaml

end Conform
