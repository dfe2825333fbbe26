import Conform.Proofs.Settings.Counting
import Conform.Yaml.Reading

/-!
# Keys of trees that are read

Whatever a text is, the tree that is read from it has in every mapping keys that are pairwise
different, and its collections nest no deeper than a reader goes.

* `DistinctKeys` says the first and `depth` measures the second; keys are trees too, and both look
  into them.
* `readNode_sound`: a reader of so many levels yields such trees, by induction on the levels.  What
  it yields of each member of a row it yields of the row, `readItems_sound` and `readMembers_sound`.
* `parse?_sound` says it of texts.

Keys that differ may still have one text, as `1` and `"1"` do.  If all of them are strings they do
not, and then no two settings of the tree have the same two names, `nodup_names`.
-/

namespace Conform.Yaml

/-! ### Trees with different keys -/

/-- No key of a mapping in the tree equals one before it, those of mappings in keys included. -/
inductive DistinctKeys : Yaml → Prop
  | null : DistinctKeys null
  | bool (b : Bool) : DistinctKeys (bool b)
  | integer (n : Int) (least : -0x8000000000000000 ≤ n) (below : n < 0x10000000000000000) :
    DistinctKeys (integer n least below)
  | float (x : Double) : DistinctKeys (float x)
  | string (text : String) : DistinctKeys (string text)
  | sequence {items : List Yaml} : (∀ y ∈ items, DistinctKeys y) → DistinctKeys (sequence items)
  | mapping {members : List (Yaml × Yaml)} :
    members.Pairwise (fun m n => n.1.same m.1 = false) → (∀ m ∈ members, DistinctKeys m.1) →
    (∀ m ∈ members, DistinctKeys m.2) → DistinctKeys (mapping members)
  | tagged (tag : String) {y : Yaml} : DistinctKeys y → DistinctKeys (tagged tag y)

mutual

/-- How many collections are nested in one another, keys included. -/
def depth : Yaml → Nat
  | sequence items => depthItems items + 1
  | mapping members => depthMembers members + 1
  | tagged _ value => value.depth
  | _ => 0

/-- The greatest depth in a list of trees. -/
def depthItems : List Yaml → Nat
  | [] => 0
  | y :: ys => max y.depth (depthItems ys)

/-- The greatest depth in a list of members. -/
def depthMembers : List (Yaml × Yaml) → Nat
  | [] => 0
  | (k, v) :: ms => max (max k.depth v.depth) (depthMembers ms)

end

theorem depthItems_le {items : List Yaml} {n : Nat} (h : ∀ y ∈ items, y.depth ≤ n) :
    depthItems items ≤ n := by
  induction items with
  | nil => exact Nat.zero_le n
  | cons y ys ih =>
    obtain ⟨hy, hys⟩ := List.forall_mem_cons.1 h
    have hrest := ih hys
    rw [depthItems]
    omega

theorem depthMembers_le {members : List (Yaml × Yaml)} {n : Nat}
    (h : ∀ m ∈ members, m.1.depth ≤ n ∧ m.2.depth ≤ n) : depthMembers members ≤ n := by
  induction members with
  | nil => exact Nat.zero_le n
  | cons m ms ih =>
    obtain ⟨⟨hk, hv⟩, hms⟩ := List.forall_mem_cons.1 h
    have hrest := ih hms
    rw [depthMembers]
    omega

/-- What a reader of so many levels yields: different keys, and no deeper than the levels. -/
structure ReadWithin (levels : Nat) (y : Yaml) : Prop where
  distinct : y.DistinctKeys
  depth_le : y.depth ≤ levels

/-! ### Scalars -/

/-- The tree has no parts. -/
def IsScalar : Yaml → Prop
  | sequence _ | mapping _ | tagged _ _ => False
  | _ => True

theorem IsScalar.readWithin {y : Yaml} (h : y.IsScalar) (levels : Nat) : ReadWithin levels y := by
  cases y with
  | sequence | mapping | tagged => cases h
  | _ => exact ⟨by constructor, Nat.zero_le levels⟩

theorem isScalar_of_ofInt? {n : Int} {y : Yaml} (h : ofInt? n = some y) : y.IsScalar := by
  unfold ofInt? at h
  split at h
  · split at h
    · cases h
      exact trivial
    · cases h
  · cases h

theorem isScalar_of_ofPlain? {text : List Char} {y : Yaml} (h : ofPlain? text = some y) :
    y.IsScalar := by
  unfold ofPlain? at h
  split at h
  · cases h
    trivial
  · split at h
    · cases h
      trivial
    · split at h
      · rename_i hint
        exact isScalar_of_ofInt? (hint.trans h)
      · split at h
        · cases h
        -- a word that is no number is a string
        · cases hfloat : floatOf? text <;> rw [hfloat] at h <;> cases h <;> trivial
    · split at h
      · cases h
        trivial
      · cases hfloat : floatOf? text <;> rw [hfloat] at h <;> cases h <;> trivial

theorem isScalar_of_ofScalar? {type : Option CoreType} {plain : Bool} {text : List Char} {y : Yaml}
    (h : ofScalar? type plain text = some y) : y.IsScalar := by
  unfold ofScalar? at h
  split at h
  · split at h
    · exact isScalar_of_ofPlain? h
    · cases h
      trivial
  · split at h
    · cases h
      trivial
    · cases h
  · obtain ⟨b, _, rfl⟩ := Option.map_eq_some_iff.1 h
    trivial
  · obtain ⟨n, _, hn⟩ := Option.bind_eq_some_iff.1 h
    exact isScalar_of_ofInt? hn
  · obtain ⟨x, _, rfl⟩ := Option.map_eq_some_iff.1 h
    trivial
  · cases h
    trivial

/-! ### Readers -/

/-- Whatever the budget is, what the reader yields has the property. -/
def Reader.Yields {α : Type} (read : Reader α) (P : α → Prop) : Prop :=
  ∀ budget x left, read budget = some (x, left) → P x

section

variable {read : Node Nat → Reader Yaml} {P : Yaml → Prop}

theorem readItems_sound (h : ∀ node, Reader.Yields (read node) P) (nodes : List (Node Nat)) :
    Reader.Yields (readItems read nodes) fun ys => ∀ y ∈ ys, P y := by
  induction nodes with
  | nil =>
    intro budget ys left hread
    cases hread
    exact nofun
  | cons node nodes ih =>
    intro budget ys left hread
    simp only [readItems, Option.bind_eq_bind, Option.bind_eq_some_iff] at hread
    obtain ⟨⟨y, _⟩, hy, ⟨zs, _⟩, hzs, heq⟩ := hread
    cases heq
    exact List.forall_mem_cons.2 ⟨h node _ y _ hy, ih _ zs _ hzs⟩

/-- The members of a row have what every reading has, and no key equals one before it, in the row or
in front of it. -/
theorem readMembers_sound (h : ∀ node, Reader.Yields (read node) P)
    (nodes : List (Node Nat × Node Nat)) : ∀ keys,
    Reader.Yields (readMembers read keys nodes) fun ms =>
      (∀ m ∈ ms, P m.1 ∧ P m.2) ∧ ms.Pairwise (fun m n => n.1.same m.1 = false) ∧
        ∀ m ∈ ms, ∀ key ∈ keys, m.1.same key = false := by
  induction nodes with
  | nil =>
    intro keys budget ms left hread
    cases hread
    exact ⟨nofun, .nil, nofun⟩
  | cons node nodes ih =>
    intro keys budget ms left hread
    obtain ⟨k, v⟩ := node
    simp only [readMembers, Option.bind_eq_bind, Option.bind_eq_some_iff] at hread
    obtain ⟨⟨key, _⟩, hkey, hread⟩ := hread
    split at hread
    · cases hread
    · rename_i hnew
      simp only [Option.bind_eq_some_iff] at hread
      obtain ⟨⟨value, _⟩, hvalue, ⟨rest, _⟩, hrest, heq⟩ := hread
      cases heq
      obtain ⟨hall, hpairwise, hbefore⟩ := ih (key :: keys) _ rest _ hrest
      have hhere : P key ∧ P value := ⟨h k _ key _ hkey, h v _ value _ hvalue⟩
      have hkeys : ∀ other ∈ keys, key.same other = false := by
        simpa using hnew
      refine ⟨List.forall_mem_cons.2 ⟨hhere, hall⟩, .cons (fun n hn => ?_) hpairwise,
        List.forall_mem_cons.2 ⟨hkeys, fun n hn other hother => ?_⟩⟩
      · exact hbefore n hn key List.mem_cons_self
      · exact hbefore n hn other (List.mem_cons_of_mem key hother)

end

theorem ReadWithin.tagCollection {levels : Nat} {y : Yaml} (h : ReadWithin levels y)
    (tag : Option NodeTag) : ReadWithin levels (tagCollection tag y) := by
  unfold Yaml.tagCollection
  split
  · exact ⟨.tagged _ h.distinct, h.depth_le⟩
  · exact h

theorem readWithin_of_tagScalar? {tag : Option NodeTag} {plain : Bool} {text : List Char} {y : Yaml}
    (h : tagScalar? tag plain text = some y) (levels : Nat) : ReadWithin levels y := by
  unfold tagScalar? at h
  split at h
  · obtain ⟨z, hz, rfl⟩ := Option.map_eq_some_iff.1 h
    have hscalar := (isScalar_of_ofScalar? hz).readWithin levels
    exact ⟨.tagged _ hscalar.distinct, hscalar.depth_le⟩
  · exact (isScalar_of_ofScalar? h).readWithin levels
  · exact (isScalar_of_ofScalar? h).readWithin levels

/-- **A reader of so many levels** yields trees that nest no deeper, with different keys. -/
theorem readNode_sound (nodes : AnchoredNodes) : ∀ levels node,
    Reader.Yields (readNode nodes levels node) (ReadWithin levels) := by
  intro levels
  induction levels with
  | zero =>
    intro node budget y left hread
    rw [readNode] at hread
    obtain ⟨⟨node, _⟩, _, hread⟩ := Option.bind_eq_some_iff.1 hread
    cases node with
    | scalar decoration plain text =>
      obtain ⟨z, hz, heq⟩ := Option.map_eq_some_iff.1 hread
      cases heq
      exact readWithin_of_tagScalar? hz 0
    | reference | sequence | mapping => cases hread
  | succ levels ih =>
    intro node budget y left hread
    rw [readNode] at hread
    obtain ⟨⟨node, _⟩, _, hread⟩ := Option.bind_eq_some_iff.1 hread
    cases node with
    | reference => cases hread
    | scalar decoration plain text =>
      obtain ⟨z, hz, heq⟩ := Option.map_eq_some_iff.1 hread
      cases heq
      exact readWithin_of_tagScalar? hz (levels + 1)
    | sequence decoration items =>
      obtain ⟨⟨ys, _⟩, hys, heq⟩ := Option.bind_eq_some_iff.1 hread
      cases heq
      have hall := readItems_sound ih items _ ys _ hys
      refine ReadWithin.tagCollection ⟨.sequence fun z hz => (hall z hz).distinct, ?_⟩ _
      exact Nat.succ_le_succ (depthItems_le fun z hz => (hall z hz).depth_le)
    | mapping decoration members =>
      obtain ⟨⟨ms, _⟩, hms, heq⟩ := Option.bind_eq_some_iff.1 hread
      cases heq
      obtain ⟨hall, hpairwise, _⟩ := readMembers_sound ih members [] _ ms _ hms
      refine ReadWithin.tagCollection ⟨.mapping hpairwise (fun m hm => (hall m hm).1.distinct)
        fun m hm => (hall m hm).2.distinct, ?_⟩ _
      exact Nat.succ_le_succ (depthMembers_le fun m hm =>
        ⟨(hall m hm).1.depth_le, (hall m hm).2.depth_le⟩)

/-- **Texts are read into trees with different keys**, which nest no deeper than a reader goes. -/
theorem parse?_sound {text : List Char} {tree : Yaml} (h : parse? text = some tree) :
    tree.DistinctKeys ∧ tree.depth ≤ deepestNesting := by
  simp only [parse?, Option.bind_eq_bind, Option.bind_eq_some_iff] at h
  obtain ⟨source, _, tokens, _, document, _, h⟩ := h
  cases document with
  | none =>
    cases h
    exact ⟨.null, Nat.zero_le _⟩
  | some root =>
    simp only [ofNode?, Option.bind_eq_bind, Option.bind_eq_some_iff] at h
    obtain ⟨⟨root, _⟩, _, ⟨y, _⟩, hy, heq⟩ := h
    cases heq
    have hread := readNode_sound _ deepestNesting root _ y _ hy
    exact ⟨hread.distinct, hread.depth_le⟩

/-! ### Settings whose keys are strings -/

/-- The names of every setting in the tree are strings. -/
def StringKeyed (tree : Yaml) : Prop :=
  ∀ l ∈ tree.leaves, ∃ ns key, l.1 = string ns ∧ l.2.1 = string key

theorem DistinctKeys.pairwise_members {y : Yaml} (h : y.DistinctKeys) :
    y.members.Pairwise fun m n => n.1.same m.1 = false := by
  cases h with
  | mapping hpairwise _ _ => exact hpairwise
  | _ => exact .nil

theorem DistinctKeys.of_mem_members {y : Yaml} (h : y.DistinctKeys) {m : Yaml × Yaml}
    (hm : m ∈ y.members) : m.2.DistinctKeys := by
  cases h with
  | mapping _ _ hvalues => exact hvalues m hm
  | _ => cases hm

/-- Of two settings the second has another namespace than the first, or another key. -/
theorem DistinctKeys.pairwise_leaves {tree : Yaml} (h : tree.DistinctKeys) :
    tree.leaves.Pairwise fun l l' => l'.1.same l.1 = false ∨ l'.2.1.same l.2.1 = false := by
  refine List.pairwise_flatMap.2 ⟨fun m hm => ?_, ?_⟩
  · exact List.pairwise_map.2 ((h.of_mem_members hm).pairwise_members.imp Or.inr)
  · refine h.pairwise_members.imp fun hne l hl l' hl' => ?_
    obtain ⟨_, _, rfl⟩ := List.mem_map.1 hl
    obtain ⟨_, _, rfl⟩ := List.mem_map.1 hl'
    exact Or.inl hne

/-- **Settings whose keys are strings** have names of their own each. -/
theorem nodup_names {tree : Yaml} (h : tree.DistinctKeys) (hstrings : tree.StringKeyed) :
    tree.names.Nodup := by
  refine List.pairwise_filterMap.2 (h.pairwise_leaves.imp_of_mem ?_)
  intro l l' hl hl' hne pair hpair pair' hpair' heq
  obtain ⟨ns, key, hns, hkey⟩ := hstrings l hl
  obtain ⟨ns', key', hns', hkey'⟩ := hstrings l' hl'
  rw [hns, hkey, hns', hkey'] at hne
  rw [hns, hkey] at hpair
  rw [hns', hkey'] at hpair'
  have hboth : (ns, key) = (ns', key') :=
    (Option.some.inj hpair).trans (heq.trans (Option.some.inj hpair').symm)
  obtain ⟨rfl, rfl⟩ := Prod.mk.inj hboth
  simp [same] at hne

end Conform.Yaml
