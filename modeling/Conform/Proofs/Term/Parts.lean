import Conform.Term.Equality

/-!
# Parts of terms

A term is a tree whose inner nodes are lists, tuples and maps.  `Term.ind` is the induction over it,
`nodes` lists the terms in it and `floats` the floats, and `height` counts how deep its containers
nest.
-/

namespace Conform.Term

/-- Induction on terms; the terms in a container are given by membership. -/
@[elab_as_elim]
theorem ind {motive : Term → Prop} (null : motive null) (bool : ∀ b, motive (bool b))
    (int : ∀ n, motive (int n)) (uint : ∀ n, motive (uint n)) (float : ∀ x, motive (float x))
    (str : ∀ text, motive (str text)) (atom : ∀ text, motive (atom text))
    (list : ∀ items, (∀ t ∈ items, motive t) → motive (list items))
    (tuple : ∀ items, (∀ t ∈ items, motive t) → motive (tuple items))
    (map : ∀ entries, (∀ e ∈ entries, motive e.2) → motive (map entries)) (t : Term) :
    motive t := by
  refine @Term.rec motive (fun items => ∀ t ∈ items, motive t)
    (fun entries => ∀ e ∈ entries, motive e.2) (fun e => motive e.2)
    null bool int uint float str atom list tuple map ?_ ?_ ?_ ?_ (fun _ _ ih => ih) t
  · intro t ht
    cases ht
  · intro t ts ih ihs u hu
    rcases List.mem_cons.1 hu with rfl | hu
    · exact ih
    · exact ihs u hu
  · intro e he
    cases he
  · intro e es ih ihs d hd
    rcases List.mem_cons.1 hd with rfl | hd
    · exact ih
    · exact ihs d hd

/-! ### Nodes -/

mutual

/-- The terms in a term, each of them before those in it. -/
def nodes : Term → List Term
  | list items => list items :: nodesItems items
  | tuple items => tuple items :: nodesItems items
  | map entries => map entries :: nodesEntries entries
  | t => [t]

/-- The terms in the elements of a sequence. -/
def nodesItems : List Term → List Term
  | [] => []
  | t :: ts => t.nodes ++ nodesItems ts

/-- The terms in the values of a map. -/
def nodesEntries : List (String × Term) → List Term
  | [] => []
  | (_, t) :: es => t.nodes ++ nodesEntries es

end

theorem nodesItems_eq_flatMap (items : List Term) : nodesItems items = items.flatMap nodes := by
  induction items with
  | nil => rfl
  | cons t ts ih => rw [nodesItems, ih, List.flatMap_cons]

theorem nodesEntries_eq_flatMap (entries : List (String × Term)) :
    nodesEntries entries = entries.flatMap fun e => e.2.nodes := by
  induction entries with
  | nil => rfl
  | cons e es ih => rw [nodesEntries, ih, List.flatMap_cons]

theorem mem_nodes_self (t : Term) : t ∈ t.nodes := by
  cases t <;> simp [nodes]

section

variable {p : Term → Prop} {items : List Term} {entries : List (String × Term)}

theorem forall_mem_nodes_list :
    (∀ t ∈ (list items).nodes, p t) ↔ p (list items) ∧ ∀ t ∈ items, ∀ u ∈ t.nodes, p u := by
  rw [nodes, List.forall_mem_cons, nodesItems_eq_flatMap, List.forall_mem_flatMap]

theorem forall_mem_nodes_tuple :
    (∀ t ∈ (tuple items).nodes, p t) ↔ p (tuple items) ∧ ∀ t ∈ items, ∀ u ∈ t.nodes, p u := by
  rw [nodes, List.forall_mem_cons, nodesItems_eq_flatMap, List.forall_mem_flatMap]

theorem forall_mem_nodes_map :
    (∀ t ∈ (map entries).nodes, p t) ↔
      p (map entries) ∧ ∀ e ∈ entries, ∀ u ∈ e.2.nodes, p u := by
  rw [nodes, List.forall_mem_cons, nodesEntries_eq_flatMap, List.forall_mem_flatMap]

end

/-! ### Floats -/

mutual

/-- The floats in a term, in order. -/
def floats : Term → List Double
  | float x => [x]
  | list items | tuple items => floatsItems items
  | map entries => floatsEntries entries
  | _ => []

/-- The floats in the elements of a sequence. -/
def floatsItems : List Term → List Double
  | [] => []
  | t :: ts => t.floats ++ floatsItems ts

/-- The floats in the values of a map. -/
def floatsEntries : List (String × Term) → List Double
  | [] => []
  | (_, t) :: es => t.floats ++ floatsEntries es

end

theorem floatsItems_eq_flatMap (items : List Term) : floatsItems items = items.flatMap floats := by
  induction items with
  | nil => rfl
  | cons t ts ih => rw [floatsItems, ih, List.flatMap_cons]

theorem floatsEntries_eq_flatMap (entries : List (String × Term)) :
    floatsEntries entries = entries.flatMap fun e => e.2.floats := by
  induction entries with
  | nil => rfl
  | cons e es ih => rw [floatsEntries, ih, List.flatMap_cons]

theorem mem_floatsItems {x : Double} {items : List Term} :
    x ∈ floatsItems items ↔ ∃ t ∈ items, x ∈ t.floats := by
  rw [floatsItems_eq_flatMap, List.mem_flatMap]

theorem mem_floatsEntries {x : Double} {entries : List (String × Term)} :
    x ∈ floatsEntries entries ↔ ∃ e ∈ entries, x ∈ e.2.floats := by
  rw [floatsEntries_eq_flatMap, List.mem_flatMap]

/-! ### Height -/

mutual

/-- How deep the containers of a term nest. -/
def height : Term → Nat
  | list items | tuple items => heightItems items + 1
  | map entries => heightEntries entries + 1
  | _ => 0

/-- The greatest height in the elements of a sequence. -/
def heightItems : List Term → Nat
  | [] => 0
  | t :: ts => max t.height (heightItems ts)

/-- The greatest height in the values of a map. -/
def heightEntries : List (String × Term) → Nat
  | [] => 0
  | (_, t) :: es => max t.height (heightEntries es)

end

theorem height_le_heightItems {t : Term} {items : List Term} (h : t ∈ items) :
    t.height ≤ heightItems items := by
  induction items with
  | nil => cases h
  | cons u us ih =>
    rw [heightItems]
    rcases List.mem_cons.1 h with rfl | h
    · exact Nat.le_max_left _ _
    · exact Nat.le_trans (ih h) (Nat.le_max_right _ _)

theorem height_le_heightEntries {e : String × Term} {entries : List (String × Term)}
    (h : e ∈ entries) : e.2.height ≤ heightEntries entries := by
  induction entries with
  | nil => cases h
  | cons d ds ih =>
    rw [heightEntries]
    rcases List.mem_cons.1 h with rfl | h
    · exact Nat.le_max_left _ _
    · exact Nat.le_trans (ih h) (Nat.le_max_right _ _)

end Conform.Term
