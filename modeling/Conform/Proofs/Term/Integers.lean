import Conform.Proofs.Term.Parts
import Mathlib.Data.List.Basic

/-!
# One integer, one term

An integer of the signed range is to be an `int`, never a `uint`.  A term is *narrow* if that holds
of every integer in it, and `narrowed` is the term with every integer put that way.

* `narrow_ofUInt64`: the term of an unsigned word is narrow.
* `narrowed_eq_self_iff`: narrow terms are those that are as they should be already.
* `eq_of_integer?`: of an integer there is one narrow term only.
-/

namespace Conform.Term

/-- Every `uint` in the term is above the signed range. -/
def Narrow (t : Term) : Prop := ∀ n, uint n ∈ t.nodes → 0x7fffffffffffffff < n.toNat

/-- The integer that a term is. -/
def integer? : Term → Option Int
  | int n => some n.toInt
  | uint n => some n.toNat
  | _ => none

mutual

/-- The term with each integer as an `int` if it fits. -/
def narrowed : Term → Term
  | uint n => ofUInt64 n
  | list items => list (narrowedItems items)
  | tuple items => tuple (narrowedItems items)
  | map entries => map (narrowedEntries entries)
  | t => t

/-- The elements with each integer as an `int` if it fits. -/
def narrowedItems : List Term → List Term
  | [] => []
  | t :: ts => t.narrowed :: narrowedItems ts

/-- The entries with each integer in their values as an `int` if it fits. -/
def narrowedEntries : List (String × Term) → List (String × Term)
  | [] => []
  | (key, t) :: es => (key, t.narrowed) :: narrowedEntries es

end

theorem narrowedItems_eq_map (items : List Term) : narrowedItems items = items.map narrowed := by
  induction items with
  | nil => rfl
  | cons t ts ih => rw [narrowedItems, ih, List.map_cons]

theorem narrowedEntries_eq_map (entries : List (String × Term)) :
    narrowedEntries entries = entries.map fun e => (e.1, e.2.narrowed) := by
  induction entries with
  | nil => rfl
  | cons e es ih => rw [narrowedEntries, ih, List.map_cons]

/-! ### Words -/

theorem ofUInt64_of_le {n : UInt64} (h : n.toNat ≤ 0x7fffffffffffffff) :
    ofUInt64 n = int (Int64.ofNat n.toNat) ∧ (Int64.ofNat n.toNat).toInt = n.toNat :=
  ⟨if_pos (Nat.lt_succ_of_le h), Int64.toInt_ofNat_of_lt (by omega)⟩

theorem ofUInt64_of_lt {n : UInt64} (h : 0x7fffffffffffffff < n.toNat) : ofUInt64 n = uint n :=
  if_neg (by omega)

/-! ### Unsigned integers -/

/-- The integers that are written as a `uint` in the term, in order. -/
def unsigned (t : Term) : List Int :=
  t.nodes.filterMap fun
    | uint n => some (n.toNat : Int)
    | _ => none

theorem unsigned_list (items : List Term) : (list items).unsigned = items.flatMap unsigned := by
  rw [unsigned, nodes, nodesItems_eq_flatMap, List.filterMap_cons_none rfl, List.filterMap_flatMap]
  rfl

theorem unsigned_tuple (items : List Term) : (tuple items).unsigned = items.flatMap unsigned := by
  rw [unsigned, nodes, nodesItems_eq_flatMap, List.filterMap_cons_none rfl, List.filterMap_flatMap]
  rfl

theorem unsigned_map (entries : List (String × Term)) :
    (map entries).unsigned = entries.flatMap fun e => e.2.unsigned := by
  rw [unsigned, nodes, nodesEntries_eq_flatMap, List.filterMap_cons_none rfl,
    List.filterMap_flatMap]
  rfl

/-! ### Narrow terms -/

theorem narrow_iff_unsigned {t : Term} : t.Narrow ↔ ∀ k ∈ t.unsigned, 0x7fffffffffffffff < k := by
  constructor
  · intro h k hk
    obtain ⟨u, hu, huk⟩ := List.mem_filterMap.1 hk
    cases u with
    | uint n =>
      rw [← Option.some.inj huk]
      exact Int.ofNat_lt.2 (h n hu)
    | _ => cases huk
  · intro h n hn
    exact Int.ofNat_lt.1 (h n.toNat (List.mem_filterMap.2 ⟨uint n, hn, rfl⟩))

theorem narrow_uint {n : UInt64} : (uint n).Narrow ↔ 0x7fffffffffffffff < n.toNat := by
  simp [Narrow, nodes]

theorem narrow_list {items : List Term} : (list items).Narrow ↔ ∀ t ∈ items, t.Narrow := by
  simp only [narrow_iff_unsigned, unsigned_list, List.forall_mem_flatMap]

theorem narrow_tuple {items : List Term} : (tuple items).Narrow ↔ ∀ t ∈ items, t.Narrow := by
  simp only [narrow_iff_unsigned, unsigned_tuple, List.forall_mem_flatMap]

theorem narrow_map {entries : List (String × Term)} :
    (map entries).Narrow ↔ ∀ e ∈ entries, e.2.Narrow := by
  simp only [narrow_iff_unsigned, unsigned_map, List.forall_mem_flatMap]

/-- The term of a word is narrow, and it is the integer of the word. -/
theorem narrow_ofUInt64 (n : UInt64) :
    (ofUInt64 n).Narrow ∧ (ofUInt64 n).integer? = some (n.toNat : Int) := by
  rcases Nat.lt_or_ge 0x7fffffffffffffff n.toNat with h | h
  · rw [ofUInt64_of_lt h]
    exact ⟨narrow_uint.2 h, rfl⟩
  · obtain ⟨hterm, hvalue⟩ := ofUInt64_of_le h
    rw [hterm]
    exact ⟨by simp [Narrow, nodes], congrArg some hvalue⟩

theorem narrowed_uint_eq_self_iff {n : UInt64} :
    (uint n).narrowed = uint n ↔ 0x7fffffffffffffff < n.toNat := by
  rw [narrowed]
  refine ⟨fun h => ?_, ofUInt64_of_lt⟩
  rw [← narrow_uint, ← h]
  exact (narrow_ofUInt64 n).1

/-- **The narrow terms are those with every integer as it should be.** -/
theorem narrowed_eq_self_iff (t : Term) : t.narrowed = t ↔ t.Narrow := by
  induction t using Term.ind with
  | null | bool | int | float | str | atom => simp [narrowed, Narrow, nodes]
  | uint n => rw [narrowed_uint_eq_self_iff, narrow_uint]
  | list items ih =>
    rw [narrowed, narrow_list, narrowedItems_eq_map, Term.list.injEq,
      Eq.congr_right items.map_id.symm, List.map_inj_left]
    exact forall₂_congr ih
  | tuple items ih =>
    rw [narrowed, narrow_tuple, narrowedItems_eq_map, Term.tuple.injEq,
      Eq.congr_right items.map_id.symm, List.map_inj_left]
    exact forall₂_congr ih
  | map entries ih =>
    rw [narrowed, narrow_map, narrowedEntries_eq_map, Term.map.injEq,
      Eq.congr_right entries.map_id.symm, List.map_inj_left]
    refine forall₂_congr fun e he => ?_
    rw [Prod.ext_iff, ← ih e he]
    exact and_iff_right rfl

/-- What becomes of an integer depends on the integer alone. -/
theorem narrowed_of_integer? {t : Term} {n : Int} (h : t.integer? = some n) :
    t.narrowed =
      if n < 0x8000000000000000 then int (Int64.ofInt n) else uint (UInt64.ofNat n.toNat) := by
  cases t with
  | int a =>
    have hbelow : a.toInt < 0x8000000000000000 := a.toInt_lt
    rw [← Option.some.inj h, if_pos hbelow, Int64.ofInt_toInt]
    rfl
  | uint a =>
    rw [← Option.some.inj h, Int.toNat_natCast, UInt64.ofNat_toNat, narrowed, ofUInt64]
    exact if_congr Int.ofNat_lt.symm rfl rfl
  | _ => cases h

/-- **Two narrow terms of one integer are equal.** -/
theorem eq_of_integer? {t u : Term} {n : Int} (ht : t.Narrow) (hu : u.Narrow)
    (htn : t.integer? = some n) (hun : u.integer? = some n) : t = u := by
  rw [← (narrowed_eq_self_iff t).2 ht, ← (narrowed_eq_self_iff u).2 hu, narrowed_of_integer? htn,
    narrowed_of_integer? hun]

theorem same_self_of_integer? {t : Term} {n : Int} (h : t.integer? = some n) :
    t.same t = true := by
  cases t with
  | int | uint => simp [same]
  | _ => cases h

end Conform.Term
