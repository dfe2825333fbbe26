import Conform.Proofs.Term.Parts
import Mathlib.Data.List.Basic

/-!
# Terms that are the same

Equality of terms goes down to the floats in them, and there it is neither reflexive nor identity:
a NaN is the same as nothing, and the two zeros are the same.  With one zero in place of both of
them (`Double.mergeZeros`) only the NaNs remain.

* `same_iff`: two terms are the same exactly if neither has a NaN in it and they are equal up to the
  signs of their zeros.
* `same_comm`, `same_trans`, `same_self_iff`: so this is a partial equivalence, of which the terms
  with a NaN are no part.
* `eq_of_same`: without zeros, terms that are the same are equal.
-/

namespace Conform

/-! ### Zeros -/

namespace Double

/-- The number, with the positive zero for a zero of either sign. -/
def mergeZeros (x : Double) : Double := if x.isZero then zero false else x

theorem mergeZeros_of_isZero {x : Double} (h : x.isZero = true) : x.mergeZeros = zero false :=
  if_pos h

theorem mergeZeros_of_not_isZero {x : Double} (h : x.isZero = false) : x.mergeZeros = x :=
  if_neg (h ▸ Bool.false_ne_true)

theorem isZero_mergeZeros (x : Double) : x.mergeZeros.isZero = x.isZero := by
  cases h : x.isZero with
  | true => rw [mergeZeros_of_isZero h]; rfl
  | false => rw [mergeZeros_of_not_isZero h, h]

/-- Doubles are the same number if they are numbers and equal up to the sign of zero. -/
theorem same_iff {x y : Double} :
    x.same y = true ↔ (x.isNaN = false ∧ y.isNaN = false) ∧ x.mergeZeros = y.mergeZeros := by
  have hbits : x.bits = y.bits ↔ x = y := ⟨fun h => congrArg mk h, fun h => congrArg bits h⟩
  simp only [same, Bool.and_eq_true, Bool.not_eq_true', Bool.or_eq_true, beq_iff_eq, hbits]
  refine and_congr_right fun _ => ?_
  constructor
  · rintro (rfl | ⟨hx, hy⟩)
    · rfl
    · rw [mergeZeros_of_isZero hx, mergeZeros_of_isZero hy]
  · intro h
    have hzero : x.isZero = y.isZero := by rw [← isZero_mergeZeros, h, isZero_mergeZeros]
    cases hx : x.isZero with
    | true => exact .inr ⟨rfl, hzero ▸ hx⟩
    | false =>
      rw [mergeZeros_of_not_isZero hx, mergeZeros_of_not_isZero (hzero ▸ hx)] at h
      exact .inl h

end Double

namespace Term

/-! ### Other floats in a term -/

mutual

/-- The term with other floats in place of its own. -/
def mapFloats (f : Double → Double) : Term → Term
  | float x => float (f x)
  | list items => list (mapFloatsItems f items)
  | tuple items => tuple (mapFloatsItems f items)
  | map entries => map (mapFloatsEntries f entries)
  | t => t

/-- The elements with other floats in them. -/
def mapFloatsItems (f : Double → Double) : List Term → List Term
  | [] => []
  | t :: ts => t.mapFloats f :: mapFloatsItems f ts

/-- The entries with other floats in their values. -/
def mapFloatsEntries (f : Double → Double) : List (String × Term) → List (String × Term)
  | [] => []
  | (key, t) :: es => (key, t.mapFloats f) :: mapFloatsEntries f es

end

section

variable (f : Double → Double)

theorem mapFloatsItems_eq_map (items : List Term) :
    mapFloatsItems f items = items.map (mapFloats f) := by
  induction items with
  | nil => rfl
  | cons t ts ih => rw [mapFloatsItems, ih, List.map_cons]

theorem mapFloatsEntries_eq_map (entries : List (String × Term)) :
    mapFloatsEntries f entries = entries.map fun e => (e.1, e.2.mapFloats f) := by
  induction entries with
  | nil => rfl
  | cons e es ih => rw [mapFloatsEntries, ih, List.map_cons]

theorem floats_mapFloats (t : Term) : (t.mapFloats f).floats = t.floats.map f := by
  induction t using Term.ind with
  | null | bool | int | uint | str | atom | float => rfl
  | list items ih | tuple items ih =>
    rw [mapFloats, floats, floats, mapFloatsItems_eq_map, floatsItems_eq_flatMap,
      floatsItems_eq_flatMap, List.flatMap_map, List.map_flatMap]
    exact List.flatMap_congr ih
  | map entries ih =>
    rw [mapFloats, floats, floats, mapFloatsEntries_eq_map, floatsEntries_eq_flatMap,
      floatsEntries_eq_flatMap, List.flatMap_map, List.map_flatMap]
    exact List.flatMap_congr ih

/-- A term remains as it is exactly if its floats do. -/
theorem mapFloats_eq_self_iff (t : Term) : t.mapFloats f = t ↔ ∀ x ∈ t.floats, f x = x := by
  induction t using Term.ind with
  | null | bool | int | uint | str | atom | float => simp [mapFloats, floats]
  | list items ih =>
    rw [mapFloats, floats, mapFloatsItems_eq_map, floatsItems_eq_flatMap, List.forall_mem_flatMap,
      Term.list.injEq, Eq.congr_right items.map_id.symm, List.map_inj_left]
    exact forall₂_congr ih
  | tuple items ih =>
    rw [mapFloats, floats, mapFloatsItems_eq_map, floatsItems_eq_flatMap, List.forall_mem_flatMap,
      Term.tuple.injEq, Eq.congr_right items.map_id.symm, List.map_inj_left]
    exact forall₂_congr ih
  | map entries ih =>
    rw [mapFloats, floats, mapFloatsEntries_eq_map, floatsEntries_eq_flatMap,
      List.forall_mem_flatMap, Term.map.injEq, Eq.congr_right entries.map_id.symm,
      List.map_inj_left]
    refine forall₂_congr fun e he => ?_
    rw [Prod.ext_iff, ← ih e he]
    exact and_iff_right rfl

end

/-! ### Equality up to the signs of zeros -/

/-- No float in the term is a NaN. -/
def NoNaN (t : Term) : Prop := ∀ x ∈ t.floats, x.isNaN = false

theorem noNaN_list {items : List Term} : (list items).NoNaN ↔ ∀ t ∈ items, t.NoNaN := by
  rw [NoNaN, floats, floatsItems_eq_flatMap, List.forall_mem_flatMap]
  rfl

theorem noNaN_tuple {items : List Term} : (tuple items).NoNaN ↔ ∀ t ∈ items, t.NoNaN := by
  rw [NoNaN, floats, floatsItems_eq_flatMap, List.forall_mem_flatMap]
  rfl

theorem noNaN_map {entries : List (String × Term)} :
    (map entries).NoNaN ↔ ∀ e ∈ entries, e.2.NoNaN := by
  rw [NoNaN, floats, floatsEntries_eq_flatMap, List.forall_mem_flatMap]
  rfl

section

variable {ts us : List Term} {es fs : List (String × Term)}

theorem sameItems_iff
    (h : ∀ t ∈ ts, ∀ u, t.same u = true ↔
      (t.NoNaN ∧ u.NoNaN) ∧ t.mapFloats Double.mergeZeros = u.mapFloats Double.mergeZeros) :
    sameItems ts us = true ↔
      ((∀ t ∈ ts, t.NoNaN) ∧ ∀ u ∈ us, u.NoNaN) ∧
        ts.map (mapFloats Double.mergeZeros) = us.map (mapFloats Double.mergeZeros) := by
  induction ts generalizing us with
  | nil => cases us <;> simp [sameItems]
  | cons t ts ih =>
    cases us with
    | nil => simp [sameItems]
    | cons u us =>
      obtain ⟨hhead, htail⟩ := List.forall_mem_cons.1 h
      rw [sameItems, Bool.and_eq_true, hhead, ih htail, List.forall_mem_cons, List.forall_mem_cons,
        List.map_cons, List.map_cons, List.cons.injEq, and_and_and_comm,
        and_and_and_comm (a := t.NoNaN)]

theorem sameEntries_iff
    (h : ∀ e ∈ es, ∀ u, e.2.same u = true ↔
      (e.2.NoNaN ∧ u.NoNaN) ∧ e.2.mapFloats Double.mergeZeros = u.mapFloats Double.mergeZeros) :
    sameEntries es fs = true ↔
      ((∀ e ∈ es, e.2.NoNaN) ∧ ∀ e ∈ fs, e.2.NoNaN) ∧
        es.map (fun e => (e.1, e.2.mapFloats Double.mergeZeros)) =
          fs.map fun e => (e.1, e.2.mapFloats Double.mergeZeros) := by
  induction es generalizing fs with
  | nil => cases fs <;> simp [sameEntries]
  | cons e es ih =>
    cases fs with
    | nil => simp [sameEntries]
    | cons f fs =>
      obtain ⟨hhead, htail⟩ := List.forall_mem_cons.1 h
      rw [sameEntries, Bool.and_eq_true, Bool.and_eq_true, beq_iff_eq, hhead, ih htail,
        List.forall_mem_cons, List.forall_mem_cons, List.map_cons, List.map_cons, List.cons.injEq,
        Prod.mk.injEq, and_left_comm (a := e.1 = f.1), and_and_and_comm,
        and_and_and_comm (a := e.2.NoNaN)]

end

/-- **Terms are the same exactly if no NaN is in them and they are equal up to the signs of their
zeros.** -/
theorem same_iff (t : Term) : ∀ u : Term, t.same u = true ↔
    (t.NoNaN ∧ u.NoNaN) ∧ t.mapFloats Double.mergeZeros = u.mapFloats Double.mergeZeros := by
  induction t using Term.ind with
  | null | bool | int | uint | str | atom =>
    intro u
    cases u <;> simp [same, mapFloats, NoNaN, floats]
  | float x =>
    intro u
    cases u with
    | float y => simp [same, mapFloats, NoNaN, floats, Double.same_iff]
    | _ => simp [same, mapFloats]
  | list items ih =>
    intro u
    cases u with
    | list others =>
      rw [same, sameItems_iff ih, noNaN_list, noNaN_list, mapFloats, mapFloats,
        mapFloatsItems_eq_map, mapFloatsItems_eq_map, Term.list.injEq]
    | _ => simp [same, mapFloats]
  | tuple items ih =>
    intro u
    cases u with
    | tuple others =>
      rw [same, sameItems_iff ih, noNaN_tuple, noNaN_tuple, mapFloats, mapFloats,
        mapFloatsItems_eq_map, mapFloatsItems_eq_map, Term.tuple.injEq]
    | _ => simp [same, mapFloats]
  | map entries ih =>
    intro u
    cases u with
    | map others =>
      rw [same, sameEntries_iff ih, noNaN_map, noNaN_map, mapFloats, mapFloats,
        mapFloatsEntries_eq_map, mapFloatsEntries_eq_map, Term.map.injEq]
    | _ => simp [same, mapFloats]

/-! ### A partial equivalence -/

theorem same_comm (t u : Term) : t.same u = u.same t := by
  rw [Bool.eq_iff_iff, same_iff, same_iff, and_comm (a := t.NoNaN), eq_comm]

theorem same_trans {t u w : Term} (htu : t.same u = true) (huw : u.same w = true) :
    t.same w = true := by
  obtain ⟨⟨ht, -⟩, htu⟩ := (same_iff t u).1 htu
  obtain ⟨⟨-, hw⟩, huw⟩ := (same_iff u w).1 huw
  exact (same_iff t w).2 ⟨⟨ht, hw⟩, htu.trans huw⟩

/-- A term is the same as itself exactly if no NaN is in it. -/
theorem same_self_iff (t : Term) : t.same t = true ↔ t.NoNaN := by
  rw [same_iff, and_iff_left rfl, and_self_iff]

/-- Terms that are the same are the same as the same terms. -/
theorem same_congr {t u : Term} (h : t.same u = true) (w : Term) : w.same t = w.same u := by
  rw [Bool.eq_iff_iff]
  exact ⟨fun hw => same_trans hw h, fun hw => same_trans hw (same_comm t u ▸ h)⟩

/-- **Without zeros, terms that are the same are equal.** -/
theorem eq_of_same {t u : Term} (h : t.same u = true) (ht : ∀ x ∈ t.floats, x.isZero = false) :
    t = u := by
  obtain ⟨-, hmerged⟩ := (same_iff t u).1 h
  have hself : t.mapFloats Double.mergeZeros = t :=
    (mapFloats_eq_self_iff _ t).2 fun x hx => Double.mergeZeros_of_not_isZero (ht x hx)
  -- a zero in the other term would be left as a zero in this one
  have hother : u.mapFloats Double.mergeZeros = u := by
    refine (mapFloats_eq_self_iff _ u).2 fun y hy => Double.mergeZeros_of_not_isZero ?_
    have hmem : y.mergeZeros ∈ t.floats := by
      rw [← hself, hmerged, floats_mapFloats]
      exact List.mem_map_of_mem hy
    rw [← Double.isZero_mergeZeros]
    exact ht _ hmem
  rw [← hself, hmerged, hother]

end Term

end Conform
