import Conform.Spec.Basic
import Mathlib.Data.List.Nodup

/-!
# Sound rows of fields

`Field.defect?` walks over a row with the keys and the rest directive it has seen.
`defect?_eq_none_iff` says that it lets exactly the sound rows pass; in one of these a rest
directive is *the* rest directive, `Sound.rest?_eq`.
-/

namespace Conform.Field

/-- How many rest directives have been seen, at most one being told apart from none. -/
def restCount (restSeen : Bool) : Nat := if restSeen then 1 else 0

theorem transform?_of_key? {field : Field} {key : String} (h : field.key? = some key) :
    field.transform? = none := by
  cases field with
  | required | optional => rfl
  | rest => cases h

theorem eq_rest_of_key? {field : Field} (h : field.key? = none) :
    ∃ transform, field = rest transform := by
  cases field with
  | required | optional => cases h
  | rest transform => exact ⟨transform, rfl⟩

/-- The row has no defect after others exactly if it is sound together with what was seen. -/
theorem defectAfter?_eq_none_iff (fields : List Field) :
    ∀ (seen : List String) (restSeen : Bool), defectAfter? seen restSeen fields = none ↔
      ((keys fields).Nodup ∧ ∀ key ∈ keys fields, key ∉ seen) ∧
        (fields.filterMap transform?).length + restCount restSeen ≤ 1 := by
  induction fields with
  | nil => intro seen restSeen; cases restSeen <;> simp [defectAfter?, keys, restCount]
  | cons field fields ih =>
    intro seen restSeen
    cases hkey : field.key? with
    | some key =>
      have hkeys : keys (field :: fields) = key :: keys fields := List.filterMap_cons_some hkey
      have hrest : (field :: fields).filterMap transform? = fields.filterMap transform? :=
        List.filterMap_cons_none (transform?_of_key? hkey)
      rw [defectAfter?, hkey, hkeys, hrest]
      by_cases hseen : key ∈ seen
      · simp [hseen]
      · simp only [hseen, if_false, ih (key :: seen) restSeen, List.nodup_cons, List.mem_cons,
          not_or, forall_eq_or_imp, not_false_eq_true, true_and]
        constructor
        · rintro ⟨⟨hn, hs⟩, hr⟩
          exact ⟨⟨⟨fun h => (hs key h).1 rfl, hn⟩, fun k hk => (hs k hk).2⟩, hr⟩
        · rintro ⟨⟨⟨hk, hn⟩, hs⟩, hr⟩
          exact ⟨⟨hn, fun k h => ⟨fun e => hk (e ▸ h), hs k h⟩⟩, hr⟩
    | none =>
      obtain ⟨transform, rfl⟩ := eq_rest_of_key? hkey
      have hkeys : keys (rest transform :: fields) = keys fields := rfl
      have hrest : (rest transform :: fields).filterMap transform? =
          transform :: fields.filterMap transform? := rfl
      rw [defectAfter?, hkey, hkeys, hrest, List.length_cons]
      cases restSeen with
      | true => simp [restCount]
      | false =>
        simp only [Bool.false_eq_true, if_false, ih seen true, restCount, if_true]

/-- **Exactly the sound rows have no defect.** -/
theorem defect?_eq_none_iff {fields : List Field} : defect? fields = none ↔ Sound fields := by
  rw [defect?, defectAfter?_eq_none_iff, Sound]
  simp [restCount]

/-- A rest directive of a sound row is the one that `rest?` finds. -/
theorem Sound.rest?_eq {fields : List Field} (h : Sound fields) {transform : Conversion}
    (hm : rest transform ∈ fields) : rest? fields = some transform := by
  have hmem : transform ∈ fields.filterMap transform? := List.mem_filterMap.2 ⟨_, hm, rfl⟩
  rw [rest?, ← List.head?_filterMap]
  obtain ⟨only, honly⟩ := List.length_eq_one_iff.1
    (Nat.le_antisymm h.2 (List.length_pos_of_mem hmem))
  rw [honly] at hmem ⊢
  rw [List.mem_singleton.1 hmem]
  rfl

theorem rest?_eq_none_iff {fields : List Field} :
    rest? fields = none ↔ ∀ transform, rest transform ∉ fields := by
  rw [rest?, List.findSome?_eq_none_iff]
  constructor
  · intro h transform hm
    exact nomatch h _ hm
  · intro h field hf
    cases field with
    | required | optional => rfl
    | rest transform => exact absurd hf (h transform)

theorem mem_of_rest?_eq {fields : List Field} {transform : Conversion}
    (h : rest? fields = some transform) : rest transform ∈ fields := by
  obtain ⟨field, hf, ht⟩ := List.exists_of_findSome?_eq_some h
  cases field with
  | required | optional => cases ht
  | rest => cases ht; exact hf

end Conform.Field
