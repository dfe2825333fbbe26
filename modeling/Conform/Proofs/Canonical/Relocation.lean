import Conform.Proofs.Canonical.Nodes

/-!
# Matches below a path

The path at which a match begins says only where its failures are.  `Failure.under` moves a failure
below a path, and `canonical_under` says that a match which begins below a path is the match
without it, its failure moved: what is accepted, and as what, does not depend on the path.
-/

namespace Conform

namespace Failure

/-- The failure, found below a path. -/
def under (p : Path) : Failure → Failure
  | mismatch m => mismatch { m with path := p ++ m.path }
  | endless => endless
  | undefined name => undefined name

end Failure

namespace Path

theorem append_index (p q : Path) (i : Nat) : (p ++ q).index i = p ++ q.index i :=
  List.append_assoc p q _

theorem append_field (p q : Path) (name : String) : (p ++ q).field name = p ++ q.field name :=
  List.append_assoc p q _

end Path

/-- A matcher whose failures move with the path at which it begins. -/
def Matcher.Relocatable (m : Matcher) : Prop :=
  ∀ v p q, m v (p ++ q) = (m v q).mapError (Failure.under p)

theorem closeFields_under (fields : List Field) (entries : List Entry) (p q : Path)
    (slots : List (Option Term)) :
    closeFields fields entries (p ++ q) slots =
      (closeFields fields entries q slots).mapError (Failure.under p) := by
  cases h : Field.rest? fields with
  | some transform =>
    rw [closeFields_of_rest h, closeFields_of_rest h]
    cases transform (Entry.captured fields entries) <;> rfl
  | none =>
    rw [closeFields_of_no_rest h, closeFields_of_no_rest h]
    split <;> rfl

variable {refer : String → Matcher}

theorem Matcher.items_under {m : Matcher} (h : m.Relocatable) (p q : Path) (vs : List Value) :
    m.items (p ++ q) 0 vs = (m.items q 0 vs).mapError (Failure.under p) := by
  rw [m.items_eq_mapM, m.items_eq_mapM, ← mapM_mapError]
  refine mapM_congr fun x _ => ?_
  rw [Path.append_index, h]

theorem Field.slot_under {field : Field}
    (h : ∀ spec, field.spec? = some spec → (spec.canonical refer).Relocatable)
    (entries : List Entry) (p q : Path) :
    field.slot refer entries (p ++ q) =
      (field.slot refer entries q).mapError (Failure.under p) := by
  cases field with
  | required key spec =>
    simp only [Field.slot]
    cases Entry.first? key entries with
    | none => rfl
    | some v =>
      dsimp only
      rw [mapError_map, Path.append_field, h spec rfl]
  | optional key spec default =>
    simp only [Field.slot]
    cases Entry.first? key entries with
    | none => rfl
    | some v =>
      dsimp only
      rw [mapError_map, Path.append_field, h spec rfl]
  | rest transform => rfl

namespace Spec

theorem through_under {stages : List Spec}
    (h : ∀ stage ∈ stages, (stage.canonical refer).Relocatable) (p q : Path) :
    ∀ t, through refer (p ++ q) stages t =
      (through refer q stages t).mapError (Failure.under p) := by
  induction stages with
  | nil => intro t; rfl
  | cons stage stages ih =>
    intro t
    have hrest := ih fun s hs => h s (List.mem_cons_of_mem stage hs)
    rw [through_cons, through_cons, mapError_bind, h stage List.mem_cons_self]
    simp only [← hrest]

/-- **A match below a path is the match without it, its failure moved**, if that is so for names. -/
theorem canonical_under (hr : ∀ name, Matcher.Relocatable (refer name)) (s : Spec) :
    (s.canonical refer).Relocatable := by
  induction s using Spec.ind with
  | leaf s judge h =>
    intro v p q
    rw [canonical_of_judge h, canonical_of_judge h]
    cases judge v <;> rfl
  | sequence s element h ih =>
    intro v p q
    rw [canonical_of_element h, canonical_of_element h]
    cases v.elements? with
    | none => rfl
    | some items =>
      dsimp only
      rw [mapError_map, Matcher.items_under ih]
  | row s fields h ih =>
    intro v p q
    rw [canonical_of_fields h, canonical_of_fields h]
    cases s.entries? v with
    | none => rfl
    | some entries =>
      -- the slots are moved one by one, and what is left over is judged at the row itself
      have hslots : slots refer entries (p ++ q) fields =
          (slots refer entries q fields).mapError (Failure.under p) := by
        rw [slots_eq_mapM, slots_eq_mapM, ← mapM_mapError]
        exact mapM_congr fun field hf => Field.slot_under (ih field hf) entries p q
      dsimp only
      rw [mapError_bind, hslots]
      simp only [← closeFields_under]
  | pipeline stages ih =>
    intro v p q
    cases stages with
    | nil => rfl
    | cons stage stages =>
      have hrest := through_under (fun s hs => ih s (List.mem_cons_of_mem stage hs)) p q
      rw [canonical_pipeline_cons, canonical_pipeline_cons, mapError_bind,
        ih stage List.mem_cons_self]
      congr 1
      funext t
      exact hrest t
  | named name => exact hr name

end Spec

namespace Definitions

theorem refer_under (defs : Definitions) (bound : Nat) :
    ∀ name, Matcher.Relocatable (defs.refer bound name) := by
  refine refer_ind (motive := fun _ m => m.Relocatable) ?_ ?_ ?_ bound
  · intro name v p q
    rfl
  · intro name v p q
    rfl
  · intro name spec refer _ ih
    exact Spec.canonical_under ih spec

theorem matching_under (defs : Definitions) (bound : Nat) (spec : Spec) (v : Value) (p q : Path) :
    defs.matching bound spec v (p ++ q) =
      (defs.matching bound spec v q).mapError (Failure.under p) :=
  Spec.canonical_under (defs.refer_under bound) spec v p q

/-- What is accepted at one path is accepted at every other, as the same. -/
theorem matching_eq_ok_at {defs : Definitions} {bound : Nat} {spec : Spec} {v : Value} {p : Path}
    {t : Term} (h : defs.matching bound spec v p = .ok t) (q : Path) :
    defs.matching bound spec v q = .ok t := by
  -- both paths are below the root, and results are not moved
  have hroot : defs.matching bound spec v Path.root = .ok t := by
    rw [← List.append_nil p, matching_under] at h
    exact mapError_eq_ok_iff.1 h
  rw [← List.append_nil q, matching_under]
  exact mapError_eq_ok_iff.2 hroot

end Definitions

end Conform
