import Conform.Proofs.Canonical.Nodes

/-!
# Nested pipelines

The first stage of a pipeline sees the value, and every later one the term that the stage before it
yields.  For a native term this makes no difference, and the stages of a nested pipeline are stages
of the outer one: `canonical_flatten_native`, by way of `through_append`.

For a document it does, and the view has to change at the same stage on both sides.  It does so if
some stage sees the document before the nested pipeline or in it, `canonical_flatten`.  An empty
pipeline in front, or `any`, sees the document and hands it on as a term, so that the stages behind
it match the native form, `canonical_handsOn_cons`.
-/

namespace Conform

namespace Spec

variable {refer : String → Matcher}

/-! ### Stages of terms -/

theorem through_append (xs ys : List Spec) (p : Path) (t : Term) :
    through refer p (xs ++ ys) t = (through refer p xs t).bind (through refer p ys) := by
  induction xs generalizing t with
  | nil => rfl
  | cons stage stages ih =>
    rw [List.cons_append, through_cons, through_cons]
    cases canonical refer stage (.native t) p with
    | error f => rfl
    | ok u => exact ih u

/-- A native term goes through the stages of a pipeline, the first one included. -/
theorem canonical_pipeline_native (stages : List Spec) (p : Path) (t : Term) :
    canonical refer (pipeline stages) (.native t) p = through refer p stages t := by
  cases stages with
  | nil =>
    rw [canonical]
    rfl
  | cons stage stages => rw [canonical_pipeline_cons, through_cons]

theorem through_flatten (xs ys zs : List Spec) (p : Path) (t : Term) :
    through refer p (xs ++ pipeline ys :: zs) t = through refer p (xs ++ (ys ++ zs)) t := by
  have hstage : ∀ u, through refer p (pipeline ys :: zs) u = through refer p (ys ++ zs) u := by
    intro u
    rw [through_cons, canonical_pipeline_native, through_append]
  rw [through_append, through_append]
  congr 1
  funext u
  exact hstage u

/-- **A pipeline among the stages of a term** is as good as its own stages. -/
theorem canonical_flatten_native (xs ys zs : List Spec) (p : Path) (t : Term) :
    canonical refer (pipeline (xs ++ pipeline ys :: zs)) (.native t) p =
      canonical refer (pipeline (xs ++ (ys ++ zs))) (.native t) p := by
  rw [canonical_pipeline_native, canonical_pipeline_native]
  exact through_flatten xs ys zs p t

/-! ### Stages of values -/

/-- Behind the first stage a pipeline continues with what that stage yields. -/
theorem canonical_pipeline_append {xs : List Spec} (h : xs ≠ []) (ys : List Spec) (v : Value)
    (p : Path) :
    canonical refer (pipeline (xs ++ ys)) v p =
      (canonical refer (pipeline xs) v p).bind (through refer p ys) := by
  cases xs with
  | nil => exact absurd rfl h
  | cons stage stages =>
    rw [List.cons_append, canonical_pipeline_cons, canonical_pipeline_cons]
    cases canonical refer stage v p with
    | error f => rfl
    | ok u => exact through_append stages ys p u

/-- **A pipeline among the stages of any value** is as good as its own stages if one of them, or one
before it, sees the value. -/
theorem canonical_flatten {xs ys : List Spec} (h : xs ≠ [] ∨ ys ≠ []) (zs : List Spec) (v : Value)
    (p : Path) :
    canonical refer (pipeline (xs ++ pipeline ys :: zs)) v p =
      canonical refer (pipeline (xs ++ (ys ++ zs))) v p := by
  by_cases hxs : xs = []
  · have hys : ys ≠ [] := h.resolve_left fun hne => hne hxs
    rw [hxs, List.nil_append, List.nil_append, canonical_pipeline_cons,
      canonical_pipeline_append hys]
  · rw [canonical_pipeline_append hxs, canonical_pipeline_append hxs]
    congr 1
    funext u
    exact through_flatten [] ys zs p u

/-! ### Stages that hand on -/

/-- The stage yields the native form of every value. -/
def HandsOn (refer : String → Matcher) (stage : Spec) : Prop :=
  ∀ v p, canonical refer stage v p = .ok v.toTerm

theorem handsOn_any : HandsOn refer any := by
  intro v p
  rw [canonical]

theorem handsOn_pipeline_nil : HandsOn refer (pipeline []) := by
  intro v p
  rw [canonical]

/-- **A stage in front that hands everything on** makes the match one of the native form. -/
theorem canonical_handsOn_cons {stage : Spec} (h : HandsOn refer stage) (stages : List Spec)
    (v : Value) (p : Path) :
    canonical refer (pipeline (stage :: stages)) v p =
      canonical refer (pipeline stages) (.native v.toTerm) p := by
  rw [canonical_pipeline_cons, h, canonical_pipeline_native]
  rfl

/-- Among the stages of a term, one that hands everything on does nothing. -/
theorem canonical_handsOn_native {stage : Spec} (h : HandsOn refer stage) (xs zs : List Spec)
    (p : Path) (t : Term) :
    canonical refer (pipeline (xs ++ stage :: zs)) (.native t) p =
      canonical refer (pipeline (xs ++ zs)) (.native t) p := by
  rw [canonical_pipeline_native, canonical_pipeline_native, through_append, through_append]
  congr 1
  funext u
  rw [through_cons, h]
  rfl

end Spec

namespace Definitions

/-- **Nested pipelines are flat.**  For a native term the stages of a pipeline within a pipeline
count as stages of the outer one, so that an empty pipeline counts for nothing, and neither does
`any`.  The same holds for a document if a stage in front of the inner pipeline or in it sees the
document.  If the inner pipeline is empty and comes first, or `any` does, the other stages match
the native form of the document. -/
theorem matching_flat (defs : Definitions) (bound : Nat) (xs ys zs : List Spec) (p : Path) :
    (∀ t : Term, defs.matching bound (.pipeline (xs ++ [.pipeline ys] ++ zs)) (.native t) p =
      defs.matching bound (.pipeline (xs ++ ys ++ zs)) (.native t) p) ∧
      (∀ t : Term, defs.matching bound (.pipeline (xs ++ [.any] ++ zs)) (.native t) p =
        defs.matching bound (.pipeline (xs ++ zs)) (.native t) p) ∧
      (∀ d : Document, xs ≠ [] ∨ ys ≠ [] →
        defs.matching bound (.pipeline (xs ++ [.pipeline ys] ++ zs)) (.document d) p =
          defs.matching bound (.pipeline (xs ++ ys ++ zs)) (.document d) p) ∧
      ∀ d : Document,
        defs.matching bound (.pipeline (.pipeline [] :: zs)) (.document d) p =
            defs.matching bound (.pipeline zs) (.native d.toTerm) p ∧
          defs.matching bound (.pipeline (.any :: zs)) (.document d) p =
            defs.matching bound (.pipeline zs) (.native d.toTerm) p := by
  have hinner : ∀ stage : Spec, xs ++ [stage] ++ zs = xs ++ stage :: zs := by
    intro stage
    rw [List.append_assoc]
    rfl
  rw [hinner, hinner, List.append_assoc]
  refine ⟨fun t => ?_, fun t => ?_, fun d h => ?_, fun d => ⟨?_, ?_⟩⟩
  · exact Spec.canonical_flatten_native xs ys zs p t
  · exact Spec.canonical_handsOn_native Spec.handsOn_any xs zs p t
  · exact Spec.canonical_flatten h zs (.document d) p
  · exact Spec.canonical_handsOn_cons Spec.handsOn_pipeline_nil zs (.document d) p
  · exact Spec.canonical_handsOn_cons Spec.handsOn_any zs (.document d) p

/-- The inner pipeline comes first and goes on to a proplist, which no document is. -/
theorem matching_flat_of_inner_first :
    let ys : List Spec := [.array .any, .list .any]
    let zs : List Spec := [.proplist [.optional "a" .integer .null]]
    let d : Document := .array []
    (ys ≠ [] ∧
      Definitions.matching [] 0 (.pipeline ([] ++ [.pipeline ys] ++ zs)) (.document d) Path.root =
        Definitions.matching [] 0 (.pipeline ([] ++ ys ++ zs)) (.document d) Path.root) ∧
      Definitions.matching [] 0 (.pipeline ([] ++ ys ++ zs)) (.document d) Path.root =
        .ok (.tuple [.null]) := by
  intro ys zs d
  have hys : ys ≠ [] := List.cons_ne_nil _ _
  exact ⟨⟨hys, (matching_flat [] 0 [] ys zs Path.root).2.2.1 d (Or.inr hys)⟩, rfl⟩

-- Nothing in front is not the same as an empty pipeline in front.
example : Definitions.matching [] 0 (.pipeline [.pipeline [], .proplist []]) (.document (.array []))
      Path.root = .ok (.tuple []) ∧
    Definitions.matching [] 0 (.pipeline [.proplist []]) (.document (.array [])) Path.root =
      .error (.wrongType (.document (.array [])) (.proplist []) Path.root) :=
  ⟨rfl, rfl⟩

end Definitions

end Conform
