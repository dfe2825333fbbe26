import Conform.Canonical
import Conform.Proofs.Term.Equality

/-!
# Choices among literals

A `member` yields the first of its literals that is the same as the value.  Which literals are the
same as a value is a matter of equality alone, a partial equivalence, and what a choice does follows
from that.

* `exists_member_iff`: it accepts what one of its literals is the same as, and nothing else.
* `member_again`: its literal is the same as the same literals as the value, so it comes out again.
-/

namespace Conform.Definitions

section

variable {defs : Definitions} {bound : Nat} {literals : List Term} {v : Value} {p : Path} {t : Term}

theorem member_eq_ok_iff :
    defs.matching bound (.member literals) v p = .ok t ↔
      literals.find? (fun u => u.same v.toTerm) = some t := by
  rw [matching, Spec.canonical]
  cases literals.find? fun u => u.same v.toTerm with
  | none => exact ⟨nofun, nofun⟩
  | some u => rw [Except.ok.injEq, Option.some.injEq]

theorem exists_member_iff :
    (∃ t, defs.matching bound (.member literals) v p = .ok t) ↔
      ∃ u ∈ literals, u.same v.toTerm = true := by
  simp only [member_eq_ok_iff, ← Option.isSome_iff_exists, List.find?_isSome]

theorem member_eq_error (h : ∀ u ∈ literals, u.same v.toTerm = false) :
    defs.matching bound (.member literals) v p = .error (.wrongType v (.member literals) p) := by
  have hnone : literals.find? (fun u => u.same v.toTerm) = none :=
    List.find?_eq_none.2 fun u hu => Bool.eq_false_iff.1 (h u hu)
  rw [matching, Spec.canonical, hnone]

/-- A NaN in a value keeps every literal from being the same. -/
theorem member_eq_error_of_isNaN {x : Double} (hx : x ∈ v.toTerm.floats) (hnan : x.isNaN = true) :
    defs.matching bound (.member literals) v p = .error (.wrongType v (.member literals) p) := by
  refine member_eq_error fun u _ => Bool.eq_false_iff.2 fun hsame => ?_
  have hself : v.toTerm.NoNaN := ((Term.same_iff u v.toTerm).1 hsame).1.2
  rw [hself x hx] at hnan
  cases hnan

/-- What a choice yields, it yields again. -/
theorem member_again (h : defs.matching bound (.member literals) v p = .ok t) (q : Path) :
    defs.matching bound (.member literals) (.native t) q = .ok t := by
  have hfind := member_eq_ok_iff.1 h
  have hsame : t.same v.toTerm = true := by simpa using List.find?_some hfind
  -- the literal and the value are the same as the same terms, so the search finds one and the same
  have hagree : (fun u : Term => u.same t) = fun u => u.same v.toTerm :=
    funext fun u => Term.same_congr hsame u
  refine member_eq_ok_iff.2 ?_
  rw [Value.toTerm, hagree]
  exact hfind

end

/-- **Equality of terms is a partial equivalence, and choices rest on it.**  It is symmetric and
transitive, the terms without a NaN are those that are the same as themselves, and for a term
without NaNs and zeros it is identity.  So a choice accepts what one of its literals is the same as;
it rejects a value with a NaN anywhere in it, be it among the literals itself; it accepts each of
its literals without a NaN; the order and the number of its literals do not matter for that; and
what it yields, it yields again. -/
theorem matching_member :
    (∀ t u : Term, t.same u = u.same t) ∧
      (∀ t u w : Term, t.same u = true → u.same w = true → t.same w = true) ∧
      (∀ t : Term, t.same t = true ↔ ∀ x ∈ t.floats, x.isNaN = false) ∧
      (∀ t u : Term, (∀ x ∈ t.floats, x.isNaN = false ∧ x.isZero = false) →
        (t.same u = true ↔ t = u)) ∧
      ∀ (defs : Definitions) (bound : Nat) (literals : List Term) (v : Value) (p : Path),
        ((∃ t, defs.matching bound (.member literals) v p = .ok t) ↔
          ∃ u ∈ literals, u.same v.toTerm = true) ∧
        ((∃ x ∈ v.toTerm.floats, x.isNaN = true) →
          defs.matching bound (.member literals) v p =
            .error (.wrongType v (.member literals) p)) ∧
        (v.toTerm ∈ literals → (∀ x ∈ v.toTerm.floats, x.isNaN = false) →
          ∃ t, defs.matching bound (.member literals) v p = .ok t) ∧
        (∀ others : List Term, (∀ u, u ∈ others ↔ u ∈ literals) →
          ((∃ t, defs.matching bound (.member others) v p = .ok t) ↔
            ∃ t, defs.matching bound (.member literals) v p = .ok t)) ∧
        ∀ t, defs.matching bound (.member literals) v p = .ok t →
          ∀ q, defs.matching bound (.member literals) (.native t) q = .ok t := by
  refine ⟨Term.same_comm, fun _ _ _ => Term.same_trans, Term.same_self_iff, fun t u ht => ?_,
    fun defs bound literals v p => ⟨exists_member_iff, ?_, ?_, ?_, fun t => member_again⟩⟩
  · constructor
    · intro h
      exact Term.eq_of_same h fun x hx => (ht x hx).2
    · rintro rfl
      exact (Term.same_self_iff t).2 fun x hx => (ht x hx).1
  · rintro ⟨x, hx, hnan⟩
    exact member_eq_error_of_isNaN hx hnan
  · intro hmem hnan
    exact exists_member_iff.2 ⟨v.toTerm, hmem, (Term.same_self_iff v.toTerm).2 hnan⟩
  · intro others hothers
    simp only [exists_member_iff, hothers]

/-- The literal with the positive zero comes out for the negative one, and again for itself; with
the literals in another order, one of them twice, there is still one for it; and a NaN is rejected
although it is listed. -/
theorem matching_member_of_signed_zeros :
    let nan := Term.map [("k", .float Double.nan)]
    let zero := Term.list [.float (Double.zero false)]
    let negative := Term.list [.float (Double.zero true)]
    let choice := Spec.member [nan, zero, negative]
    negative ≠ zero ∧
      Definitions.matching [] 0 choice (.native negative) Path.root = .ok zero ∧
      Definitions.matching [] 0 choice (.native zero) Path.root = .ok zero ∧
      (∃ t, Definitions.matching [] 0 (.member [negative, zero, nan, zero]) (.native negative)
        Path.root = .ok t) ∧
      Definitions.matching [] 0 choice (.native nan) Path.root =
        .error (.wrongType (.native nan) choice Path.root) := by
  intro nan zero negative choice
  have hfirst : Definitions.matching [] 0 choice (.native negative) Path.root = .ok zero := rfl
  have hdistinct : negative ≠ zero := by
    simp [negative, zero]
    decide
  have hothers : ∀ u, u ∈ [negative, zero, nan, zero] ↔ u ∈ [nan, zero, negative] := by
    intro u
    simp only [List.mem_cons, List.not_mem_nil]
    grind
  obtain ⟨-, -, -, -, hchoices⟩ := matching_member
  obtain ⟨-, -, -, hsame, hagain⟩ :=
    hchoices [] 0 [nan, zero, negative] (.native negative) Path.root
  obtain ⟨-, hrejects, -⟩ := hchoices [] 0 [nan, zero, negative] (.native nan) Path.root
  exact ⟨hdistinct, hfirst, hagain zero hfirst Path.root, (hsame _ hothers).2 ⟨zero, hfirst⟩,
    hrejects ⟨Double.nan, List.mem_singleton_self _, by decide⟩⟩

end Conform.Definitions
