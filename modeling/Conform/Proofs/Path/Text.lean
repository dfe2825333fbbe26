import Conform.Path.Basic
import Conform.Proofs.Text.Pieces

/-!
# What the text of a path tells

The text of a path is that of its steps, with nothing between them and nothing escaped.  Each step
begins with a mark, a dot or an opening bracket, and if no name has one of these characters, then
the marks are where the steps begin: `Segment.text_append_inj`.

* `Path.text_inj`: such a path can be told from its text.
* `Path.text_eq_rootMarker_iff`: the marker of the root is the text of the root only.
-/

namespace Conform

namespace Segment

/-- The characters with which steps begin. -/
def isMark (c : Char) : Bool := c == '.' || c == '['

/-- No name in the step has a character with which a step begins. -/
def Plain : Segment → Prop
  | field name => ∀ c ∈ name.toList, isMark c = false
  | index _ => True

instance : DecidablePred Plain
  -- goes through the text; the instance that is found goes through all characters
  | field name => List.decidableBAll (fun c => isMark c = false) name.toList
  | index _ => inferInstanceAs (Decidable True)

theorem startsIn_text_append (s : Segment) (rest : List Char) :
    Text.StartsIn isMark (s.text ++ rest) := by
  cases s <;> exact Text.startsIn_cons rfl _

theorem text_ne_nil (s : Segment) : s.text ≠ [] := by
  cases s <;> exact List.cons_ne_nil _ _

/-- A number and its closing bracket have no mark. -/
theorem isMark_eq_false_of_mem_index {i : Nat} {c : Char}
    (h : c ∈ Nat.toDigits 10 i ++ [']']) : isMark c = false := by
  rcases List.mem_append.1 h with hdigit | hclose
  · have hc : c.isDigit = true := Nat.isDigit_of_mem_toDigits (by decide) (by decide) hdigit
    cases hmark : isMark c with
    | false => rfl
    | true =>
      simp only [isMark, Bool.or_eq_true, beq_iff_eq] at hmark
      rcases hmark with rfl | rfl <;> exact absurd hc (by decide)
  · rw [List.mem_singleton.1 hclose]
    rfl

/-- **A step is over where the next one begins.** -/
theorem text_append_inj {s t : Segment} (hs : s.Plain) (ht : t.Plain) {rest rest' : List Char}
    (hrest : Text.StartsIn isMark rest) (hrest' : Text.StartsIn isMark rest')
    (h : s.text ++ rest = t.text ++ rest') : s = t ∧ rest = rest' := by
  cases s with
  | field name =>
    cases t with
    | field other =>
      obtain ⟨hname, heq⟩ := Text.run_append_inj hs ht hrest hrest' (List.cons.inj h).2
      exact ⟨congrArg field (String.toList_injective hname), heq⟩
    | index j => exact absurd (List.cons.inj h).1 (by decide)
  | index i =>
    cases t with
    | field other => exact absurd (List.cons.inj h).1 (by decide)
    | index j =>
      obtain ⟨hnumber, heq⟩ := Text.run_append_inj (fun _ => isMark_eq_false_of_mem_index)
        (fun _ => isMark_eq_false_of_mem_index) hrest hrest' (List.cons.inj h).2
      have hdigits : Nat.toDigits 10 i = Nat.toDigits 10 j := List.append_cancel_right hnumber
      exact ⟨congrArg index (Text.toDigits_inj (by decide) (by decide) hdigits), heq⟩

end Segment

namespace Path

/-- No name in the path has a character with which a step begins. -/
def Plain (p : Path) : Prop := ∀ s ∈ p, s.Plain

instance : DecidablePred Plain := fun p => inferInstanceAs (Decidable (∀ s ∈ p, s.Plain))

theorem Plain.append {p q : Path} (hp : p.Plain) (hq : q.Plain) : Plain (p ++ q) := by
  intro s hs
  rcases List.mem_append.1 hs with h | h
  · exact hp s h
  · exact hq s h

theorem startsIn_flatMap (p : Path) : Text.StartsIn Segment.isMark (p.flatMap Segment.text) := by
  cases p with
  | nil => exact Text.startsIn_nil _
  | cons s p => exact s.startsIn_text_append _

theorem flatMap_text_inj {p q : Path} (hp : p.Plain) (hq : q.Plain)
    (h : p.flatMap Segment.text = q.flatMap Segment.text) : p = q := by
  induction p generalizing q with
  | nil =>
    cases q with
    | nil => rfl
    | cons t q =>
      rw [List.flatMap_cons] at h
      exact absurd (List.append_eq_nil_iff.1 h.symm).1 t.text_ne_nil
  | cons s p ih =>
    cases q with
    | nil =>
      rw [List.flatMap_cons] at h
      exact absurd (List.append_eq_nil_iff.1 h).1 s.text_ne_nil
    | cons t q =>
      obtain ⟨hs, hp⟩ := List.forall_mem_cons.1 hp
      obtain ⟨ht, hq⟩ := List.forall_mem_cons.1 hq
      rw [List.flatMap_cons, List.flatMap_cons] at h
      obtain ⟨hstep, hrest⟩ :=
        Segment.text_append_inj hs ht (startsIn_flatMap p) (startsIn_flatMap q) h
      rw [hstep, ih hp hq hrest]

/-- A text of steps begins with a mark, which the marker of the root does not. -/
theorem text_eq_rootMarker_iff (p : Path) : p.text = rootMarker ↔ p = root := by
  cases p with
  | nil => exact iff_of_true rfl rfl
  | cons s p =>
    refine iff_of_false (fun h => ?_) (List.cons_ne_nil s p)
    have hmark : Text.StartsIn Segment.isMark rootMarker := h ▸ s.startsIn_text_append _
    exact absurd (hmark '(' rfl) (by decide)

/-- **A path without marks in its names can be told from its text.** -/
theorem text_inj {p q : Path} (hp : p.Plain) (hq : q.Plain) (h : p.text = q.text) : p = q := by
  by_cases hroot : p = root
  · rw [hroot]
    exact ((text_eq_rootMarker_iff q).1 (by rw [← h, hroot]; rfl)).symm
  · by_cases hroot' : q = root
    · rw [hroot']
      exact (text_eq_rootMarker_iff p).1 (by rw [h, hroot']; rfl)
    · have hsteps : ∀ {r : Path}, r ≠ root → r.text = r.flatMap Segment.text :=
        fun hr => if_neg (by simpa [root] using hr)
      rw [hsteps hroot, hsteps hroot'] at h
      exact flatMap_text_inj hp hq h

/-- A name with a mark is taken for two steps. -/
example : text [.field "a.b"] = text [.field "a", .field "b"] := by decide

end Path

end Conform
