import Conform.Proofs.Text.Pieces
import Conform.Text.Quoted

/-!
# Quoted text tells where it ends

The escaped form of a character is one of three (`escape_cases`), and none of them is the beginning
of another: of a text that begins with an escaped character, the character and what follows it are
known (`escape_append_inj`).  No escaped form begins with a quote, so that quoted text ends at the
first quote that begins a character: `quoted_append_inj`.
-/

namespace Conform.Text

/-- The characters with a short escape, each with the letter of it. -/
def shortEscapes : List (Char × Char) :=
  [('\x00', '0'), ('\t', 't'), ('\r', 'r'), ('\n', 'n'), ('\"', '\"'), ('\\', '\\')]

theorem shortEscapes_inj : ∀ p ∈ shortEscapes, ∀ q ∈ shortEscapes, p.2 = q.2 → p.1 = q.1 := by
  decide

theorem shortEscapes_ne : ∀ p ∈ shortEscapes, p.2 ≠ 'u' := by
  decide

/-- A character stands for itself, or it has a short escape, or its code is written. -/
theorem escape_cases (c : Char) :
    (escape c = [c] ∧ c ≠ '\\' ∧ c ≠ '\"') ∨
      (∃ e, (c, e) ∈ shortEscapes ∧ escape c = ['\\', e]) ∨
        escape c = '\\' :: 'u' :: '\x7b' :: (hexCode c ++ ['\x7d']) := by
  unfold escape
  split_ifs <;> simp_all [shortEscapes]

theorem hexCode_append_inj {c d : Char} {rest rest' : List Char}
    (h : hexCode c ++ '\x7d' :: rest = hexCode d ++ '\x7d' :: rest') : c = d ∧ rest = rest' := by
  have hdigits : ∀ a b, b ∈ hexCode a → (b == '\x7d') = false := by
    intro a b hb
    obtain ⟨n, hn, rfl⟩ := exists_digit_of_mem_toDigits (by decide) hb
    have hall : ∀ n < 16, (Nat.digitChar n == '\x7d') = false := by decide
    exact hall n hn
  obtain ⟨hcode, hrest⟩ := run_append_inj (hdigits c) (hdigits d) (startsIn_cons rfl rest)
    (startsIn_cons rfl rest') h
  have hnat : c.toNat = d.toNat := toDigits_inj (by decide) (by decide) hcode
  exact ⟨Char.toNat_inj.1 hnat, (List.cons.inj hrest).2⟩

/-- **An escaped character tells the character, and where it ends.** -/
theorem escape_append_inj {c d : Char} {rest rest' : List Char}
    (h : escape c ++ rest = escape d ++ rest') : c = d ∧ rest = rest' := by
  rcases escape_cases c with ⟨hc, hback, -⟩ | ⟨e, hshort, hc⟩ | hc <;>
    rcases escape_cases d with ⟨hd, hback', -⟩ | ⟨e', hshort', hd⟩ | hd <;>
    rw [hc, hd] at h
  · exact List.cons.inj h
  · exact absurd (List.cons.inj h).1 hback
  · exact absurd (List.cons.inj h).1 hback
  · exact absurd (List.cons.inj h).1.symm hback'
  · obtain ⟨hletter, hrest⟩ := List.cons.inj (List.cons.inj h).2
    exact ⟨shortEscapes_inj _ hshort _ hshort' hletter, hrest⟩
  · exact absurd (List.cons.inj (List.cons.inj h).2).1 (shortEscapes_ne _ hshort)
  · exact absurd (List.cons.inj h).1.symm hback'
  · exact absurd (List.cons.inj (List.cons.inj h).2).1.symm (shortEscapes_ne _ hshort')
  · simp only [List.cons_append, List.append_assoc, List.cons.injEq, true_and] at h
    exact hexCode_append_inj h

theorem escape_append_ne (c : Char) (rest rest' : List Char) :
    escape c ++ rest ≠ '\"' :: rest' := by
  intro h
  rcases escape_cases c with ⟨hc, -, hquote⟩ | ⟨e, -, hc⟩ | hc <;> rw [hc] at h
  · exact hquote (List.cons.inj h).1
  · exact absurd (List.cons.inj h).1 (by decide)
  · exact absurd (List.cons.inj h).1 (by decide)

/-- Escaped characters end at the first quote that begins one. -/
theorem flatMap_escape_append_inj {cs ds rest rest' : List Char}
    (h : cs.flatMap escape ++ '\"' :: rest = ds.flatMap escape ++ '\"' :: rest') :
    cs = ds ∧ rest = rest' := by
  induction cs generalizing ds with
  | nil =>
    cases ds with
    | nil => exact ⟨rfl, (List.cons.inj h).2⟩
    | cons d ds =>
      rw [List.flatMap_cons, List.append_assoc] at h
      exact absurd h.symm (escape_append_ne d _ _)
  | cons c cs ih =>
    cases ds with
    | nil =>
      rw [List.flatMap_cons, List.append_assoc] at h
      exact absurd h (escape_append_ne c _ _)
    | cons d ds =>
      rw [List.flatMap_cons, List.flatMap_cons, List.append_assoc, List.append_assoc] at h
      obtain ⟨rfl, htail⟩ := escape_append_inj h
      obtain ⟨rfl, hrest⟩ := ih htail
      exact ⟨rfl, hrest⟩

/-- **Quoted text tells the text, and where it ends.** -/
theorem quoted_append_inj {s t : String} {rest rest' : List Char}
    (h : quoted s ++ rest = quoted t ++ rest') : s = t ∧ rest = rest' := by
  simp only [quoted, quote, List.cons_append, List.append_assoc, List.cons.injEq, true_and,
    List.nil_append] at h
  obtain ⟨htext, hrest⟩ := flatMap_escape_append_inj h
  exact ⟨String.toList_inj.1 htext, hrest⟩

end Conform.Text
