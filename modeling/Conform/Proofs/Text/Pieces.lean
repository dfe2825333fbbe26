import Mathlib.Data.List.Basic

/-!
# Taking texts apart

A text that was put together of two parts can be taken apart where the second one begins, if it is
known which characters it can begin with and none of them is in the first: what is taken until then
is the first part (`takeWhile_run`), and so equal texts have equal parts (`run_append_inj`).

Rows of digits are such parts, and a number can be told from its digits in any base up to sixteen:
`toDigits_inj`.
-/

namespace Conform

/-- Rows with a separator between any two are the first row and each other one behind a
separator. -/
theorem intercalate_cons_eq_flatMap {α : Type} (separator row : List α) (rows : List (List α)) :
    separator.intercalate (row :: rows) = row ++ rows.flatMap (separator ++ ·) := by
  induction rows generalizing row with
  | nil => simp
  | cons next rows ih =>
    rw [List.intercalate_cons_cons, ih, List.flatMap_cons, List.append_assoc, List.append_assoc]

namespace Text

/-- The text is empty or begins with one of the characters. -/
def StartsIn (p : Char → Bool) (text : List Char) : Prop := ∀ c ∈ text.head?, p c = true

theorem startsIn_nil (p : Char → Bool) : StartsIn p [] := by
  simp [StartsIn]

theorem startsIn_cons {p : Char → Bool} {c : Char} (hc : p c = true) (text : List Char) :
    StartsIn p (c :: text) := by
  simp [StartsIn, hc]

section Runs

variable {p : Char → Bool} {run rest : List Char} (hrun : ∀ c ∈ run, p c = false)
  (hrest : StartsIn p rest)

include hrun hrest

theorem takeWhile_run : (run ++ rest).takeWhile (fun c => !p c) = run := by
  rw [List.takeWhile_append_of_pos fun c hc => by simp [hrun c hc]]
  cases rest with
  | nil => simp
  | cons c rest =>
    have hc : p c = true := hrest c rfl
    simp [hc]

theorem dropWhile_run : (run ++ rest).dropWhile (fun c => !p c) = rest := by
  have happend := List.takeWhile_append_dropWhile (p := fun c => !p c) (l := run ++ rest)
  rw [takeWhile_run hrun hrest] at happend
  exact List.append_cancel_left happend

end Runs

/-- **A run is over where the rest begins.**  If no character of the runs is one with which a rest
begins, then equal texts have equal runs and equal rests. -/
theorem run_append_inj {p : Char → Bool} {run run' rest rest' : List Char}
    (hrun : ∀ c ∈ run, p c = false) (hrun' : ∀ c ∈ run', p c = false) (hrest : StartsIn p rest)
    (hrest' : StartsIn p rest') (h : run ++ rest = run' ++ rest') : run = run' ∧ rest = rest' := by
  constructor
  · rw [← takeWhile_run hrun hrest, h, takeWhile_run hrun' hrest']
  · rw [← dropWhile_run hrun hrest, h, dropWhile_run hrun' hrest']

/-! ### Digits -/

theorem digitChar_inj {m n : Nat} (hm : m < 16) (hn : n < 16)
    (h : Nat.digitChar m = Nat.digitChar n) : m = n := by
  have hall : ∀ m < 16, ∀ n < 16, Nat.digitChar m = Nat.digitChar n → m = n := by decide
  exact hall m hm n hn h

theorem exists_digit_of_mem_toDigits {b : Nat} (hb : 1 < b) {n : Nat} {c : Char}
    (h : c ∈ Nat.toDigits b n) : ∃ d < b, c = Nat.digitChar d := by
  induction n using Nat.strongRecOn with
  | ind n ih =>
    rw [Nat.toDigits_eq_if hb] at h
    split at h
    next hn => exact ⟨n, hn, List.mem_singleton.1 h⟩
    next hn =>
      rcases List.mem_append.1 h with h | h
      · exact ih (n / b) (Nat.div_lt_self (by omega) hb) h
      · exact ⟨n % b, Nat.mod_lt n (by omega), List.mem_singleton.1 h⟩

/-- **The digits of a number tell the number.** -/
theorem toDigits_inj {b : Nat} (hb : 1 < b) (hle : b ≤ 16) {m n : Nat}
    (h : Nat.toDigits b m = Nat.toDigits b n) : m = n := by
  induction m using Nat.strongRecOn generalizing n with
  | ind m ih =>
    rw [Nat.toDigits_eq_if hb, Nat.toDigits_eq_if (n := n) hb] at h
    by_cases hm : m < b <;> by_cases hn : n < b
    · rw [if_pos hm, if_pos hn] at h
      exact digitChar_inj (by omega) (by omega) (List.singleton_inj.1 h)
    · -- a digit before the last one is one too many
      rw [if_pos hm, if_neg hn] at h
      have hlength := congrArg List.length h
      have hpos := List.length_pos_iff.2 (Nat.toDigits_ne_nil (n := n / b) (b := b))
      simp only [List.length_append, List.length_singleton] at hlength
      omega
    · rw [if_neg hm, if_pos hn] at h
      have hlength := congrArg List.length h
      have hpos := List.length_pos_iff.2 (Nat.toDigits_ne_nil (n := m / b) (b := b))
      simp only [List.length_append, List.length_singleton] at hlength
      omega
    · rw [if_neg hm, if_neg hn] at h
      obtain ⟨hfront, hlast⟩ := List.append_inj' h rfl
      have hdiv : m / b = n / b := ih (m / b) (Nat.div_lt_self (by omega) hb) hfront
      have hmod : m % b = n % b := by
        refine digitChar_inj ?_ ?_ (List.singleton_inj.1 hlast)
        · exact Nat.lt_of_lt_of_le (Nat.mod_lt m (by omega)) hle
        · exact Nat.lt_of_lt_of_le (Nat.mod_lt n (by omega)) hle
      rw [← Nat.div_add_mod m b, ← Nat.div_add_mod n b, hdiv, hmod]

end Text

end Conform
