import Conform.Proofs.Text.Pieces
import Conform.Settings.Environment
import Mathlib.Data.List.Forall2

/-!
# Which settings share a variable

The name of a variable joins the parts of a setting with a character that the parts themselves may
have, for whatever is neither a letter nor a digit is written as it.  So `a_b` and `c` share a
variable with `a` and `b_c`.

* `variablePart_eq_iff`: two parts are written alike exactly if their characters are, one by one.
* `variableName_eq_joined`: a name is two parts with a joint between them, behind what all settings
  with the same common part have.
* `variableName_eq_iff`: where the namespaces, or else the keys, have only letters and digits, the
  joint can be found, and settings share a variable exactly if their parts are written alike.
-/

namespace Conform

/-- Two characters are written alike in a variable name: they are one letter, in either case, or one
digit, or neither of them is a letter or a digit. -/
def WrittenAlike (c d : Char) : Prop :=
  c.isAlphanum = d.isAlphanum ∧ (c.isAlphanum = true → c.toUpper = d.toUpper)

instance (c d : Char) : Decidable (WrittenAlike c d) := inferInstanceAs (Decidable (_ ∧ _))

/-- Two texts agree character by character, whatever their cases. -/
def EqualIgnoringCase (s t : String) : Prop :=
  List.Forall₂ (fun c d : Char => c.toUpper = d.toUpper) s.toList t.toList

instance (s t : String) : Decidable (EqualIgnoringCase s t) :=
  inferInstanceAs (Decidable (List.Forall₂ _ _ _))

/-- Every character of the text is an ASCII letter or an ASCII digit. -/
def IsAlphanumeric (text : String) : Prop := ∀ c ∈ text.toList, c.isAlphanum = true

-- goes through the text; the instance that is found goes through all characters
instance (text : String) : Decidable (IsAlphanumeric text) :=
  List.decidableBAll (fun c : Char => c.isAlphanum = true) text.toList

/-! ### Characters -/

/-- What holds of every ASCII character holds of every ASCII letter and digit. -/
theorem forall_alphanumeric {P : Char → Prop} (h : ∀ n < 128, P (Char.ofNat n)) {c : Char}
    (hc : c.isAlphanum = true) : P c := by
  have hcode : c.toNat < 128 := by
    unfold Char.isAlphanum Char.isAlpha Char.isUpper Char.isLower Char.isDigit at hc
    simp only [Bool.or_eq_true, Bool.and_eq_true, decide_eq_true_eq, UInt32.le_iff_toNat_le,
      ge_iff_le] at hc
    change c.val.toNat < 128
    simp only [Char.reduceVal, UInt32.reduceToNat] at hc
    omega
  rw [← Char.ofNat_toNat c]
  exact h c.toNat hcode

/-- A letter or a digit is written as an upper-case letter or a digit. -/
theorem variableChar_of_isAlphanum {c : Char} (hc : c.isAlphanum = true) :
    ((variableChar c).isUpper || (variableChar c).isDigit) = true := by
  refine forall_alphanumeric (P := fun c => c.isAlphanum = true →
    ((variableChar c).isUpper || (variableChar c).isDigit) = true) ?_ hc hc
  decide

theorem variableChar_ne_joint {c : Char} (hc : c.isAlphanum = true) : variableChar c ≠ '_' := by
  intro hjoint
  have hwritten := variableChar_of_isAlphanum hc
  rw [hjoint] at hwritten
  exact absurd hwritten (by decide)

theorem variableChar_eq_iff (c d : Char) : variableChar c = variableChar d ↔ WrittenAlike c d := by
  unfold WrittenAlike
  by_cases hc : c.isAlphanum = true <;> by_cases hd : d.isAlphanum = true
  · simp [variableChar, hc, hd]
  · have hne := variableChar_ne_joint hc
    rw [show variableChar d = '_' from if_neg hd]
    simp [hne, hc, hd]
  · have hne := variableChar_ne_joint hd
    rw [show variableChar c = '_' from if_neg hc]
    simp [hne.symm, hc, hd]
  · simp [variableChar, hc, hd]

/-! ### Parts -/

/-- **Parts are written alike exactly if their characters are.** -/
theorem variablePart_eq_iff (s t : String) :
    variablePart s = variablePart t ↔ List.Forall₂ WrittenAlike s.toList t.toList := by
  rw [variablePart, variablePart, ← List.forall₂_eq_eq_eq, List.forall₂_map_left_iff,
    List.forall₂_map_right_iff]
  simp only [variableChar_eq_iff]

/-- Between texts of letters and digits only the case can differ. -/
theorem variablePart_eq_iff_of_isAlphanumeric {s t : String} (hs : IsAlphanumeric s)
    (ht : IsAlphanumeric t) : variablePart s = variablePart t ↔ EqualIgnoringCase s t := by
  have hupper : ∀ {text : String}, IsAlphanumeric text →
      variablePart text = text.toList.map Char.toUpper := by
    intro text htext
    exact List.map_congr_left fun c hc => if_pos (htext c hc)
  rw [hupper hs, hupper ht, ← List.forall₂_eq_eq_eq, List.forall₂_map_left_iff,
    List.forall₂_map_right_iff, EqualIgnoringCase]

theorem joint_not_mem {text : String} (h : IsAlphanumeric text) :
    ∀ c ∈ variablePart text, (c == '_') = false := by
  intro c hc
  obtain ⟨d, hd, rfl⟩ := List.mem_map.1 hc
  exact beq_eq_false_iff_ne.2 (variableChar_ne_joint (h d hd))

/-! ### Names -/

/-- What the names of all settings with the same common part begin with. -/
def commonPart : Option String → List Char
  | some common => variablePart common ++ ['_']
  | none => []

theorem variableName_eq_joined (common : Option String) (ns key : String) :
    variableName common ns key =
      commonPart common ++ (variablePart ns ++ '_' :: variablePart key) := by
  cases common <;> simp [variableName, commonPart, List.intercalate]

theorem mem_commonPart {common : Option String} {c : Char} (h : c ∈ commonPart common) :
    c = '_' ∨ ∃ text, c ∈ variablePart text := by
  cases common with
  | none => cases h
  | some text =>
    rcases List.mem_append.1 h with hc | hc
    · exact .inr ⟨text, hc⟩
    · exact .inl (List.mem_singleton.1 hc)

theorem mem_variablePart {text : String} {c : Char} (h : c ∈ variablePart text) :
    c = '_' ∨ (c.isUpper || c.isDigit) = true := by
  obtain ⟨d, _, rfl⟩ := List.mem_map.1 h
  by_cases hd : d.isAlphanum = true
  · exact .inr (variableChar_of_isAlphanum hd)
  · exact .inl (if_neg hd)

theorem mem_variableName {common : Option String} {ns key : String} {c : Char}
    (h : c ∈ variableName common ns key) : c = '_' ∨ (c.isUpper || c.isDigit) = true := by
  rw [variableName_eq_joined, List.mem_append, List.mem_append, List.mem_cons] at h
  rcases h with h | h | h | h
  · rcases mem_commonPart h with hjoint | ⟨text, htext⟩
    · exact .inl hjoint
    · exact mem_variablePart htext
  · exact mem_variablePart h
  · exact .inl h
  · exact mem_variablePart h

/-- Two parts before their first joint can be taken apart. -/
theorem joined_eq_iff_of_front {ns ns' : String} (hns : IsAlphanumeric ns)
    (hns' : IsAlphanumeric ns') (key key' : String) :
    variablePart ns ++ '_' :: variablePart key = variablePart ns' ++ '_' :: variablePart key' ↔
      variablePart ns = variablePart ns' ∧ variablePart key = variablePart key' := by
  constructor
  · intro h
    obtain ⟨hfront, hback⟩ := Text.run_append_inj (joint_not_mem hns) (joint_not_mem hns')
      (Text.startsIn_cons rfl _) (Text.startsIn_cons rfl _) h
    exact ⟨hfront, (List.cons.inj hback).2⟩
  · rintro ⟨hfront, hback⟩
    rw [hfront, hback]

/-- Two parts after their last joint can be taken apart: read backwards, it is the first. -/
theorem joined_eq_iff_of_back {key key' : String} (hkey : IsAlphanumeric key)
    (hkey' : IsAlphanumeric key') (ns ns' : String) :
    variablePart ns ++ '_' :: variablePart key = variablePart ns' ++ '_' :: variablePart key' ↔
      variablePart ns = variablePart ns' ∧ variablePart key = variablePart key' := by
  constructor
  · intro h
    have hreverse := congrArg List.reverse h
    simp only [List.reverse_append, List.reverse_cons, List.append_assoc, List.singleton_append]
      at hreverse
    have hrun : ∀ {text : String}, IsAlphanumeric text →
        ∀ c ∈ (variablePart text).reverse, (c == '_') = false :=
      fun htext c hc => joint_not_mem htext c (List.mem_reverse.1 hc)
    obtain ⟨hback, hfront⟩ := Text.run_append_inj (hrun hkey) (hrun hkey')
      (Text.startsIn_cons rfl _) (Text.startsIn_cons rfl _) hreverse
    exact ⟨List.reverse_injective (List.cons.inj hfront).2, List.reverse_injective hback⟩
  · rintro ⟨hfront, hback⟩
    rw [hfront, hback]

/-- **Which settings share a variable.**  If the namespaces have only letters and digits, then
settings with one common part share a variable exactly if the namespaces are equal up to their cases
and the keys are written alike, character by character; and the same with namespaces and keys
exchanged.  A name has no characters but upper-case letters, digits and underscores. -/
theorem variableName_eq_iff (common : Option String) (ns ns' key key' : String) :
    (IsAlphanumeric ns → IsAlphanumeric ns' →
        (variableName common ns key = variableName common ns' key' ↔
          EqualIgnoringCase ns ns' ∧ List.Forall₂ WrittenAlike key.toList key'.toList)) ∧
      (IsAlphanumeric key → IsAlphanumeric key' →
        (variableName common ns key = variableName common ns' key' ↔
          List.Forall₂ WrittenAlike ns.toList ns'.toList ∧ EqualIgnoringCase key key')) ∧
      ∀ c ∈ variableName common ns key, c = '_' ∨ (c.isUpper || c.isDigit) = true := by
  rw [variableName_eq_joined common ns key, variableName_eq_joined common ns' key',
    List.append_cancel_left_eq]
  refine ⟨fun hns hns' => ?_, fun hkey hkey' => ?_, fun c hc => ?_⟩
  · rw [joined_eq_iff_of_front hns hns', variablePart_eq_iff_of_isAlphanumeric hns hns',
      variablePart_eq_iff]
  · rw [joined_eq_iff_of_back hkey hkey', variablePart_eq_iff,
      variablePart_eq_iff_of_isAlphanumeric hkey hkey']
  · rw [← variableName_eq_joined] at hc
    exact mem_variableName hc

/-- Keys that differ in their cases and in what is no letter, under one namespace in two cases, and
namespaces that do so, over one key; an underscore more makes a variable of its own. -/
theorem variableName_eq_iff_of_underscores :
    IsAlphanumeric "dB1" ∧ IsAlphanumeric "Db1" ∧ IsAlphanumeric "c9" ∧ IsAlphanumeric "C9" ∧
      variableName (some "my app") "dB1" "max_pört" =
        variableName (some "my app") "Db1" "MAX-p rt" ∧
      variableName none "a.b" "c9" = variableName none "A_B" "C9" ∧
      variableName none "a.b" "c9" ≠ variableName none "A__B" "C9" := by
  have hns : IsAlphanumeric "dB1" ∧ IsAlphanumeric "Db1" := by decide
  have hkey : IsAlphanumeric "c9" ∧ IsAlphanumeric "C9" := by decide
  refine ⟨hns.1, hns.2, hkey.1, hkey.2, ?_, ?_, ?_⟩
  · exact ((variableName_eq_iff (some "my app") "dB1" "Db1" "max_pört" "MAX-p rt").1
      hns.1 hns.2).2 (by decide)
  · exact ((variableName_eq_iff none "a.b" "A_B" "c9" "C9").2.1 hkey.1 hkey.2).2 (by decide)
  · rw [ne_eq, (variableName_eq_iff none "a.b" "A__B" "c9" "C9").2.1 hkey.1 hkey.2]
    decide

/-- An underscore on both sides hides the joint. -/
example : variableName none "a_b" "c" = variableName none "a" "b_c" := by decide

end Conform
