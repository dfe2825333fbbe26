import Mathlib.Data.List.Basic
import Mathlib.Tactic.SplitIfs

/-!
# The bytes of texts

A text is stored as the bytes of its characters, one to four for each.  Texts are compared by their
characters, and `bytes_lt_iff` says that this is the order of their bytes as well: the bytes of two
characters part at some place, and the smaller character has the smaller byte there
(`precedes_of_lt`).
-/

namespace Conform.Text

/-- The bytes of a text. -/
def bytes (text : String) : List UInt8 := text.toUTF8.data.toList

theorem bytes_eq_flatMap (text : String) :
    bytes text = text.toList.flatMap String.utf8EncodeChar := by
  rw [bytes, String.toUTF8_eq_toByteArray, ← String.utf8Encode_toList, List.utf8Encode]
  exact List.data_toByteArray ▸ rfl

/-- The rows part at a place that both have, and the first one has the smaller byte there. -/
def Precedes : List UInt8 → List UInt8 → Prop
  | a :: as, b :: bs => a < b ∨ a = b ∧ Precedes as bs
  | _, _ => False

/-- What follows rows that have parted does not matter. -/
theorem Precedes.append_lt {as bs : List UInt8} (h : Precedes as bs) (cs ds : List UInt8) :
    as ++ cs < bs ++ ds := by
  induction as generalizing bs with
  | nil => cases h
  | cons a as ih =>
    cases bs with
    | nil => cases h
    | cons b bs =>
      rw [List.cons_append, List.cons_append, List.cons_lt_cons_iff]
      rcases h with hlt | ⟨heq, hrest⟩
      · exact Or.inl hlt
      · exact Or.inr ⟨heq, ih hrest⟩

/-- Bytes that are given by numbers part as the numbers do. -/
theorem precedes_ofNat_iff {m n : Nat} (hm : m < 256) (hn : n < 256) (as bs : List UInt8) :
    Precedes (UInt8.ofNat m :: as) (UInt8.ofNat n :: bs) ↔ m < n ∨ m = n ∧ Precedes as bs := by
  have hm' : (UInt8.ofNat m).toNat = m := UInt8.toNat_ofNat_of_lt' hm
  have hn' : (UInt8.ofNat n).toNat = n := UInt8.toNat_ofNat_of_lt' hn
  rw [Precedes, UInt8.lt_iff_toNat_lt, ← UInt8.toNat_inj, hm', hn']

theorem toNat_lt (c : Char) : c.val.toNat < 0x110000 := by
  have h : c.val.toNat < 0xd800 ∨ 0xdfff < c.val.toNat ∧ c.val.toNat < 0x110000 := c.valid
  omega

/-- **The bytes of the smaller character come first.** -/
theorem precedes_of_lt {c d : Char} (h : c < d) :
    Precedes (String.utf8EncodeChar c) (String.utf8EncodeChar d) := by
  have hlt : c.val.toNat < d.val.toNat := h
  have hbound : d.val.toNat < 0x110000 := toNat_lt d
  unfold String.utf8EncodeChar
  generalize c.val.toNat = m at *
  generalize d.val.toNat = n at *
  dsimp only
  -- the leading byte tells how many there are, and then each byte is a digit of the code
  split_ifs <;> simp (disch := omega) only [precedes_ofNat_iff, Nat.mod_eq_of_lt] <;> omega

theorem flatMap_lt {cs ds : List Char} (h : cs < ds) :
    cs.flatMap String.utf8EncodeChar < ds.flatMap String.utf8EncodeChar := by
  induction cs generalizing ds with
  | nil =>
    cases ds with
    | nil => exact absurd h (List.not_lt_nil [])
    | cons d ds =>
      cases hd : String.utf8EncodeChar d with
      | nil => exact absurd hd String.utf8EncodeChar_ne_nil
      | cons b bs =>
        rw [List.flatMap_nil, List.flatMap_cons, hd, List.cons_append]
        exact List.nil_lt_cons b _
  | cons c cs ih =>
    cases ds with
    | nil => exact absurd h (List.not_lt_nil _)
    | cons d ds =>
      rw [List.flatMap_cons, List.flatMap_cons]
      rcases List.cons_lt_cons_iff.1 h with hlt | ⟨rfl, hrest⟩
      · exact (precedes_of_lt hlt).append_lt _ _
      · exact List.append_left_lt (ih hrest)

theorem bytes_lt_of_lt {s t : String} (h : s < t) : bytes s < bytes t := by
  rw [bytes_eq_flatMap, bytes_eq_flatMap]
  exact flatMap_lt (String.lt_iff.1 h)

/-- **The order of texts is the order of their bytes.** -/
theorem bytes_lt_iff {s t : String} : bytes s < bytes t ↔ s < t := by
  refine ⟨fun h => ?_, bytes_lt_of_lt⟩
  by_contra hnot
  have hle : t ≤ s := String.not_lt.1 hnot
  by_cases heq : t = s
  · rw [heq] at h
    exact List.lt_irrefl _ h
  · have hback : bytes t < bytes s := bytes_lt_of_lt (Std.lt_of_le_of_ne hle heq)
    exact List.lt_asymm h hback

end Conform.Text
