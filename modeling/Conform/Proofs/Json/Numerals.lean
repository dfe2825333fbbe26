import Conform.Proofs.Json.Scanning
import Conform.Proofs.Text.Pieces
import Conform.Term.Json
import Mathlib.Data.List.TakeWhile

/-!
# Numerals that are written

The grammar of numerals is stated for both signs at once: digits alone, or with an exponent
(`Numeral.parse?_whole`), and digits on both sides of a point (`Numeral.parse?_fraction`).

Integers are written in decimal, and a 64-bit integer is read back as the integer it is
(`numberOfNumeral?_decimal`).  Of the numeral of a finite double only the characters are known here:
whether it is read back as that double is left to who reads it.
-/

namespace Conform

namespace Json

/-! ### Decimal digits -/

theorem isDigit_of_mem_toDigits {n : Nat} {c : Char} (h : c ∈ Nat.toDigits 10 n) :
    Numeral.isDigit c = true := by
  have hdigit := Nat.isDigit_of_mem_toDigits (by decide) (by decide) h
  simpa [Numeral.isDigit, Char.isDigit, Char.le_def] using hdigit

theorem isNumeralChar_of_isDigit {c : Char} (h : Numeral.isDigit c = true) :
    Token.isNumeralChar c = true := by
  rw [Token.isNumeralChar, h, Bool.true_or]

theorem digitsValue_toDigits (n : Nat) : Numeral.digitsValue (Nat.toDigits 10 n) = n := by
  have hstep : (fun n c => n * 10 + Numeral.digitValue c) =
      fun n (c : Char) => 10 * n + (c.toNat - '0'.toNat) := by
    funext n c
    rw [Nat.mul_comm, Numeral.digitValue]
  rw [Numeral.digitsValue, hstep]
  exact Nat.ofDigitChars_ten_toDigits

/-- A decimal begins with a zero only if it is one. -/
theorem head?_toDigits {n : Nat} (hn : 0 < n) : (Nat.toDigits 10 n).head? ≠ some '0' := by
  induction n using Nat.base_induction 10 (by decide) with
  | single d hd => simp [Nat.toDigits_of_lt_base hd]; omega
  | digit m d hd hm ih =>
    rw [← Nat.toDigits_append_toDigits (by decide) hm hd,
      List.head?_append_of_ne_nil _ Nat.toDigits_ne_nil]
    exact ih hm

/-! ### Grammar -/

namespace Numeral

/-- The text is empty or begins with no digit. -/
def EndsDigits (text : List Char) : Prop := Text.StartsIn (fun c => !isDigit c) text

theorem takeWhile_isDigit {digits rest : List Char} (hdigits : ∀ c ∈ digits, isDigit c = true)
    (hrest : EndsDigits rest) : (digits ++ rest).takeWhile isDigit = digits := by
  simpa using Text.takeWhile_run (by simpa using hdigits) hrest

theorem dropWhile_isDigit {digits rest : List Char} (hdigits : ∀ c ∈ digits, isDigit c = true)
    (hrest : EndsDigits rest) : (digits ++ rest).dropWhile isDigit = rest := by
  simpa using Text.dropWhile_run (by simpa using hdigits) hrest

/-- A row of digits that can stand before the point: it begins with a zero only if it is one. -/
structure IsWhole (row : List Char) : Prop where
  digits : ∀ c ∈ row, isDigit c = true
  ne_nil : row ≠ []
  lead : row.head? = some '0' → row.length = 1

theorem IsWhole.check {whole : List Char} (h : IsWhole whole) :
    (whole.isEmpty || (whole.head? == some '0' && decide (1 < whole.length))) = false := by
  simp only [Bool.or_eq_false_iff, Bool.and_eq_false_imp, beq_iff_eq, decide_eq_false_iff_not]
  refine ⟨by simpa using h.ne_nil, fun hzero => ?_⟩
  have hlength := h.lead hzero
  omega

theorem IsWhole.ne_sign {whole : List Char} (h : IsWhole whole) (rest more : List Char) :
    whole ++ rest ≠ '-' :: more := by
  intro heq
  cases whole with
  | nil => exact h.ne_nil rfl
  | cons c cs =>
    have hc : isDigit c = true := h.digits c List.mem_cons_self
    rw [(List.cons.inj heq).1] at hc
    exact absurd hc (by decide)

theorem parse?_fraction (negative : Bool) {whole fraction rest : List Char}
    {exponent : Option (Bool × List Char)} (hwhole : IsWhole whole)
    (hfraction : ∀ c ∈ fraction, isDigit c = true) (hne : fraction ≠ []) (hrest : EndsDigits rest)
    (hexponent : tail? rest = some exponent) :
    parse? ((if negative then ['-'] else []) ++ (whole ++ '.' :: (fraction ++ rest))) =
      some ⟨negative, whole, fraction, exponent⟩ := by
  have hpoint : EndsDigits ('.' :: (fraction ++ rest)) := Text.startsIn_cons rfl _
  have htake := takeWhile_isDigit hwhole.digits hpoint
  have hdrop := dropWhile_isDigit hwhole.digits hpoint
  have hsign := hwhole.ne_sign ('.' :: (fraction ++ rest))
  have htake' := takeWhile_isDigit hfraction hrest
  have hdrop' := dropWhile_isDigit hfraction hrest
  cases negative <;>
    simp [parse?, htake, hdrop, htake', hdrop', hwhole.check, hne, hexponent]

theorem parse?_whole (negative : Bool) {whole rest : List Char}
    {exponent : Option (Bool × List Char)} (hwhole : IsWhole whole) (hrest : EndsDigits rest)
    (hpoint : ∀ more, rest ≠ '.' :: more) (hexponent : tail? rest = some exponent) :
    parse? ((if negative then ['-'] else []) ++ (whole ++ rest)) =
      some ⟨negative, whole, [], exponent⟩ := by
  have htake := takeWhile_isDigit hwhole.digits hrest
  have hdrop := dropWhile_isDigit hwhole.digits hrest
  have hsign := hwhole.ne_sign rest
  cases negative <;> simp [parse?, htake, hdrop, hwhole.check, hexponent]

end Numeral

/-! ### Integers -/

theorem isWhole_toDigits (n : Nat) : Numeral.IsWhole (Nat.toDigits 10 n) where
  digits _ := isDigit_of_mem_toDigits
  ne_nil := Nat.toDigits_ne_nil
  lead hzero := by
    have hn : n = 0 := by
      by_contra hne
      exact head?_toDigits (Nat.pos_of_ne_zero hne) hzero
    rw [hn]
    rfl

theorem decimal_eq_sign_append (n : Int) :
    decimal n = (if decide (n < 0) then ['-'] else []) ++ Nat.toDigits 10 n.natAbs := by
  unfold decimal
  split
  next hneg => rw [decide_eq_true hneg, if_pos rfl, List.singleton_append]
  next hneg => rw [decide_eq_false hneg, if_neg Bool.false_ne_true, List.nil_append]

theorem mem_decimal {n : Int} {c : Char} (h : c ∈ decimal n) :
    Numeral.isDigit c = true ∨ c = '-' := by
  rw [decimal_eq_sign_append] at h
  rcases List.mem_append.1 h with h | h
  · split at h
    · exact .inr (List.mem_singleton.1 h)
    · cases h
  · exact .inl (isDigit_of_mem_toDigits h)

theorem isNumeralChar_of_mem_decimal {n : Int} {c : Char} (h : c ∈ decimal n) :
    Token.isNumeralChar c = true := by
  rcases mem_decimal h with hc | rfl
  · exact isNumeralChar_of_isDigit hc
  · rfl

theorem decimal_ne_nil (n : Int) : decimal n ≠ [] := by
  rw [decimal_eq_sign_append]
  exact List.append_ne_nil_of_right_ne_nil _ Nat.toDigits_ne_nil

theorem parse?_decimal (n : Int) :
    Numeral.parse? (decimal n) =
      some ⟨decide (n < 0), Nat.toDigits 10 n.natAbs, [], none⟩ := by
  rw [decimal_eq_sign_append, ← List.append_nil (Nat.toDigits 10 n.natAbs),
    Numeral.parse?_whole _ (isWhole_toDigits _) (Text.startsIn_nil _) (by simp) rfl,
    List.append_nil]

/-- A 64-bit integer is read back from its numeral. -/
theorem numberOfNumeral?_decimal {n : Int} (least : -0x8000000000000000 ≤ n)
    (below : n < 0x10000000000000000) :
    numberOfNumeral? (decimal n) = some (.integer n least below) := by
  have hinteger :
      Numeral.integer? ⟨decide (n < 0), Nat.toDigits 10 n.natAbs, [], none⟩ = some n := by
    rw [Numeral.integer?, digitsValue_toDigits]
    by_cases hneg : n < 0
    · have hfits : 0 < n.natAbs ∧ n.natAbs ≤ 0x8000000000000000 := by omega
      simp [hneg, hfits, abs_of_neg hneg]
    · have hfits : n.natAbs < 0x10000000000000000 := by omega
      simp [hneg, hfits, abs_of_nonneg (not_lt.1 hneg)]
  rw [numberOfNumeral?, parse?_decimal, Option.bind_some, Numeral.number?, hinteger]
  simp [Number.ofInt?, least, below]

@[simp] theorem asInteger?_ofInteger {n : Int} (least : -0x8000000000000000 ≤ n)
    (below : n < 0x10000000000000000) : (ofInteger n).asInteger? = some n := by
  rw [ofInteger, asInteger?, asNumber?, numberOfNumeral?_decimal least below]

theorem writable_decimal (n : Int) : Token.Writable (.number (decimal n)) :=
  ⟨decimal_ne_nil n, fun _ => isNumeralChar_of_mem_decimal⟩

/-! ### Doubles -/

theorem isDigit_of_mem_shortest {half : HalfTo} {x : Double} {c : Char}
    (h : c ∈ (x.shortest half).digits) : Numeral.isDigit c = true := by
  have hmem := List.mem_reverse.1 h
  exact isDigit_of_mem_toDigits (List.mem_reverse.1 ((List.dropWhile_sublist _).mem hmem))

theorem isNumeralChar_of_mem_zeros {n : Nat} {c : Char} (h : c ∈ List.replicate n '0') :
    Token.isNumeralChar c = true := by
  rw [List.eq_of_mem_replicate h]
  rfl

theorem isNumeralChar_of_mem_plain {d : Decimal}
    (h : ∀ c ∈ d.digits, Token.isNumeralChar c = true) :
    ∀ c ∈ d.plain, Token.isNumeralChar c = true := by
  intro c hc
  unfold Decimal.plain at hc
  split at hc
  · simp only [List.mem_cons, List.mem_append] at hc
    rcases hc with rfl | rfl | hc | hc
    · rfl
    · rfl
    · exact isNumeralChar_of_mem_zeros hc
    · exact h c hc
  · have hfilled : ∀ c ∈ d.digits ++ List.replicate (d.lead.toNat + 1 - d.digits.length) '0',
        Token.isNumeralChar c = true := by
      intro c hc
      rcases List.mem_append.1 hc with hc | hc
      · exact h c hc
      · exact isNumeralChar_of_mem_zeros hc
    rcases List.mem_append.1 hc with hc | hc
    · exact hfilled c (List.mem_of_mem_take hc)
    · rcases List.mem_cons.1 hc with rfl | hc
      · rfl
      · split at hc
        · rw [List.mem_singleton.1 hc]
          rfl
        · exact hfilled c (List.mem_of_mem_drop hc)

theorem isNumeralChar_of_mem_scientific {d : Decimal} {plusSign : Bool}
    (h : ∀ c ∈ d.digits, Token.isNumeralChar c = true) :
    ∀ c ∈ d.scientific plusSign, Token.isNumeralChar c = true := by
  intro c hc
  simp only [Decimal.scientific, List.mem_append, List.mem_cons] at hc
  rcases hc with (hc | hc) | rfl | hc | hc
  · exact h c (List.mem_of_mem_take hc)
  · split at hc
    · cases hc
    · rcases List.mem_cons.1 hc with rfl | hc
      · rfl
      · exact h c (List.mem_of_mem_drop hc)
  · rfl
  · have hsign : c = '-' ∨ c = '+' := by
      split at hc
      · exact .inl (List.mem_singleton.1 hc)
      · split at hc
        · exact .inr (List.mem_singleton.1 hc)
        · cases hc
    rcases hsign with rfl | rfl <;> rfl
  · exact isNumeralChar_of_isDigit (isDigit_of_mem_toDigits hc)

theorem plain_ne_nil (d : Decimal) : d.plain ≠ [] := by
  unfold Decimal.plain
  split
  · exact List.cons_ne_nil _ _
  · exact List.append_ne_nil_of_right_ne_nil _ (List.cons_ne_nil _ _)

theorem scientific_ne_nil (plusSign : Bool) (d : Decimal) : d.scientific plusSign ≠ [] :=
  List.append_ne_nil_of_right_ne_nil _ (List.cons_ne_nil _ _)

end Json

namespace Double

/-- The numeral of a finite double without its sign. -/
def unsignedNumeral (style : NumeralStyle) (x : Double) : List Char :=
  if x.isZero then ['0', '.', '0'] else
    let d := x.shortest style.half
    if style.leastPlain ≤ d.lead ∧ d.lead ≤ Decimal.greatestPlain then d.plain
    else d.scientific style.plusSign

variable (style : NumeralStyle) {x : Double}

theorem numeral_eq_sign_append (hx : x.isFinite = true) :
    x.numeral style = (if x.negative then ['-'] else []) ++ x.unsignedNumeral style := by
  have hfinite : x.magnitude < infinityWord := by simpa [isFinite] using hx
  have hnan : x.isNaN = false := by simp [isNaN]; omega
  have hinf : x.isInfinite = false := by simp [isInfinite]; omega
  cases hzero : x.isZero with
  | true => simp [numeral, unsignedNumeral, hnan, hinf, hzero]
  | false => simp [numeral, unsignedNumeral, hnan, hinf, hzero]

/-- What is written of a double is a zero or its shortest decimal in one of two notations. -/
theorem unsignedNumeral_cases (x : Double) :
    (x.isZero = true ∧ x.unsignedNumeral style = ['0', '.', '0']) ∨
      (x.isZero = false ∧ x.unsignedNumeral style = (x.shortest style.half).plain) ∨
        (x.isZero = false ∧
          x.unsignedNumeral style = (x.shortest style.half).scientific style.plusSign) := by
  unfold unsignedNumeral
  cases x.isZero with
  | true => exact .inl ⟨rfl, rfl⟩
  | false =>
    by_cases hplain : style.leastPlain ≤ (x.shortest style.half).lead ∧
        (x.shortest style.half).lead ≤ Decimal.greatestPlain
    · exact .inr (.inl ⟨rfl, if_pos hplain⟩)
    · exact .inr (.inr ⟨rfl, if_neg hplain⟩)

theorem isNumeralChar_of_mem_unsignedNumeral {c : Char} (hc : c ∈ x.unsignedNumeral style) :
    Json.Token.isNumeralChar c = true := by
  have hdigits : ∀ c ∈ (x.shortest style.half).digits, Json.Token.isNumeralChar c = true :=
    fun c hc => Json.isNumeralChar_of_isDigit (Json.isDigit_of_mem_shortest hc)
  rcases x.unsignedNumeral_cases style with ⟨-, heq⟩ | ⟨-, heq⟩ | ⟨-, heq⟩
  · rw [heq] at hc
    exact List.all_eq_true.1 (by decide) c hc
  · exact Json.isNumeralChar_of_mem_plain hdigits c (heq ▸ hc)
  · exact Json.isNumeralChar_of_mem_scientific hdigits c (heq ▸ hc)

theorem unsignedNumeral_ne_nil (x : Double) : x.unsignedNumeral style ≠ [] := by
  rcases x.unsignedNumeral_cases style with ⟨-, heq⟩ | ⟨-, heq⟩ | ⟨-, heq⟩
  · rw [heq]
    exact List.cons_ne_nil _ _
  · exact heq ▸ Json.plain_ne_nil _
  · exact heq ▸ Json.scientific_ne_nil _ _

theorem isNumeralChar_of_mem_numeral (hx : x.isFinite = true) {c : Char}
    (hc : c ∈ x.numeral style) : Json.Token.isNumeralChar c = true := by
  rw [numeral_eq_sign_append style hx] at hc
  rcases List.mem_append.1 hc with hc | hc
  · split at hc
    · rw [List.mem_singleton.1 hc]
      rfl
    · cases hc
  · exact isNumeralChar_of_mem_unsignedNumeral style hc

end Double

theorem Json.writable_numeral {x : Double} (hx : x.isFinite = true) :
    Json.Token.Writable (.number (x.numeral Json.numerals)) := by
  refine ⟨?_, fun _ => Double.isNumeralChar_of_mem_numeral Json.numerals hx⟩
  rw [Double.numeral_eq_sign_append Json.numerals hx]
  exact List.append_ne_nil_of_right_ne_nil _ (x.unsignedNumeral_ne_nil Json.numerals)

end Conform
