import Conform.Proofs.Double.Shortest
import Conform.Proofs.Json.Numerals

/-!
# Numerals tell doubles apart

The numeral of a finite double is a JSON numeral, and the number that it denotes is in the interval
of the double (`exists_denotes_numeral`).  Since the intervals of two magnitudes have nothing in
common, no two doubles have the same numeral: `eq_of_numeral_eq`.
-/

namespace Conform

namespace Json.Numeral

/-! ### Rows of digits -/

theorem digitsValue_append (front back : List Char) :
    digitsValue (front ++ back) = digitsValue front * 10 ^ back.length + digitsValue back := by
  induction back using List.reverseRecOn with
  | nil => simp [digitsValue]
  | append_singleton back c ih =>
    have hsnoc : ∀ digits,
        digitsValue (digits ++ [c]) = digitsValue digits * 10 + digitValue c := by
      intro digits
      rw [digitsValue, List.foldl_append, List.foldl_cons, List.foldl_nil, digitsValue]
    rw [← List.append_assoc, hsnoc, hsnoc, ih, List.length_append, List.length_singleton, pow_succ]
    ring

theorem digitsValue_zeros (n : Nat) : digitsValue (List.replicate n '0') = 0 := by
  induction n with
  | zero => rfl
  | succ n ih =>
    rw [List.replicate_succ', digitsValue_append, ih]
    rfl

theorem digitsValue_zeros_append (n : Nat) (digits : List Char) :
    digitsValue (List.replicate n '0' ++ digits) = digitsValue digits := by
  rw [digitsValue_append, digitsValue_zeros, Nat.zero_mul, Nat.zero_add]

theorem digitsValue_append_zeros (digits : List Char) (n : Nat) :
    digitsValue (digits ++ List.replicate n '0') = digitsValue digits * 10 ^ n := by
  rw [digitsValue_append, digitsValue_zeros, List.length_replicate, Nat.add_zero]

theorem isDigit_of_mem_zeros {n : Nat} {c : Char} (h : c ∈ List.replicate n '0') :
    isDigit c = true := by
  rw [List.eq_of_mem_replicate h]
  rfl

/-- The number that a numeral denotes, without its sign. -/
def value (n : Numeral) : ℚ :=
  digitsValue (n.whole ++ n.fraction) * (10 : ℚ) ^ (n.exponentValue - n.fraction.length)

/-- The text is a numeral of the sign and of the number. -/
def Denotes (text : List Char) (negative : Bool) (q : ℚ) : Prop :=
  ∃ n, parse? text = some n ∧ n.negative = negative ∧ n.value = q

theorem Denotes.unique {text : List Char} {a b : Bool} {p q : ℚ} (h : Denotes text a p)
    (h' : Denotes text b q) : a = b ∧ p = q := by
  obtain ⟨m, hm, rfl, rfl⟩ := h
  obtain ⟨n, hn, rfl, rfl⟩ := h'
  obtain rfl : m = n := Option.some.inj (hm.symm.trans hn)
  exact ⟨rfl, rfl⟩

end Json.Numeral

/-! ### Decimals -/

namespace Decimal

open Json.Numeral

/-- The number that a decimal denotes. -/
def value (d : Decimal) : ℚ :=
  digitsValue d.digits * (10 : ℚ) ^ (d.lead + 1 - d.digits.length)

/-- The decimal has digits, and the first of them is not zero. -/
structure Leading (d : Decimal) : Prop where
  digits : ∀ c ∈ d.digits, isDigit c = true
  ne_nil : d.digits ≠ []
  head_ne : d.digits.head? ≠ some '0'

/-! ### Positional notation -/

/-- Digits on both sides of a point denote all the digits over a power of ten. -/
theorem denotes_point (negative : Bool) {whole fraction : List Char} (hwhole : IsWhole whole)
    (hfraction : ∀ c ∈ fraction, isDigit c = true) (hne : fraction ≠ []) :
    Denotes ((if negative then ['-'] else []) ++ (whole ++ '.' :: fraction)) negative
      (digitsValue (whole ++ fraction) * (10 : ℚ) ^ (-(fraction.length : Int))) := by
  have hend : EndsDigits [] := Text.startsIn_nil _
  have hparse := parse?_fraction negative hwhole hfraction hne hend rfl
  rw [List.append_nil] at hparse
  refine ⟨_, hparse, rfl, ?_⟩
  rw [Json.Numeral.value, exponentValue, zero_sub]

theorem cast_mul_pow_mul_zpow (a n : Nat) (e : Int) :
    ((a * 10 ^ n : Nat) : ℚ) * (10 : ℚ) ^ e = a * (10 : ℚ) ^ (n + e) := by
  rw [zpow_add₀ (by norm_num), zpow_natCast, Nat.cast_mul, Nat.cast_pow, Nat.cast_ofNat, mul_assoc]

theorem isWhole_zero : IsWhole ['0'] := ⟨by simp [isDigit], by simp, by simp⟩

/-! ### Exponents -/

theorem exponentPart?_digits {row : List Char} (hdigits : ∀ c ∈ row, isDigit c = true)
    (hne : row ≠ []) :
    exponentPart? row = some (false, row) ∧ exponentPart? ('+' :: row) = some (false, row) ∧
      exponentPart? ('-' :: row) = some (true, row) := by
  have hall : (row.isEmpty || !row.all isDigit) = false := by
    rw [List.isEmpty_eq_false_iff.2 hne, List.all_eq_true.2 hdigits]
    rfl
  refine ⟨?_, by simp [exponentPart?, hall], by simp [exponentPart?, hall]⟩
  unfold exponentPart?
  split
  next negative digits hsplit =>
    split at hsplit
    next rest => exact absurd (hdigits '-' List.mem_cons_self) (by decide)
    next rest => exact absurd (hdigits '+' List.mem_cons_self) (by decide)
    next =>
      obtain ⟨rfl, rfl⟩ := Prod.mk.inj hsplit
      rw [hall, if_neg Bool.false_ne_true]

/-- The exponent of scientific notation is parsed as it is written. -/
theorem tail?_exponent (plusSign : Bool) (lead : Int) :
    tail? ('e' :: ((if lead < 0 then ['-'] else if plusSign then ['+'] else []) ++
        Nat.toDigits 10 lead.natAbs)) =
      some (some (decide (lead < 0), Nat.toDigits 10 lead.natAbs)) := by
  have hne : Nat.toDigits 10 lead.natAbs ≠ [] := Nat.toDigits_ne_nil
  obtain ⟨hbare, hplus, hminus⟩ :=
    exponentPart?_digits (fun _ => Json.isDigit_of_mem_toDigits) hne
  rw [tail?, if_pos (.inl rfl)]
  by_cases hlead : lead < 0
  · rw [if_pos hlead, List.singleton_append, hminus, decide_eq_true hlead, Option.map_some]
  · rw [if_neg hlead, decide_eq_false hlead]
    cases plusSign with
    | true => rw [if_pos rfl, List.singleton_append, hplus, Option.map_some]
    | false => rw [if_neg Bool.false_ne_true, List.nil_append, hbare, Option.map_some]

theorem exponentValue_decimal (negative : Bool) (whole fraction : List Char) (lead : Int) :
    exponentValue
        ⟨negative, whole, fraction, some (decide (lead < 0), Nat.toDigits 10 lead.natAbs)⟩ =
      lead := by
  by_cases hlead : lead < 0
  · simp only [exponentValue, decide_eq_true hlead, Json.digitsValue_toDigits]
    omega
  · simp only [exponentValue, decide_eq_false hlead, Json.digitsValue_toDigits]
    omega

/-! ### Notations -/

variable {d : Decimal} (hd : d.Leading) (negative : Bool)

include hd

/-- Below one the digits stand behind zeros. -/
theorem denotes_plain_of_neg (hlead : d.lead < 0) :
    Denotes ((if negative then ['-'] else []) ++ d.plain) negative d.value := by
  have hplain : d.plain = ['0'] ++ '.' :: (List.replicate (-d.lead - 1).toNat '0' ++ d.digits) :=
    if_pos hlead
  have hfraction : ∀ c ∈ List.replicate (-d.lead - 1).toNat '0' ++ d.digits, isDigit c = true :=
    List.forall_mem_append.2 ⟨fun _ => isDigit_of_mem_zeros, hd.digits⟩
  have hpoint := denotes_point negative isWhole_zero hfraction (by simp [hd.ne_nil])
  have hdigits : digitsValue (['0'] ++ (List.replicate (-d.lead - 1).toNat '0' ++ d.digits)) =
      digitsValue d.digits := by
    rw [← List.append_assoc, ← List.replicate_one, List.replicate_append_replicate,
      digitsValue_zeros_append]
  rw [hdigits, List.length_append, List.length_replicate] at hpoint
  have hexponent : -(((-d.lead - 1).toNat + d.digits.length : Nat) : Int) =
      d.lead + 1 - d.digits.length := by omega
  rw [hplain, value, ← hexponent]
  exact hpoint

/-- A row that begins as the decimal does can stand before a point. -/
theorem isWhole_of_head?_eq {row : List Char} (hdigits : ∀ c ∈ row, isDigit c = true)
    (hhead : row.head? = d.digits.head?) : IsWhole row where
  digits := hdigits
  ne_nil := by
    rintro rfl
    exact hd.ne_nil (List.head?_eq_none_iff.1 hhead.symm)
  lead hzero := absurd (hhead ▸ hzero) hd.head_ne

/-- From one on zeros fill the digits up to the point, and one more stands behind it. -/
theorem denotes_plain_of_length_le (hlead : 0 ≤ d.lead)
    (hlength : d.digits.length ≤ d.lead.toNat + 1) :
    Denotes ((if negative then ['-'] else []) ++ d.plain) negative d.value := by
  have hfilled : (d.digits ++ List.replicate (d.lead.toNat + 1 - d.digits.length) '0').length =
      d.lead.toNat + 1 := by
    rw [List.length_append, List.length_replicate]
    omega
  have hplain : d.plain =
      d.digits ++ List.replicate (d.lead.toNat + 1 - d.digits.length) '0' ++ '.' :: ['0'] := by
    simp only [plain, if_neg (not_lt.2 hlead), hfilled, Nat.le_refl, if_true]
    rw [List.take_of_length_le hfilled.le]
  have hwhole : IsWhole (d.digits ++ List.replicate (d.lead.toNat + 1 - d.digits.length) '0') :=
    isWhole_of_head?_eq hd (List.forall_mem_append.2 ⟨hd.digits, fun _ => isDigit_of_mem_zeros⟩)
      (List.head?_append_of_ne_nil d.digits hd.ne_nil)
  have hpoint := denotes_point negative hwhole isWhole_zero.digits isWhole_zero.ne_nil
  have hdigits : digitsValue
      (d.digits ++ List.replicate (d.lead.toNat + 1 - d.digits.length) '0' ++ ['0']) =
      digitsValue d.digits * 10 ^ (d.lead.toNat + 1 - d.digits.length + 1) := by
    rw [← List.replicate_one, List.append_assoc, List.replicate_append_replicate,
      digitsValue_append_zeros]
  rw [hdigits, cast_mul_pow_mul_zpow, List.length_singleton] at hpoint
  have hexponent : ((d.lead.toNat + 1 - d.digits.length + 1 : Nat) : Int) + -(1 : Nat) =
      d.lead + 1 - d.digits.length := by omega
  rw [hplain, value, ← hexponent]
  exact hpoint

/-- From one on the point stands among the digits if there are enough of them. -/
theorem denotes_plain_of_lt_length (hlead : 0 ≤ d.lead)
    (hlength : d.lead.toNat + 1 < d.digits.length) :
    Denotes ((if negative then ['-'] else []) ++ d.plain) negative d.value := by
  have hplain : d.plain =
      d.digits.take (d.lead.toNat + 1) ++ '.' :: d.digits.drop (d.lead.toNat + 1) := by
    simp only [plain, if_neg (not_lt.2 hlead), Nat.sub_eq_zero_of_le hlength.le,
      List.replicate_zero, List.append_nil, if_neg (not_le.2 hlength)]
  have hwhole : IsWhole (d.digits.take (d.lead.toNat + 1)) :=
    isWhole_of_head?_eq hd (fun c hc => hd.digits c (List.mem_of_mem_take hc))
      (by rw [List.head?_take, if_neg (Nat.succ_ne_zero _)])
  have hne : d.digits.drop (d.lead.toNat + 1) ≠ [] := by
    rw [Ne, List.drop_eq_nil_iff]
    omega
  have hpoint :=
    denotes_point negative hwhole (fun c hc => hd.digits c (List.mem_of_mem_drop hc)) hne
  rw [List.take_append_drop, List.length_drop] at hpoint
  have hexponent : -((d.digits.length - (d.lead.toNat + 1) : Nat) : Int) =
      d.lead + 1 - d.digits.length := by omega
  rw [hplain, value, ← hexponent]
  exact hpoint

theorem denotes_plain :
    Denotes ((if negative then ['-'] else []) ++ d.plain) negative d.value := by
  rcases lt_or_ge d.lead 0 with hlead | hlead
  · exact denotes_plain_of_neg hd negative hlead
  · rcases Nat.lt_or_ge (d.lead.toNat + 1) d.digits.length with hlength | hlength
    · exact denotes_plain_of_lt_length hd negative hlead hlength
    · exact denotes_plain_of_length_le hd negative hlead hlength

/-- Scientific notation: one digit, the others behind a point if there are any, and the exponent. -/
theorem denotes_scientific (plusSign : Bool) :
    Denotes ((if negative then ['-'] else []) ++ d.scientific plusSign) negative d.value := by
  obtain ⟨digits, lead⟩ := d
  cases digits with
  | nil => exact absurd rfl hd.ne_nil
  | cons c cs =>
    have hwhole : IsWhole [c] := ⟨by simp [hd.digits c], by simp, by simp⟩
    have hexponent := tail?_exponent plusSign lead
    cases cs with
    | nil =>
      have hparse := parse?_whole negative hwhole (Text.startsIn_cons rfl _) (by simp) hexponent
      refine ⟨_, hparse, rfl, ?_⟩
      rw [Json.Numeral.value, exponentValue_decimal, value]
      congr 2
      simp
    | cons b bs =>
      have hfraction : ∀ a ∈ b :: bs, isDigit a = true :=
        fun a ha => hd.digits a (List.mem_cons_of_mem c ha)
      have hparse := parse?_fraction negative hwhole hfraction (List.cons_ne_nil _ _)
        (Text.startsIn_cons rfl _) hexponent
      refine ⟨_, (congrArg parse? ?_).trans hparse, rfl, ?_⟩
      · simp [scientific]
      · rw [Json.Numeral.value, exponentValue_decimal, value]
        congr 2
        simp

end Decimal

namespace Double

open Json.Numeral

/-- The zeros at the end of a row that are dropped. -/
theorem exists_dropped_zeros (row : List Char) :
    ∃ n, (row.reverse.dropWhile (· == '0')).reverse ++ List.replicate n '0' = row := by
  refine ⟨(row.reverse.takeWhile (· == '0')).length, ?_⟩
  have hzeros : row.reverse.takeWhile (· == '0') =
      List.replicate (row.reverse.takeWhile (· == '0')).length '0' :=
    List.eq_replicate_of_mem fun c hc =>
      beq_iff_eq.1 (List.mem_takeWhile_imp (p := fun c => c == '0') hc)
  rw [← List.reverse_inj, List.reverse_append, List.reverse_reverse, List.reverse_replicate,
    ← hzeros, List.takeWhile_append_dropWhile]

/-- The shortest decimal has the digits of a number of units, less the zeros at their end. -/
theorem exists_shortest (half : HalfTo) {x : Double} (hzero : x.isZero = false) :
    ∃ (c n : Nat) (unit : Int), 0 < c ∧ x.interval.Holds (c * (10 : ℚ) ^ unit) ∧
      (x.shortest half).digits ++ List.replicate n '0' = Nat.toDigits 10 c ∧
      (x.shortest half).lead = unit + (Nat.toDigits 10 c).length - 1 := by
  have hholds := holds_search half hzero
  obtain ⟨n, hn⟩ := exists_dropped_zeros (Nat.toDigits 10
    (x.interval.search half (ratioLog10 x.interval.mid x.interval.den) 17 1).1)
  refine ⟨_, n, _, ?_, hholds, hn, rfl⟩
  by_contra hnot
  have hlower : 0 < x.interval.lower := by
    have hcount : 0 < 4 * x.significand - x.below := Nat.sub_pos_of_lt (below_lt hzero)
    rw [lower_interval]
    positivity
  have hle := hholds.lower_le
  rw [Nat.eq_zero_of_not_pos hnot, Nat.cast_zero, zero_mul] at hle
  exact absurd hlower (not_lt.2 hle)

theorem leading_shortest (half : HalfTo) {x : Double} (hzero : x.isZero = false) :
    (x.shortest half).Leading := by
  obtain ⟨c, n, unit, hc, -, hdigits, -⟩ := exists_shortest half hzero
  have hne : (x.shortest half).digits ≠ [] := by
    intro hnil
    rw [hnil, List.nil_append] at hdigits
    have hvalue := digitsValue_zeros n
    rw [hdigits, Json.digitsValue_toDigits] at hvalue
    omega
  refine ⟨fun _ => Json.isDigit_of_mem_shortest, hne, ?_⟩
  have hhead : ((x.shortest half).digits ++ List.replicate n '0').head? =
      (x.shortest half).digits.head? := List.head?_append_of_ne_nil _ hne
  rw [← hhead, hdigits]
  exact Json.head?_toDigits hc

/-- **The shortest decimal is in the interval.** -/
theorem holds_shortest (half : HalfTo) {x : Double} (hzero : x.isZero = false) :
    x.interval.Holds (x.shortest half).value := by
  obtain ⟨c, n, unit, -, hholds, hdigits, hlead⟩ := exists_shortest half hzero
  have hcount : digitsValue (x.shortest half).digits * 10 ^ n = c := by
    rw [← digitsValue_append_zeros, hdigits, Json.digitsValue_toDigits]
  have hlength : (x.shortest half).digits.length + n = (Nat.toDigits 10 c).length := by
    rw [← hdigits, List.length_append, List.length_replicate]
  have hvalue : (x.shortest half).value = c * (10 : ℚ) ^ unit := by
    rw [← hcount, Decimal.cast_mul_pow_mul_zpow, Decimal.value]
    congr 2
    omega
  rwa [hvalue]

/-- A zero is in the interval of a zero. -/
theorem holds_zero {x : Double} (hzero : x.isZero = true) : x.interval.Holds 0 := by
  have hmagnitude : x.magnitude = 0 := by simpa [isZero] using hzero
  have hsignificand : x.significand = 0 := by
    have hfields := x.magnitude_eq
    rw [significand]
    split <;> omega
  have hclosed : x.interval.closed = true := by
    simp only [interval, hsignificand]
    rfl
  rw [Interval.Holds, if_pos hclosed, lower_interval, upper_interval, hsignificand]
  constructor
  · rw [Nat.mul_zero, Nat.zero_sub, Nat.cast_zero, zero_mul]
  · positivity

/-- **The numeral of a finite double denotes a number of its interval.** -/
theorem exists_denotes_numeral (style : NumeralStyle) {x : Double} (hx : x.isFinite = true) :
    ∃ q, Denotes (x.numeral style) x.negative q ∧ x.interval.Holds q := by
  rw [numeral_eq_sign_append style hx]
  rcases x.unsignedNumeral_cases style with ⟨hzero, heq⟩ | ⟨hzero, heq⟩ | ⟨hzero, heq⟩
  · have hpoint := Decimal.denotes_point x.negative Decimal.isWhole_zero
      Decimal.isWhole_zero.digits Decimal.isWhole_zero.ne_nil
    have hdigits : digitsValue (['0'] ++ ['0']) = 0 := rfl
    rw [hdigits, Nat.cast_zero, zero_mul] at hpoint
    exact ⟨0, heq ▸ hpoint, holds_zero hzero⟩
  · rw [heq]
    exact ⟨_, Decimal.denotes_plain (leading_shortest style.half hzero) x.negative,
      holds_shortest style.half hzero⟩
  · rw [heq]
    exact ⟨_, Decimal.denotes_scientific (leading_shortest style.half hzero) x.negative _,
      holds_shortest style.half hzero⟩

theorem eq_of_negative_of_magnitude {x y : Double} (hsign : x.negative = y.negative)
    (hmagnitude : x.magnitude = y.magnitude) : x = y := by
  have hx := x.bits.toNat_lt
  have hy := y.bits.toNat_lt
  have hbits : x.bits.toNat = y.bits.toNat := by
    simp only [negative, decide_eq_decide] at hsign
    simp only [magnitude] at hmagnitude
    omega
  obtain ⟨a⟩ := x
  obtain ⟨b⟩ := y
  exact congrArg Double.mk (UInt64.toNat_inj.1 hbits)

/-- **No two finite doubles have the same numeral.** -/
theorem eq_of_numeral_eq (style : NumeralStyle) {x y : Double} (hx : x.isFinite = true)
    (hy : y.isFinite = true) (h : x.numeral style = y.numeral style) : x = y := by
  obtain ⟨p, hp, hxholds⟩ := exists_denotes_numeral style hx
  obtain ⟨q, hq, hyholds⟩ := exists_denotes_numeral style hy
  obtain ⟨hsign, rfl⟩ := hp.unique (h ▸ hq)
  exact eq_of_negative_of_magnitude hsign (magnitude_eq_of_holds hxholds hyholds)

end Double

end Conform
