import Conform.Proofs.Double.Numeral
import Conform.Proofs.Term.Integers
import Conform.Proofs.Text.Quoted

/-!
# Literal forms are unambiguous

A term can be told from its literal form, whatever its strings hold, if there are no atoms, no NaNs
and no small `uint`s in it: `literal_inj`.

* *Marks* are the characters that give a literal form its structure.  The form of a leaf that is no
  string has none (`render_leaf`), and every other form begins with one.  So the
  first character tells which of them it is (`opening_eq`), and a leaf ends where a mark follows.
* A string ends where its quote ends, and a sequence where its bracket follows an element
  (`commaSeparated_append_inj`).
* Of floats it is enough that their texts are `Legible`, and those of messages are
  (`legible_numeral`).
-/

namespace Conform

/-! ### Marks -/

namespace Text

/-- The characters that stand for structure in literal forms. -/
def marks : List Char := ['\"', '[', ']', '(', ')', '\x7b', '\x7d', ',']

/-- The character stands for structure. -/
def isMark (c : Char) : Bool := marks.contains c

theorem isMark_eq_false {p : Char → Bool} (hp : marks.any p = false) {c : Char} (hc : p c = true) :
    isMark c = false := by
  rw [isMark, List.contains_eq_mem, decide_eq_false_iff_not]
  exact fun hmark => List.any_eq_false.1 hp c hmark hc

theorem isMark_of_isNumeralChar {c : Char} (h : Json.Token.isNumeralChar c = true) :
    isMark c = false :=
  isMark_eq_false (by decide) h

theorem isMark_of_mem {word : List Char} (hword : word.any isMark = false) {c : Char}
    (hc : c ∈ word) : isMark c = false :=
  eq_false_of_ne_true (List.any_eq_false.1 hword c hc)

end Text

open Text Json.Token

/-! ### Sequences -/

theorem commaSeparated_cons (text : List Char) (texts : List (List Char)) :
    commaSeparated (text :: texts) = text ++ texts.flatMap fun t => ',' :: ' ' :: t :=
  intercalate_cons_eq_flatMap [',', ' '] text texts

theorem enclosed_append (opening close : Char) (text rest : List Char) :
    enclosed [opening] text [close] ++ rest = opening :: (text ++ close :: rest) := by
  simp [enclosed]

section Sequences

variable {α : Type} {text : α → List Char} {close : Char}

theorem startsIn_tail (hclose : isMark close = true) (xs : List α) (rest : List Char) :
    StartsIn isMark ((xs.flatMap fun x => ',' :: ' ' :: text x) ++ close :: rest) := by
  cases xs with
  | nil => exact startsIn_cons hclose rest
  | cons x xs => exact startsIn_cons rfl _

/-- Behind the first element each further one follows a comma, until the closing mark. -/
theorem tail_append_inj (hclose : isMark close = true) (hcomma : close ≠ ',') {xs ys : List α}
    (hinj : ∀ x ∈ xs, ∀ y ∈ ys, ∀ rest rest', StartsIn isMark rest → StartsIn isMark rest' →
      text x ++ rest = text y ++ rest' → x = y ∧ rest = rest') {rest rest' : List Char}
    (h : (xs.flatMap fun x => ',' :: ' ' :: text x) ++ close :: rest =
      (ys.flatMap fun y => ',' :: ' ' :: text y) ++ close :: rest') :
    xs = ys ∧ rest = rest' := by
  induction xs generalizing ys with
  | nil =>
    cases ys with
    | nil => exact ⟨rfl, (List.cons.inj h).2⟩
    | cons y ys => exact absurd (List.cons.inj h).1 hcomma
  | cons x xs ih =>
    cases ys with
    | nil => exact absurd (List.cons.inj h).1.symm hcomma
    | cons y ys =>
      rw [List.flatMap_cons, List.flatMap_cons, List.append_assoc, List.append_assoc] at h
      obtain ⟨rfl, htail⟩ := hinj x List.mem_cons_self y List.mem_cons_self _ _
        (startsIn_tail hclose xs rest) (startsIn_tail hclose ys rest')
        (List.cons.inj (List.cons.inj h).2).2
      obtain ⟨rfl, hrest⟩ := ih (fun x hx y hy => hinj x (List.mem_cons_of_mem _ hx) y
        (List.mem_cons_of_mem _ hy)) htail
      exact ⟨rfl, hrest⟩

/-- **A sequence tells its elements, and where it ends,** if each element does so and none begins
like the end of the sequence. -/
theorem commaSeparated_append_inj (hclose : isMark close = true) (hcomma : close ≠ ',')
    {xs ys : List α} (hhead : ∀ x ∈ xs ++ ys, ∀ rest rest', text x ++ rest ≠ close :: rest')
    (hinj : ∀ x ∈ xs, ∀ y ∈ ys, ∀ rest rest', StartsIn isMark rest → StartsIn isMark rest' →
      text x ++ rest = text y ++ rest' → x = y ∧ rest = rest') {rest rest' : List Char}
    (h : commaSeparated (xs.map text) ++ close :: rest =
      commaSeparated (ys.map text) ++ close :: rest') :
    xs = ys ∧ rest = rest' := by
  cases xs with
  | nil =>
    cases ys with
    | nil => exact ⟨rfl, (List.cons.inj h).2⟩
    | cons y ys =>
      rw [List.map_cons, commaSeparated_cons, List.append_assoc] at h
      exact absurd h.symm (hhead y (by simp) _ _)
  | cons x xs =>
    cases ys with
    | nil =>
      rw [List.map_cons, commaSeparated_cons, List.append_assoc] at h
      exact absurd h (hhead x (by simp) _ _)
    | cons y ys =>
      rw [List.map_cons, List.map_cons, commaSeparated_cons, commaSeparated_cons, List.flatMap_map,
        List.flatMap_map, List.append_assoc, List.append_assoc] at h
      obtain ⟨rfl, htail⟩ := hinj x List.mem_cons_self y List.mem_cons_self _ _
        (startsIn_tail hclose xs rest) (startsIn_tail hclose ys rest') h
      obtain ⟨rfl, hrest⟩ := tail_append_inj hclose hcomma (fun x hx y hy =>
        hinj x (List.mem_cons_of_mem _ hx) y (List.mem_cons_of_mem _ hy)) htail
      exact ⟨rfl, hrest⟩

end Sequences

/-! ### Texts of floats -/

/-- A text of floats is legible if it tells all of them apart but the NaNs, and if the finite ones
cannot be taken for integers: they are written with digits and signs and with a point or the letter
of an exponent. -/
structure Legible (float : Double → List Char) : Prop where
  inj : ∀ x y, x.isNaN = false → y.isNaN = false → float x = float y → x = y
  chars : ∀ x, x.isFinite = true → ∀ c ∈ float x, isNumeralChar c = true
  pointed : ∀ x, x.isFinite = true → '.' ∈ float x ∨ 'e' ∈ float x
  infinite : float (Double.infinity false) = ['i', 'n', 'f']
  negativeInfinite : float (Double.infinity true) = ['-', 'i', 'n', 'f']

theorem Double.eq_infinity {x : Double} (hnan : x.isNaN = false) (hfinite : x.isFinite = false) :
    x = Double.infinity x.negative := by
  have hmagnitude : x.magnitude = infinityWord := by
    simp only [isNaN, isFinite, decide_eq_false_iff_not] at hnan hfinite
    omega
  refine eq_of_negative_of_magnitude ?_ ?_
  · cases x.negative <;> rfl
  · rw [hmagnitude]
    cases x.negative <;> rfl

namespace Legible

variable {float : Double → List Char} (hfloat : Legible float) {x : Double}

include hfloat

/-- A float that is no NaN is finite or one of two words. -/
theorem cases (hx : x.isNaN = false) :
    ((∀ c ∈ float x, isNumeralChar c = true) ∧ ('.' ∈ float x ∨ 'e' ∈ float x)) ∨
      float x = ['i', 'n', 'f'] ∨ float x = ['-', 'i', 'n', 'f'] := by
  cases hfinite : x.isFinite with
  | true => exact .inl ⟨hfloat.chars x hfinite, hfloat.pointed x hfinite⟩
  | false =>
    rw [Double.eq_infinity hx hfinite]
    cases x.negative with
    | false => exact .inr (.inl hfloat.infinite)
    | true => exact .inr (.inr hfloat.negativeInfinite)

theorem isMark_eq_false (hx : x.isNaN = false) {c : Char} (hc : c ∈ float x) :
    isMark c = false := by
  rcases hfloat.cases hx with ⟨hchars, -⟩ | heq | heq
  · exact isMark_of_isNumeralChar (hchars c hc)
  · exact isMark_of_mem (by decide) (heq ▸ hc)
  · exact isMark_of_mem (by decide) (heq ▸ hc)

theorem ne_nil (hx : x.isNaN = false) : float x ≠ [] := by
  rcases hfloat.cases hx with ⟨-, hpoint⟩ | heq | heq
  · rcases hpoint with h | h <;> exact List.ne_nil_of_mem h
  · rw [heq]
    exact List.cons_ne_nil _ _
  · rw [heq]
    exact List.cons_ne_nil _ _

/-- No float reads like a word. -/
theorem ne_word (hx : x.isNaN = false) {word : List Char} (hword : word.all isNumeralChar = false)
    (hne : word ≠ ['i', 'n', 'f'] ∧ word ≠ ['-', 'i', 'n', 'f']) : float x ≠ word := by
  intro h
  rcases hfloat.cases hx with ⟨hchars, -⟩ | heq | heq
  · rw [h] at hchars
    rw [List.all_eq_true.2 hchars] at hword
    cases hword
  · exact hne.1 (h.symm.trans heq)
  · exact hne.2 (h.symm.trans heq)

/-- No float reads like an integer. -/
theorem ne_decimal (hx : x.isNaN = false) (n : Int) : float x ≠ decimal n := by
  intro h
  have hdigit : ∀ c ∈ float x, Json.Numeral.isDigit c = true ∨ c = '-' :=
    fun c hc => Json.mem_decimal (h ▸ hc)
  rcases hfloat.cases hx with ⟨-, hpoint | hpoint⟩ | heq | heq
  · exact absurd (hdigit '.' hpoint) (by decide)
  · exact absurd (hdigit 'e' hpoint) (by decide)
  · exact absurd (hdigit 'i' (by simp [heq])) (by decide)
  · exact absurd (hdigit 'i' (by simp [heq])) (by decide)

end Legible

/-! ### Texts of floats in messages -/

namespace Double

theorem mem_unsignedNumeral (style : NumeralStyle) (x : Double) :
    '.' ∈ x.unsignedNumeral style ∨ 'e' ∈ x.unsignedNumeral style := by
  rcases x.unsignedNumeral_cases style with ⟨-, heq⟩ | ⟨-, heq⟩ | ⟨-, heq⟩
  · exact .inl (by rw [heq]; simp)
  · refine .inl ?_
    rw [heq, Decimal.plain]
    split <;> simp
  · exact .inr (by rw [heq, Decimal.scientific]; simp)

theorem numeral_infinity (style : NumeralStyle) (negative : Bool) :
    (infinity negative).numeral style =
      if negative then style.negativeInfinite else style.infinite := by
  cases negative <;> rfl

/-- **The texts of floats in messages are legible.** -/
theorem legible_numeral : Legible (numeral Term.literalNumerals) where
  inj x y hx hy h := by
    -- the words for infinities have a letter that no numeral has
    have hapart : ∀ {x : Double}, x.isFinite = true → ∀ negative,
        x.numeral Term.literalNumerals ≠ (infinity negative).numeral Term.literalNumerals := by
      intro x hx negative heq
      have hletter : 'i' ∈ x.numeral Term.literalNumerals := by
        rw [heq, numeral_infinity]
        cases negative <;> simp [Term.literalNumerals]
      exact absurd (isNumeralChar_of_mem_numeral _ hx hletter) (by decide)
    cases hxf : x.isFinite with
    | true =>
      cases hyf : y.isFinite with
      | true => exact eq_of_numeral_eq _ hxf hyf h
      | false =>
        rw [eq_infinity hy hyf] at h
        exact absurd h (hapart hxf _)
    | false =>
      rw [eq_infinity hx hxf] at h ⊢
      cases hyf : y.isFinite with
      | true => exact absurd h.symm (hapart hyf _)
      | false =>
        rw [eq_infinity hy hyf] at h ⊢
        rw [numeral_infinity, numeral_infinity] at h
        cases hxn : x.negative <;> cases hyn : y.negative <;> simp_all [Term.literalNumerals]
  chars x hx _ := isNumeralChar_of_mem_numeral _ hx
  pointed x hx := by
    rw [numeral_eq_sign_append _ hx]
    exact (mem_unsignedNumeral _ x).imp (List.mem_append_right _) (List.mem_append_right _)
  infinite := rfl
  negativeInfinite := rfl

end Double

/-! ### Leaves -/

namespace Term

/-- The term is, at its root, none whose literal form could be that of another: no atom, no NaN and
no `uint` of the signed range. -/
def Definite : Term → Prop
  | atom _ => False
  | uint n => 0x7fffffffffffffff < n.toNat
  | float x => x.isNaN = false
  | _ => True

/-- The mark that the literal form of a term begins with, if it is no bare leaf. -/
def opening : Term → Option Char
  | str _ => some '\"'
  | list _ => some '['
  | tuple _ => some '('
  | map _ => some '\x7b'
  | _ => none

/-- No literal form begins with the mark that ends a list or a tuple. -/
theorem opening_ne (t : Term) : t.opening ≠ some ']' ∧ t.opening ≠ some ')' := by
  cases t <;> simp [opening]

theorem truthText_inj {a b : Bool} (h : truthText a = truthText b) : a = b := by
  cases a <;> cases b <;> cases h <;> rfl

theorem decimal_inj {m n : Int} (h : decimal m = decimal n) : m = n := by
  have hparse := congrArg Json.Numeral.parse? h
  rw [Json.parse?_decimal, Json.parse?_decimal, Option.some.injEq, Json.Numeral.mk.injEq] at hparse
  obtain ⟨hsign, hdigits, -⟩ := hparse
  have habs : m.natAbs = n.natAbs := toDigits_inj (by decide) (by decide) hdigits
  rw [decide_eq_decide] at hsign
  omega

theorem decimal_ne_word (n : Int) {word : List Char} (hword : word.all isNumeralChar = false) :
    decimal n ≠ word := by
  rintro rfl
  rw [List.all_eq_true.2 fun _ => Json.isNumeralChar_of_mem_decimal] at hword
  cases hword

section Leaves

variable {floatText : Double → List Char} (hfloat : Legible floatText) {t u : Term}

include hfloat

/-- A bare leaf has a text, and no marks in it. -/
theorem render_leaf (ht : t.opening = none) (hdefinite : t.Definite) :
    t.render floatText ≠ [] ∧ ∀ c ∈ t.render floatText, isMark c = false := by
  cases t with
  | null =>
    rw [render]
    exact ⟨List.cons_ne_nil _ _, fun c => isMark_of_mem (by decide)⟩
  | bool b =>
    rw [render]
    cases b with
    | false => exact ⟨List.cons_ne_nil _ _, fun c => isMark_of_mem (by decide)⟩
    | true => exact ⟨List.cons_ne_nil _ _, fun c => isMark_of_mem (by decide)⟩
  | int n | uint n =>
    rw [render]
    exact ⟨Json.decimal_ne_nil _,
      fun c hc => isMark_of_isNumeralChar (Json.isNumeralChar_of_mem_decimal hc)⟩
  | float x =>
    rw [render]
    exact ⟨hfloat.ne_nil hdefinite, fun c => hfloat.isMark_eq_false hdefinite⟩
  | atom => exact hdefinite.elim
  | _ => cases ht

theorem eq_null_of_render (ht : t.opening = none) (hdefinite : t.Definite)
    (h : t.render floatText = ['n', 'u', 'l', 'l']) : t = null := by
  cases t with
  | null => rfl
  | bool b =>
    rw [render] at h
    cases b <;> cases h
  | int n | uint n =>
    rw [render] at h
    exact absurd h (decimal_ne_word _ (by decide))
  | float x =>
    rw [render] at h
    exact absurd h (hfloat.ne_word hdefinite (by decide) (by decide))
  | atom => exact hdefinite.elim
  | _ => cases ht

theorem eq_bool_of_render (ht : t.opening = none) (hdefinite : t.Definite) {b : Bool}
    (h : t.render floatText = truthText b) : t = bool b := by
  have hword : (truthText b).all isNumeralChar = false := by cases b <;> decide
  have hne : truthText b ≠ ['i', 'n', 'f'] ∧ truthText b ≠ ['-', 'i', 'n', 'f'] := by
    cases b <;> decide
  cases t with
  | null =>
    rw [render] at h
    cases b <;> cases h
  | bool a =>
    rw [render] at h
    rw [truthText_inj h]
  | int n | uint n =>
    rw [render] at h
    exact absurd h (decimal_ne_word _ hword)
  | float x =>
    rw [render] at h
    exact absurd h (hfloat.ne_word hdefinite hword hne)
  | atom => exact hdefinite.elim
  | _ => cases ht

theorem integer?_of_render (ht : t.opening = none) (hdefinite : t.Definite) {n : Int}
    (h : t.render floatText = decimal n) : t.integer? = some n := by
  cases t with
  | null =>
    rw [render] at h
    exact absurd h.symm (decimal_ne_word _ (by decide))
  | bool b =>
    rw [render] at h
    exact absurd h.symm (decimal_ne_word _ (by cases b <;> decide))
  | int m | uint m =>
    rw [render] at h
    exact congrArg some (decimal_inj h)
  | float x =>
    rw [render] at h
    exact absurd h (hfloat.ne_decimal hdefinite n)
  | atom => exact hdefinite.elim
  | _ => cases ht

omit hfloat in
theorem narrow_of_definite (ht : t.opening = none) (hdefinite : t.Definite) : t.Narrow := by
  cases t with
  | uint n => exact narrow_uint.2 hdefinite
  | null | bool | int | float | atom => simp [Narrow, nodes]
  | _ => cases ht

/-- **The text of a bare leaf tells the leaf.** -/
theorem leaf_inj (ht : t.opening = none) (hu : u.opening = none) (htdef : t.Definite)
    (hudef : u.Definite) (h : t.render floatText = u.render floatText) : t = u := by
  have hnarrow : t.Narrow ∧ u.Narrow := ⟨narrow_of_definite ht htdef, narrow_of_definite hu hudef⟩
  cases t with
  | null =>
    rw [render] at h
    exact (eq_null_of_render hfloat hu hudef h.symm).symm
  | bool b =>
    rw [render] at h
    exact (eq_bool_of_render hfloat hu hudef h.symm).symm
  | int n | uint n =>
    rw [render] at h
    exact eq_of_integer? hnarrow.1 hnarrow.2 rfl (integer?_of_render hfloat hu hudef h.symm)
  | float x =>
    cases u with
    | null => exact eq_null_of_render hfloat ht htdef h
    | bool b => exact eq_bool_of_render hfloat ht htdef h
    | int n | uint n =>
      rw [render, render] at h
      exact absurd h (hfloat.ne_decimal htdef _)
    | float y =>
      rw [render, render] at h
      rw [hfloat.inj x y htdef hudef h]
    | atom => exact hudef.elim
    | _ => cases hu
  | atom => exact htdef.elim
  | _ => cases ht

end Leaves

/-! ### Terms -/

theorem renderItems_eq_map (floatText : Double → List Char) (items : List Term) :
    renderItems floatText items = items.map (render floatText) := by
  induction items with
  | nil => rfl
  | cons t ts ih => rw [renderItems, ih, List.map_cons]

/-- The literal form of an entry. -/
def renderEntry (floatText : Double → List Char) (e : String × Term) : List Char :=
  Text.quoted e.1 ++ ':' :: ' ' :: e.2.render floatText

theorem renderEntries_eq_map (floatText : Double → List Char) (entries : List (String × Term)) :
    renderEntries floatText entries = entries.map (renderEntry floatText) := by
  induction entries with
  | nil => rfl
  | cons e es ih => rw [renderEntries, ih, List.map_cons, renderEntry]

/-- Every term in the term is definite. -/
def Clear (t : Term) : Prop := ∀ v ∈ t.nodes, v.Definite

theorem Clear.definite {t : Term} (h : t.Clear) : t.Definite := h t t.mem_nodes_self

theorem clear_list {items : List Term} : (list items).Clear ↔ ∀ t ∈ items, t.Clear :=
  forall_mem_nodes_list.trans (and_iff_right trivial)

theorem clear_tuple {items : List Term} : (tuple items).Clear ↔ ∀ t ∈ items, t.Clear :=
  forall_mem_nodes_tuple.trans (and_iff_right trivial)

theorem clear_map {entries : List (String × Term)} :
    (map entries).Clear ↔ ∀ e ∈ entries, e.2.Clear :=
  forall_mem_nodes_map.trans (and_iff_right trivial)

section Terms

variable {floatText : Double → List Char} (hfloat : Legible floatText) {t u : Term}

include hfloat

/-- A literal form begins with the mark of the term, or with no mark. -/
theorem exists_head_render (ht : t.Definite) :
    ∃ c cs, t.render floatText = c :: cs ∧ t.opening = if isMark c then some c else none := by
  cases hopening : t.opening with
  | none =>
    obtain ⟨hne, hmark⟩ := render_leaf hfloat hopening ht
    obtain ⟨c, cs, heq⟩ := List.exists_cons_of_ne_nil hne
    exact ⟨c, cs, heq, by rw [hmark c (heq ▸ List.mem_cons_self)]; rfl⟩
  | some c =>
    cases t with
    | str | list | tuple | map =>
      rw [← hopening]
      exact ⟨_, _, rfl, rfl⟩
    | _ => cases hopening

theorem opening_eq (ht : t.Definite) (hu : u.Definite) {rest rest' : List Char}
    (h : t.render floatText ++ rest = u.render floatText ++ rest') : t.opening = u.opening := by
  obtain ⟨c, cs, hc, htc⟩ := exists_head_render hfloat ht
  obtain ⟨d, ds, hd, hud⟩ := exists_head_render hfloat hu
  rw [hc, hd] at h
  rw [htc, hud, (List.cons.inj h).1]

/-- No literal form begins like the end of a sequence. -/
theorem render_append_ne (ht : t.Definite) {close : Char} (hclose : isMark close = true)
    (hopening : t.opening ≠ some close) (rest rest' : List Char) :
    t.render floatText ++ rest ≠ close :: rest' := by
  intro h
  obtain ⟨c, cs, hc, htc⟩ := exists_head_render hfloat ht
  rw [hc] at h
  rw [(List.cons.inj h).1, if_pos hclose] at htc
  exact hopening htc

theorem leaf_append_inj (ht : t.Definite) (hu : u.Definite) (hleaf : t.opening = none)
    {rest rest' : List Char} (hrest : StartsIn isMark rest) (hrest' : StartsIn isMark rest')
    (h : t.render floatText ++ rest = u.render floatText ++ rest') : t = u ∧ rest = rest' := by
  have hleaf' : u.opening = none := (opening_eq hfloat ht hu h).symm.trans hleaf
  obtain ⟨htext, heq⟩ := run_append_inj (render_leaf hfloat hleaf ht).2
    (render_leaf hfloat hleaf' hu).2 hrest hrest' h
  exact ⟨leaf_inj hfloat hleaf hleaf' ht hu htext, heq⟩

omit hfloat in
/-- Of every text that begins with the literal form, the term and what follows it are known. -/
def Tells (floatText : Double → List Char) (t : Term) : Prop :=
  ∀ u : Term, u.Clear → ∀ rest rest', StartsIn isMark rest → StartsIn isMark rest' →
    t.render floatText ++ rest = u.render floatText ++ rest' → t = u ∧ rest = rest'

theorem items_append_inj (close : Char) {items others : List Term} (hclose : isMark close = true)
    (hcomma : close ≠ ',') (hopening : ∀ t : Term, t.opening ≠ some close)
    (hitems : ∀ t ∈ items, t.Clear) (hothers : ∀ u ∈ others, u.Clear)
    (htells : ∀ t ∈ items, t.Tells floatText) {rest rest' : List Char}
    (h : commaSeparated (renderItems floatText items) ++ close :: rest =
      commaSeparated (renderItems floatText others) ++ close :: rest') :
    items = others ∧ rest = rest' := by
  rw [renderItems_eq_map, renderItems_eq_map] at h
  refine commaSeparated_append_inj hclose hcomma ?_
    (fun t ht u hu => htells t ht u (hothers u hu)) h
  intro t ht
  have hclear : t.Clear := (List.mem_append.1 ht).elim (hitems t) (hothers t)
  exact render_append_ne hfloat hclear.definite hclose (hopening t)

omit hfloat in
theorem entries_append_inj {entries others : List (String × Term)}
    (hothers : ∀ e ∈ others, e.2.Clear) (htells : ∀ e ∈ entries, e.2.Tells floatText)
    {rest rest' : List Char}
    (h : commaSeparated (renderEntries floatText entries) ++ '\x7d' :: rest =
      commaSeparated (renderEntries floatText others) ++ '\x7d' :: rest') :
    entries = others ∧ rest = rest' := by
  rw [renderEntries_eq_map, renderEntries_eq_map] at h
  refine commaSeparated_append_inj rfl (by decide) ?_ ?_ h
  · intro e _ rest rest' heq
    exact absurd (List.cons.inj heq).1 (by decide)
  · intro e he f hf rest rest' hrest hrest' heq
    rw [renderEntry, renderEntry, List.append_assoc, List.append_assoc] at heq
    obtain ⟨hkey, hvalue⟩ := quoted_append_inj heq
    obtain ⟨hterm, hend⟩ := htells e he f.2 (hothers f hf) rest rest' hrest hrest'
      (List.cons.inj (List.cons.inj hvalue).2).2
    exact ⟨Prod.ext hkey hterm, hend⟩

/-- **A literal form tells the term, and where it ends.** -/
theorem tells_of_clear (t : Term) : t.Clear → t.Tells floatText := by
  induction t using Term.ind with
  | null | bool | int | uint | float | atom =>
    intro ht u hu rest rest' hrest hrest' h
    exact leaf_append_inj hfloat ht.definite hu.definite rfl hrest hrest' h
  | str text =>
    intro ht u hu rest rest' _ _ h
    have hopening := opening_eq hfloat ht.definite hu.definite h
    cases u with
    | str other =>
      obtain ⟨htext, hrest⟩ := quoted_append_inj h
      exact ⟨congrArg str htext, hrest⟩
    | _ => simp [opening] at hopening
  | list items ih =>
    intro ht u hu rest rest' _ _ h
    have hopening := opening_eq hfloat ht.definite hu.definite h
    cases u with
    | list others =>
      rw [render, render, enclosed_append, enclosed_append] at h
      obtain ⟨hitems, hrest⟩ := items_append_inj hfloat ']' rfl (by decide)
        (fun t => t.opening_ne.1) (clear_list.1 ht) (clear_list.1 hu)
        (fun t hmem => ih t hmem (clear_list.1 ht t hmem)) (List.cons.inj h).2
      exact ⟨congrArg list hitems, hrest⟩
    | _ => simp [opening] at hopening
  | tuple items ih =>
    intro ht u hu rest rest' _ _ h
    have hopening := opening_eq hfloat ht.definite hu.definite h
    cases u with
    | tuple others =>
      rw [render, render, enclosed_append, enclosed_append] at h
      obtain ⟨hitems, hrest⟩ := items_append_inj hfloat ')' rfl (by decide)
        (fun t => t.opening_ne.2) (clear_tuple.1 ht) (clear_tuple.1 hu)
        (fun t hmem => ih t hmem (clear_tuple.1 ht t hmem)) (List.cons.inj h).2
      exact ⟨congrArg tuple hitems, hrest⟩
    | _ => simp [opening] at hopening
  | map entries ih =>
    intro ht u hu rest rest' _ _ h
    have hopening := opening_eq hfloat ht.definite hu.definite h
    cases u with
    | map others =>
      rw [render, render, enclosed_append, enclosed_append] at h
      obtain ⟨hentries, hrest⟩ := entries_append_inj (clear_map.1 hu)
        (fun e hmem => ih e hmem (clear_map.1 ht e hmem)) (List.cons.inj h).2
      exact ⟨congrArg map hentries, hrest⟩
    | _ => simp [opening] at hopening

end Terms

/-- **Literal forms are unambiguous.**  Terms without atoms, NaNs and small `uint`s that have the
same literal form are equal, with every text of floats that is legible and so with that of
messages. -/
theorem literal_inj {t u : Term} (ht : t.Clear) (hu : u.Clear) :
    (∀ floatText, Legible floatText → t.render floatText = u.render floatText → t = u) ∧
      (t.literal = u.literal → t = u) := by
  have hrender : ∀ floatText, Legible floatText →
      t.render floatText = u.render floatText → t = u := by
    intro floatText hfloat h
    exact (tells_of_clear hfloat t ht u hu [] [] (startsIn_nil _) (startsIn_nil _)
      (congrArg (· ++ []) h)).1
  exact ⟨hrender, hrender _ Double.legible_numeral⟩

/-- A string that reads like the end of a list and the beginning of the next one is still a string,
and a float is no integer. -/
theorem literal_inj_of_quotes :
    let t := list [str "a\", [1, \"b", map [("k\": 1, \"l", float ⟨0x3ff0000000000000⟩)]]
    let u := list [str "a", list [int 1, str "b"], map [("k", int 1), ("l", int 1)]]
    t.Clear ∧ u.Clear ∧ t.literal ≠ u.literal := by
  intro t u
  have ht : t.Clear := by
    simp [t, Clear, nodes, nodesItems, nodesEntries, Definite]
    decide
  have hu : u.Clear := by simp [u, Clear, nodes, nodesItems, nodesEntries, Definite]
  refine ⟨ht, hu, fun h => ?_⟩
  have heq : t = u := (literal_inj ht hu).2 h
  simp [t, u] at heq

end Term

end Conform
