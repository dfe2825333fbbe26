import Conform.Json.Token
import Mathlib.Data.List.Chain
import Mathlib.Tactic.IntervalCases

/-!
# Scanning what was written

The text of a row of tokens is scanned into the same tokens, with two reservations.  A bare run ends
only before a delimiter, so that no two bare tokens may be neighbours (`Token.Spaced`).  And a
control character without a short escape is written by its code, which is read as a unit:
`Piece.reread` and `Token.reread` are what comes back of a piece and of a token.

* `scanFrom_pieceText`: the text of a piece between quotes is read as the reread piece.
* `scanFrom_text`: so is the text of a token, if it is not a numeral without a grammar.
* `scan_text`: a row of tokens is scanned to its reread tokens, or not at all.
-/

namespace Conform.Json

/-- The piece that the text of a piece is read as. -/
def Piece.reread : Piece → Piece
  | .char c =>
    if c.toNat < 0x20 ∧ c ∉ ['\x08', '\x0c', '\n', '\r', '\t'] then .unit c.toNat else .char c
  | .unit code => .unit (code % 0x10000)

namespace Token

/-- The token that the text of a token is read as. -/
def reread : Token → Token
  | string pieces => string (pieces.map Piece.reread)
  | token => token

/-- The token is a bare run. -/
def isBare : Token → Bool
  | null | bool _ | number _ => true
  | _ => false

/-- The token is no numeral, or one that has a grammar. -/
def isGrammatical : Token → Bool
  | number numeral => (Numeral.parse? numeral).isSome
  | _ => true

/-- The characters that numerals are written with. -/
def isNumeralChar (c : Char) : Bool := Numeral.isDigit c || ['-', '+', '.', 'e'].contains c

/-- The token is no numeral, or one of the characters of numerals. -/
def Writable : Token → Prop
  | number numeral => numeral ≠ [] ∧ ∀ c ∈ numeral, isNumeralChar c = true
  | _ => True

/-- Of two neighbours one is delimited by itself. -/
def Spaced (ts : List Token) : Prop := ts.IsChain fun t u => t.isBare = false ∨ u.isBare = false

/-! ### Between quotes -/

theorem hexValue?_digitChar {d : Nat} (h : d < 16) : hexValue? (Nat.digitChar d) = some d := by
  interval_cases d <;> rfl

theorem scanFrom_unit (done : List Piece) (code : Nat) (rest : List Char) :
    scanFrom (.quoted done) (pieceText (.unit code) ++ rest) =
      scanFrom (.quoted (.unit (code % 0x10000) :: done)) rest := by
  have hdigit (n : Nat) := hexValue?_digitChar (Nat.mod_lt n (by decide : 0 < 16))
  have hcode : ((code / 256 / 16 % 16 * 16 + code / 256 % 16) * 16 + code / 16 % 16) * 16
      + code % 16 = code % 0x10000 := by omega
  simp [pieceText, hexPair, scanFrom, Mode.step, hdigit, hcode]

theorem scanFrom_pieceText (p : Piece) (done : List Piece) (rest : List Char) :
    scanFrom (.quoted done) (pieceText p ++ rest) = scanFrom (.quoted (p.reread :: done)) rest := by
  cases p with
  | unit code => exact scanFrom_unit done code rest
  | char c =>
    by_cases hshort : c ∈ ['\"', '\\', '\x08', '\x0c', '\n', '\r', '\t']
    · simp only [List.mem_cons, List.not_mem_nil, or_false] at hshort
      rcases hshort with rfl | rfl | rfl | rfl | rfl | rfl | rfl <;>
        simp [pieceText, escape, scanFrom, Mode.step, shortEscape?, Piece.reread]
    · simp only [List.mem_cons, List.not_mem_nil, or_false, not_or] at hshort
      obtain ⟨hquote, hback, hb, hf, hn, hr, ht⟩ := hshort
      by_cases hcontrol : c.toNat < 0x20
      · -- written by its code, whose upper two digits are zeros
        have htext : pieceText (.char c) = pieceText (.unit c.toNat) := by
          have hupper : c.toNat / 256 = 0 := by omega
          simp [pieceText, escape, hquote, hback, hb, hf, hn, hr, ht, hcontrol, hupper, hexPair]
        have hreread : Piece.reread (.char c) = .unit (c.toNat % 0x10000) := by
          have hcode : c.toNat % 0x10000 = c.toNat := by omega
          simp [Piece.reread, hcontrol, hb, hf, hn, hr, ht, hcode]
        rw [htext, hreread, scanFrom_unit]
      · simp [pieceText, escape, hquote, hback, hb, hf, hn, hr, ht, hcontrol, Piece.reread,
          scanFrom, Mode.step]

theorem scanFrom_pieces (ps done : List Piece) (rest : List Char) :
    scanFrom (.quoted done) (ps.flatMap pieceText ++ rest) =
      scanFrom (.quoted ((ps.map Piece.reread).reverse ++ done)) rest := by
  induction ps generalizing done with
  | nil => rfl
  | cons p ps ih =>
    rw [List.flatMap_cons, List.append_assoc, scanFrom_pieceText, ih]
    simp

/-! ### Bare runs -/

theorem mem_of_isDelimiter {c : Char} (h : isDelimiter c = true) :
    c ∈ [' ', '\t', '\n', '\r', '\"', '[', ']', '\x7b', '\x7d', ',', ':'] := by
  unfold isDelimiter isBlank punctuation? at h
  split at h <;> simp_all [or_assoc]

theorem isDelimiter_eq_false {c : Char} (h : isNumeralChar c = true) : isDelimiter c = false := by
  have hnone : [' ', '\t', '\n', '\r', '\"', '[', ']', '\x7b', '\x7d', ',', ':'].all
      (fun d => !isNumeralChar d) = true := by decide
  cases hc : isDelimiter c with
  | false => rfl
  | true =>
    have hchar := List.all_eq_true.1 hnone c (mem_of_isDelimiter hc)
    simp [h] at hchar

theorem scanFrom_run (run done rest : List Char) (hrun : ∀ c ∈ run, isDelimiter c = false) :
    scanFrom (.bare done) (run ++ rest) = scanFrom (.bare (run.reverse ++ done)) rest := by
  induction run generalizing done with
  | nil => rfl
  | cons c run ih =>
    have hc := hrun c List.mem_cons_self
    have hstep : Mode.step c (.bare done) = some (.bare (c :: done), []) := by
      simp [Mode.step, hc]
    rw [List.cons_append, scanFrom, hstep]
    simp [ih (c :: done) fun d hd => hrun d (List.mem_cons_of_mem c hd)]

/-- A bare run is over at a delimiter, which is then read as if nothing had been before it. -/
theorem scanFrom_bare (done rest : List Char) (hrest : ∀ c ∈ rest.head?, isDelimiter c = true) :
    scanFrom (.bare done) rest =
      (ofBare? done.reverse).bind fun token => (scanFrom .between rest).map (token :: ·) := by
  cases rest with
  | nil => simp [scanFrom, Mode.finish, Option.map_eq_bind]
  | cons c rest =>
    have hc : isDelimiter c = true := hrest c rfl
    cases htoken : ofBare? done.reverse with
    | none => simp [scanFrom, Mode.step, hc, htoken]
    | some token => simp [scanFrom, Mode.step, hc, htoken]

/-- A bare token is read back from its text, unless it is a numeral without a grammar. -/
theorem ofBare?_text {t : Token} (hbare : t.isBare = true) (ht : t.Writable) :
    ofBare? t.text = if t.isGrammatical then some t else none := by
  cases t with
  | null => rfl
  | bool b => cases b <;> rfl
  | number numeral =>
    -- a word has a letter that no numeral has
    have hword : ∀ word : List Char, ¬ word.all isNumeralChar → numeral ≠ word := by
      intro word hword heq
      exact hword (heq ▸ List.all_eq_true.2 ht.2)
    have hnull := hword "null".toList (by decide)
    have htrue := hword "true".toList (by decide)
    have hfalse := hword "false".toList (by decide)
    have htext : text (.number numeral) = numeral := rfl
    rw [htext, ofBare?, if_neg hnull, if_neg htrue, if_neg hfalse, isGrammatical]
    cases Numeral.parse? numeral <;> rfl
  | _ => simp [isBare] at hbare

theorem exists_text_eq_cons {t : Token} (hbare : t.isBare = true) (ht : t.Writable) :
    ∃ c cs, t.text = c :: cs ∧ ∀ d ∈ c :: cs, isDelimiter d = false := by
  cases t with
  | null => exact ⟨'n', ['u', 'l', 'l'], rfl, by simp [isDelimiter, isBlank, punctuation?]⟩
  | bool b =>
    cases b with
    | true => exact ⟨'t', ['r', 'u', 'e'], rfl, by simp [isDelimiter, isBlank, punctuation?]⟩
    | false => exact ⟨'f', ['a', 'l', 's', 'e'], rfl, by simp [isDelimiter, isBlank, punctuation?]⟩
  | number numeral =>
    obtain ⟨hne, hchars⟩ := ht
    obtain ⟨c, cs, rfl⟩ := List.exists_cons_of_ne_nil hne
    exact ⟨c, cs, rfl, fun d hd => isDelimiter_eq_false (hchars d hd)⟩
  | _ => simp [isBare] at hbare

/-! ### Rows of tokens -/

theorem isDelimiter_head {t : Token} (hbare : t.isBare = false) (rest : List Char) :
    ∀ c ∈ (t.text ++ rest).head?, isDelimiter c = true := by
  cases t with
  | null | bool _ | number _ => simp [isBare] at hbare
  | string pieces => simp [text, isDelimiter]
  | _ => simp [text, isDelimiter, punctuation?]

theorem scanFrom_text {t : Token} (ht : t.Writable) {rest : List Char}
    (hrest : t.isBare = false ∨ ∀ c ∈ rest.head?, isDelimiter c = true) :
    scanFrom .between (t.text ++ rest) =
      if t.isGrammatical then (scanFrom .between rest).map (t.reread :: ·) else none := by
  cases hbare : t.isBare with
  | true =>
    obtain ⟨c, cs, htext, hrun⟩ := exists_text_eq_cons hbare ht
    have hdelim : ∀ d ∈ rest.head?, isDelimiter d = true := by simpa [hbare] using hrest
    have hstart : Mode.start c = (.bare [c], []) := by
      have hc := hrun c List.mem_cons_self
      simp only [isDelimiter, Bool.or_eq_false_iff, Option.isSome_eq_false_iff,
        Option.isNone_iff_eq_none] at hc
      obtain ⟨⟨hblank, hquote⟩, hpunct⟩ := hc
      simp_all [Mode.start]
    have hbegin : scanFrom .between (t.text ++ rest) = scanFrom (.bare t.text.reverse) rest := by
      have hcs := scanFrom_run cs [c] rest fun d hd => hrun d (List.mem_cons_of_mem c hd)
      simp [htext, scanFrom, Mode.step, hstart, hcs]
    have hreread : t.reread = t := by
      cases t with
      | string _ => simp [isBare] at hbare
      | _ => rfl
    rw [hbegin, scanFrom_bare _ _ hdelim, List.reverse_reverse, ofBare?_text hbare ht, hreread]
    cases t.isGrammatical <;> rfl
  | false =>
    cases t with
    | null | bool _ | number _ => simp [isBare] at hbare
    | string pieces =>
      have hpieces := scanFrom_pieces pieces [] ('\"' :: rest)
      have hstart : Mode.start '\"' = (.quoted [], []) := rfl
      simp [text, scanFrom, Mode.step, hstart, hpieces, isGrammatical, reread, Option.map_eq_bind]
    | _ =>
      simp [text, scanFrom, Mode.step, Mode.start, isBlank, punctuation?, isGrammatical, reread,
        Option.map_eq_bind]

theorem scan_text {ts : List Token} (hspaced : Spaced ts) (hts : ∀ t ∈ ts, t.Writable) :
    scan (ts.flatMap text) =
      if ts.all isGrammatical then some (ts.map reread) else none := by
  unfold scan
  induction ts with
  | nil => rfl
  | cons t ts ih =>
    have hrest : t.isBare = false ∨ ∀ c ∈ (ts.flatMap text).head?, isDelimiter c = true := by
      cases ts with
      | nil => exact .inr (by simp)
      | cons u us =>
        rcases (List.isChain_cons_cons.1 hspaced).1 with hbare | hbare
        · exact .inl hbare
        · exact .inr (isDelimiter_head hbare _)
    have htail := ih hspaced.tail fun u hu => hts u (List.mem_cons_of_mem t hu)
    rw [List.flatMap_cons, scanFrom_text (hts t List.mem_cons_self) hrest, htail, List.all_cons]
    cases t.isGrammatical <;> cases ts.all isGrammatical <;> rfl

end Token

end Conform.Json
