import Conform.Proofs.Json.Numerals
import Conform.Proofs.Json.Reading
import Conform.Proofs.Term.Parts

/-!
# Terms survive their JSON form

The form of a term, with its strings reread, is read as the term, provided that its floats are read
back from their numerals: `ofJson?_toJson`.  A float that is not finite is written as
`null`, which is no float, so that a term with such a float anywhere in it is not read at all:
`ofJson?_toJson_eq_none`.

Both go by induction on terms, `Term.ind`.  The numerals in a form are those of the integers and of
the finite floats of the term (`numeralsOf_toJson`), which is what the reader of texts has to know.
-/

namespace Conform

/-- The double is finite, and its numeral is read back as it. -/
def Double.ReadsBack (x : Double) : Prop :=
  x.isFinite = true ∧ (Json.ofDouble x).asDouble? = some x

instance (x : Double) : Decidable x.ReadsBack := inferInstanceAs (Decidable (_ ∧ _))

theorem Double.ReadsBack.isSome_numberOfNumeral? {x : Double} (h : x.ReadsBack) :
    (Json.numberOfNumeral? (x.numeral Json.numerals)).isSome := by
  obtain ⟨hfinite, hread⟩ := h
  rw [Json.ofDouble, if_pos hfinite, Json.asDouble?, Json.asNumber?] at hread
  cases hnumber : Json.numberOfNumeral? (x.numeral Json.numerals) with
  | none => simp [hnumber] at hread
  | some _ => rfl

/-! ### Strings -/

namespace Json

/-- A unit that is no surrogate is the character of its code. -/
theorem decodePieces_unit {code : Nat} (h : code < 0xd800) (rest : List Piece) :
    decodePieces (.unit code :: rest) = (decodePieces rest).map (Char.ofNat code :: ·) := by
  have hhigh : ¬ 0xd800 ≤ code := by omega
  have hlow : ¬ 0xdc00 ≤ code := by omega
  cases rest with
  | nil => simp [decodePieces, hhigh]
  | cons p rest => cases p <;> simp [decodePieces, hhigh, hlow]

theorem decodePieces_reread (cs : List Char) :
    decodePieces (cs.map fun c => Piece.reread (.char c)) = some cs := by
  induction cs with
  | nil => rfl
  | cons c cs ih =>
    rw [List.map_cons, Piece.reread]
    split
    next hcoded =>
      rw [decodePieces_unit (by omega), ih, Option.map_some, Char.ofNat_toNat]
    next => rw [decodePieces, ih, Option.map_some]

@[simp] theorem text?_reread_pieces (text : String) :
    text? ((pieces text).map Piece.reread) = some text := by
  rw [text?, pieces, List.map_map]
  simp [Function.comp_def, decodePieces_reread]

@[simp] theorem asString?_reread_ofString (text : String) :
    (ofString text).reread.asString? = some text := by
  simp [ofString, reread, asString?]

theorem reread_ofMembers (members : List (String × Json)) :
    (ofMembers members).reread =
      object (members.map fun m => ((pieces m.1).map Piece.reread, m.2.reread)) := by
  rw [ofMembers, reread, rereadMembers_eq_map, List.map_map]
  rfl

@[simp] theorem reread_ofInteger (n : Int) : (ofInteger n).reread = ofInteger n := rfl

@[simp] theorem reread_ofDouble (x : Double) : (ofDouble x).reread = ofDouble x := by
  unfold ofDouble
  split <;> rfl

theorem asDouble?_ofDouble_eq_none {x : Double} (h : x.isFinite = false) :
    (ofDouble x).asDouble? = none := by
  simp [ofDouble, h, asDouble?, asNumber?]

end Json

/-! ### Numerals -/

namespace Json

/-- The numerals in the value are those of integers and of the finite among the given doubles. -/
def NumeralsOf (xs : List Double) (v : Json) : Prop :=
  ∀ numeral, Token.number numeral ∈ v.tokens →
    (∃ n, numeral = decimal n) ∨ ∃ x ∈ xs, x.isFinite = true ∧ numeral = x.numeral numerals

namespace NumeralsOf

variable {xs : List Double} {v : Json}

theorem writable (h : v.NumeralsOf xs) : v.Writable := by
  intro numeral hnumeral
  rcases h numeral hnumeral with ⟨n, rfl⟩ | ⟨x, -, hfinite, rfl⟩
  · exact writable_decimal n
  · exact writable_numeral hfinite

theorem grammatical (h : v.NumeralsOf xs) (hxs : ∀ x ∈ xs, x.ReadsBack) :
    ∀ numeral, Token.number numeral ∈ v.tokens → (Numeral.parse? numeral).isSome := by
  intro numeral hnumeral
  rcases h numeral hnumeral with ⟨n, rfl⟩ | ⟨x, hx, -, rfl⟩
  · simp [parse?_decimal]
  · have hnumber := (hxs x hx).isSome_numberOfNumeral?
    rw [numberOfNumeral?] at hnumber
    cases hparse : Numeral.parse? (x.numeral numerals) with
    | none => simp [hparse] at hnumber
    | some _ => rfl

end NumeralsOf

end Json

namespace Term

theorem toJsonItems_eq_map (items : List Term) : toJsonItems items = items.map toJson := by
  induction items with
  | nil => rfl
  | cons t ts ih => rw [toJsonItems, ih, List.map_cons]

/-- The form of an entry. -/
def entryJson (e : String × Term) : Json := .array [Json.ofString e.1, e.2.toJson]

theorem toJsonEntries_eq_map (entries : List (String × Term)) :
    toJsonEntries entries = entries.map entryJson := by
  induction entries with
  | nil => rfl
  | cons e es ih => rw [toJsonEntries, ih, List.map_cons, entryJson]

/-! ### Reading the form -/

variable {leniency : Json.Leniency}

theorem reread_tagged (name : String) (content : Json) :
    (tagged name content).reread =
      .object [((Json.pieces name).map Json.Piece.reread, content.reread)] := by
  rw [tagged, Json.reread_ofMembers]
  rfl

/-- Contents that are no array are a leaf. -/
theorem ofJson?_tagged_leaf (name : String) {content : Json}
    (h : ∀ items, content.reread ≠ .array items) :
    ofJson? leniency (tagged name content).reread = ofLeaf? leniency name content.reread := by
  rw [reread_tagged]
  generalize content.reread = v at h
  cases v with
  | array items => exact absurd rfl (h items)
  | _ => simp [ofJson?]

theorem ofJson?_tagged_array (name : String) (items : List Json) :
    ofJson? leniency (tagged name (.array items)).reread =
      if name = "List" then (ofJsonItems? leniency (Json.rereadItems items)).map list
      else if name = "Tuple" then (ofJsonItems? leniency (Json.rereadItems items)).map tuple
      else if name = "Map" then (ofJsonEntries? leniency (Json.rereadItems items)).map map
      else none := by
  rw [reread_tagged, Json.reread]
  simp [ofJson?]

theorem ofJsonItems?_toJsonItems {items : List Term}
    (h : ∀ t ∈ items, ofJson? leniency t.toJson.reread = some t) :
    ofJsonItems? leniency (Json.rereadItems (toJsonItems items)) = some items := by
  induction items with
  | nil => rfl
  | cons t ts ih =>
    have ht := h t List.mem_cons_self
    have hts := ih fun u hu => h u (List.mem_cons_of_mem t hu)
    rw [toJsonItems, Json.rereadItems, ofJsonItems?, ht, Option.bind_some, hts, Option.map_some]

theorem ofJsonEntries?_toJsonEntries {entries : List (String × Term)}
    (h : ∀ e ∈ entries, ofJson? leniency e.2.toJson.reread = some e.2) :
    ofJsonEntries? leniency (Json.rereadItems (toJsonEntries entries)) = some entries := by
  induction entries with
  | nil => rfl
  | cons e es ih =>
    have he := h e List.mem_cons_self
    have hes := ih fun d hd => h d (List.mem_cons_of_mem e hd)
    simp [toJsonEntries, Json.rereadItems, Json.reread, ofJsonEntries?, he, hes]

/-- One element that is not read stops the reading of all. -/
theorem ofJsonItems?_eq_none {items : List Term} {t : Term} (ht : t ∈ items)
    (h : ofJson? leniency t.toJson.reread = none) :
    ofJsonItems? leniency (Json.rereadItems (toJsonItems items)) = none := by
  induction items with
  | nil => cases ht
  | cons u us ih =>
    rw [toJsonItems, Json.rereadItems, ofJsonItems?]
    rcases List.mem_cons.1 ht with rfl | hmem
    · rw [h, Option.bind_none]
    · rw [ih hmem]
      cases ofJson? leniency u.toJson.reread <;> rfl

theorem ofJsonEntries?_eq_none {entries : List (String × Term)} {e : String × Term}
    (he : e ∈ entries) (h : ofJson? leniency e.2.toJson.reread = none) :
    ofJsonEntries? leniency (Json.rereadItems (toJsonEntries entries)) = none := by
  induction entries with
  | nil => cases he
  | cons d ds ih =>
    simp only [toJsonEntries, Json.rereadItems, Json.reread, ofJsonEntries?,
      Json.asString?_reread_ofString, Option.bind_some]
    rcases List.mem_cons.1 he with rfl | hmem
    · rw [h, Option.bind_none]
    · rw [ih hmem]
      cases ofJson? leniency d.2.toJson.reread <;> rfl

theorem ofJson?_int (n : Int64) : ofJson? leniency (int n).toJson.reread = some (int n) := by
  have hlow := n.le_toInt
  have hhigh := n.toInt_lt
  have hinteger : (Json.ofInteger n.toInt).asInteger? = some n.toInt :=
    Json.asInteger?_ofInteger (by omega) (by omega)
  have hword : n.toInt < 0x8000000000000000 := hhigh
  rw [toJson, ofJson?_tagged_leaf _ (by simp [Json.ofInteger, Json.reread])]
  simp [ofLeaf?, hinteger, hword]

theorem ofJson?_uint (n : UInt64) : ofJson? leniency (uint n).toJson.reread = some (uint n) := by
  have hhigh := n.toNat_lt
  have hinteger : (Json.ofInteger n.toNat).asInteger? = some (n.toNat : Int) :=
    Json.asInteger?_ofInteger (by omega) (by omega)
  rw [toJson, ofJson?_tagged_leaf _ (by simp [Json.ofInteger, Json.reread])]
  simp [ofLeaf?, hinteger]

/-- A float is what is read of its numeral. -/
theorem ofJson?_float (x : Double) :
    ofJson? leniency (float x).toJson.reread = (Json.ofDouble x).asDouble?.map float := by
  have hleaf : ∀ items, (Json.ofDouble x).reread ≠ .array items := by
    intro items
    rw [Json.reread_ofDouble, Json.ofDouble]
    split <;> exact Json.noConfusion
  rw [toJson, ofJson?_tagged_leaf _ hleaf, Json.reread_ofDouble]
  simp [ofLeaf?]

theorem ofJson?_toJson {t : Term} (h : ∀ x ∈ t.floats, x.ReadsBack) :
    ofJson? leniency t.toJson.reread = some t := by
  induction t using Term.ind with
  | null => simp [toJson, Json.ofString, Json.reread, ofJson?]
  | bool b =>
    rw [toJson, ofJson?_tagged_leaf _ (by simp [Json.reread])]
    rfl
  | int n => exact ofJson?_int n
  | uint n => exact ofJson?_uint n
  | float x =>
    obtain ⟨-, hread⟩ := h x (by simp [floats])
    rw [ofJson?_float, hread, Option.map_some]
  | str text =>
    rw [toJson, ofJson?_tagged_leaf _ (by simp [Json.ofString, Json.reread])]
    simp [ofLeaf?]
  | atom text =>
    rw [toJson, ofJson?_tagged_leaf _ (by simp [Json.ofString, Json.reread])]
    simp [ofLeaf?]
  | list items ih =>
    have hitems := ofJsonItems?_toJsonItems fun t ht =>
      ih t ht fun x hx => h x (mem_floatsItems.2 ⟨t, ht, hx⟩)
    rw [toJson, ofJson?_tagged_array, if_pos rfl, hitems, Option.map_some]
  | tuple items ih =>
    have hitems := ofJsonItems?_toJsonItems fun t ht =>
      ih t ht fun x hx => h x (mem_floatsItems.2 ⟨t, ht, hx⟩)
    rw [toJson, ofJson?_tagged_array, if_neg (by decide), if_pos rfl, hitems, Option.map_some]
  | map entries ih =>
    have hentries := ofJsonEntries?_toJsonEntries fun e he =>
      ih e he fun x hx => h x (mem_floatsEntries.2 ⟨e, he, hx⟩)
    rw [toJson, ofJson?_tagged_array, if_neg (by decide), if_neg (by decide), if_pos rfl, hentries,
      Option.map_some]

theorem ofJson?_toJson_eq_none {t : Term} {x : Double} (hx : x ∈ t.floats)
    (hfinite : x.isFinite = false) : ofJson? leniency t.toJson.reread = none := by
  induction t using Term.ind with
  | null | bool _ | int _ | uint _ | str _ | atom _ => simp [floats] at hx
  | float y =>
    obtain rfl : x = y := by simpa [floats] using hx
    rw [ofJson?_float, Json.asDouble?_ofDouble_eq_none hfinite, Option.map_none]
  | list items ih =>
    obtain ⟨t, ht, hxt⟩ := mem_floatsItems.1 hx
    have hitems := ofJsonItems?_eq_none ht (ih t ht hxt)
    rw [toJson, ofJson?_tagged_array, if_pos rfl, hitems, Option.map_none]
  | tuple items ih =>
    obtain ⟨t, ht, hxt⟩ := mem_floatsItems.1 hx
    have hitems := ofJsonItems?_eq_none ht (ih t ht hxt)
    rw [toJson, ofJson?_tagged_array, if_neg (by decide), if_pos rfl, hitems, Option.map_none]
  | map entries ih =>
    obtain ⟨e, he, hxe⟩ := mem_floatsEntries.1 hx
    have hentries := ofJsonEntries?_eq_none he (ih e he hxe)
    rw [toJson, ofJson?_tagged_array, if_neg (by decide), if_neg (by decide), if_pos rfl, hentries,
      Option.map_none]

/-! ### Numerals in the form -/

theorem number_mem_tagged {numeral : List Char} {name : String} {content : Json} :
    Json.Token.number numeral ∈ (tagged name content).tokens ↔
      Json.Token.number numeral ∈ content.tokens := by
  simp [tagged, Json.number_mem_ofMembers]

theorem eq_of_number_mem_ofDouble {numeral : List Char} {x : Double}
    (h : Json.Token.number numeral ∈ (Json.ofDouble x).tokens) :
    x.isFinite = true ∧ numeral = x.numeral Json.numerals := by
  unfold Json.ofDouble at h
  split at h
  next hfinite => exact ⟨hfinite, by simpa [Json.tokens] using h⟩
  next => simp [Json.tokens] at h

/-- The numerals in the form of a term are those of its integers and its finite floats. -/
theorem numeralsOf_toJson (t : Term) : t.toJson.NumeralsOf t.floats := by
  intro numeral h
  induction t using Term.ind with
  | null => simp [toJson, Json.ofString, Json.tokens] at h
  | bool _ | str _ | atom _ =>
    rw [toJson, number_mem_tagged] at h
    simp [Json.ofString, Json.tokens] at h
  | int n | uint n =>
    rw [toJson, number_mem_tagged] at h
    exact .inl ⟨_, by simpa [Json.ofInteger, Json.tokens] using h⟩
  | float x =>
    rw [toJson, number_mem_tagged] at h
    exact .inr ⟨x, by simp [floats], eq_of_number_mem_ofDouble h⟩
  | list items ih | tuple items ih =>
    rw [toJson, number_mem_tagged, Json.number_mem_array, toJsonItems_eq_map] at h
    obtain ⟨_, hmem, hnumeral⟩ := h
    obtain ⟨t, ht, rfl⟩ := List.mem_map.1 hmem
    rcases ih t ht hnumeral with hn | ⟨x, hx, heq⟩
    · exact .inl hn
    · exact .inr ⟨x, mem_floatsItems.2 ⟨t, ht, hx⟩, heq⟩
  | map entries ih =>
    rw [toJson, number_mem_tagged, Json.number_mem_array, toJsonEntries_eq_map] at h
    obtain ⟨_, hmem, hnumeral⟩ := h
    obtain ⟨e, he, rfl⟩ := List.mem_map.1 hmem
    have hvalue : Json.Token.number numeral ∈ e.2.toJson.tokens := by
      rw [entryJson, Json.number_mem_array] at hnumeral
      simpa [Json.ofString, Json.tokens] using hnumeral
    rcases ih e he hvalue with hn | ⟨x, hx, heq⟩
    · exact .inl hn
    · exact .inr ⟨x, mem_floatsEntries.2 ⟨e, he, hx⟩, heq⟩

end Term

end Conform
