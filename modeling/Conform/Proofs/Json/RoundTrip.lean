import Conform.Mismatch.Json
import Conform.Proofs.Json.Terms

/-!
# What is written as JSON is read back

Terms, paths and mismatches survive being written as JSON text and read again.  What that means is
the same for the three, `Json.Survives`: the value itself is read if its doubles are read back from
their numerals and the text nests no deeper than a reader goes, and nothing is read if a double is
not finite or the text nests deeper.

By `Json.Survives.of_reread` the text can be left out of it, and what remains is to decode the form
with its strings reread.

* A term is decoded by `Term.ofJson?_toJson`, at any depth.
* A path nests two levels at most and has no doubles (`Path.depth_toJson`), so it is always read.
* A fault is read as a whole before its parts are looked at (`Fault.isReadable_toJson`), and these
  are then found by their names (`Fault.ofJson?_eq_ofParts?`).
* A mismatch is one level deeper than its two parts (`Mismatch.depth_toJson`).
-/

namespace Conform

namespace Json

/-- What is read of a text that was written for a value: the value itself, unless the text nests too
deep or one of the doubles of the value is not finite, and then nothing. -/
structure Survives {α : Type} (doubles : List Double) (form : Json) (read : Option α) (value : α) :
    Prop where
  read_back : (∀ x ∈ doubles, x.ReadsBack) → form.depth ≤ depthLimit → read = some value
  rejected : (∃ x ∈ doubles, x.isFinite = false) ∨ depthLimit < form.depth → read = none

/-- A value survives if its form, with the strings reread, is decoded to it or to nothing. -/
theorem Survives.of_reread {α : Type} {doubles : List Double} {form : Json} {value : α}
    {decode : Json → Option α} (hnumerals : form.NumeralsOf doubles)
    (hread : (∀ x ∈ doubles, x.ReadsBack) → form.depth ≤ depthLimit →
      decode form.reread = some value)
    (hreject : (∃ x ∈ doubles, x.isFinite = false) ∨ depthLimit < form.depth →
      decode form.reread = none) :
    Survives doubles form ((parse? form.text).bind decode) value where
  read_back hdoubles hdepth := by
    rw [parse?_text_of_grammatical hnumerals.writable (hnumerals.grammatical hdoubles),
      Option.bind_some, hread hdoubles hdepth]
  rejected hbad := by
    cases hparse : parse? form.text with
    | none => rfl
    | some v =>
      rw [eq_reread_of_parse?_text hnumerals.writable hparse, Option.bind_some, hreject hbad]

@[simp] theorem onlyMember?_reread_ofMembers (name : String) (content : Json) :
    (ofMembers [(name, content)]).reread.onlyMember? = some (name, content.reread) := by
  simp [reread_ofMembers, onlyMember?]

theorem named?_reread (members : List (String × Json)) :
    named? (members.map fun m => ((pieces m.1).map Piece.reread, m.2.reread)) =
      some (members.map fun m => (m.1, m.2.reread)) := by
  induction members with
  | nil => rfl
  | cons m ms ih =>
    unfold named? at ih ⊢
    simp [ih]

/-! ### Readable forms -/

theorem areReadable_iff {items : List Json} :
    areReadable items = true ↔ ∀ v ∈ items, v.isReadable = true := by
  induction items with
  | nil => simp [areReadable]
  | cons v vs ih => simp [areReadable, ih]

theorem haveReadable_iff {members : List (List Piece × Json)} :
    haveReadable members = true ↔
      ∀ m ∈ members, (text? m.1).isSome = true ∧ m.2.isReadable = true := by
  induction members with
  | nil => simp [haveReadable]
  | cons m ms ih => simp [haveReadable, ih]

@[simp] theorem isReadable_reread_ofString (text : String) :
    (ofString text).reread.isReadable = true := by
  simp [ofString, reread, isReadable]

theorem isReadable_ofInteger {n : Int} (least : -0x8000000000000000 ≤ n)
    (below : n < 0x10000000000000000) : (ofInteger n).isReadable = true := by
  rw [ofInteger, isReadable, numberOfNumeral?_decimal least below, Option.isSome_some]

theorem isReadable_reread_array {items : List Json} :
    (array items).reread.isReadable = true ↔ ∀ v ∈ items, v.reread.isReadable = true := by
  rw [reread, isReadable, areReadable_iff, rereadItems_eq_map, List.forall_mem_map]

theorem isReadable_reread_ofMembers {members : List (String × Json)} :
    (ofMembers members).reread.isReadable = true ↔
      ∀ m ∈ members, m.2.reread.isReadable = true := by
  rw [reread_ofMembers, isReadable, haveReadable_iff, List.forall_mem_map]
  simp

end Json

/-! ### Terms -/

namespace Term

theorem isReadable_reread_tagged (name : String) (content : Json) :
    (tagged name content).reread.isReadable = true ↔ content.reread.isReadable = true := by
  rw [tagged, Json.isReadable_reread_ofMembers, List.forall_mem_singleton]

theorem isReadable_toJson {t : Term} (h : ∀ x ∈ t.floats, x.ReadsBack) :
    t.toJson.reread.isReadable = true := by
  induction t using Term.ind with
  | null => exact Json.isReadable_reread_ofString "Null"
  | bool b => exact (isReadable_reread_tagged _ _).2 rfl
  | int n =>
    have hlow := n.le_toInt
    have hhigh := n.toInt_lt
    exact (isReadable_reread_tagged _ _).2 (Json.isReadable_ofInteger (by omega) (by omega))
  | uint n =>
    have hhigh := n.toNat_lt
    exact (isReadable_reread_tagged _ _).2 (Json.isReadable_ofInteger (by omega) (by omega))
  | float x =>
    have hx := h x (by simp [floats])
    rw [toJson, isReadable_reread_tagged, Json.reread_ofDouble, Json.ofDouble, if_pos hx.1]
    exact hx.isSome_numberOfNumeral?
  | str text | atom text =>
    exact (isReadable_reread_tagged _ _).2 (Json.isReadable_reread_ofString text)
  | list items ih | tuple items ih =>
    rw [toJson, isReadable_reread_tagged, Json.isReadable_reread_array, toJsonItems_eq_map,
      List.forall_mem_map]
    exact fun t ht => ih t ht fun x hx => h x (mem_floatsItems.2 ⟨t, ht, hx⟩)
  | map entries ih =>
    rw [toJson, isReadable_reread_tagged, Json.isReadable_reread_array, toJsonEntries_eq_map,
      List.forall_mem_map]
    intro e he
    have hvalue := ih e he fun x hx => h x (mem_floatsEntries.2 ⟨e, he, hx⟩)
    rw [entryJson, Json.isReadable_reread_array]
    simp [hvalue]

theorem survives (t : Term) : Json.Survives t.floats t.toJson (ofJsonText? t.jsonText) t := by
  refine .of_reread (numeralsOf_toJson t) ?_ ?_
  · intro hfloats hdepth
    rw [Json.depth_reread, if_pos hdepth, ofJson?_toJson hfloats]
  · rintro (⟨x, hx, hfinite⟩ | hdepth)
    · rw [ofJson?_toJson_eq_none hx hfinite, ite_self]
    · rw [Json.depth_reread, if_neg (not_le.2 hdepth)]

end Term

/-! ### Paths -/

/-- Every index of the path is a 64-bit word. -/
def Path.Fits (p : Path) : Prop := ∀ i, Segment.index i ∈ p → i < 0x10000000000000000

namespace Segment

theorem ofJson?_toJson {s : Segment} (h : ∀ i, s = index i → i < 0x10000000000000000) :
    ofJson? s.toJson.reread = some s := by
  cases s with
  | field name => simp [toJson, ofJson?]
  | index i =>
    have hi := h i rfl
    have hinteger : (Json.ofInteger i).asInteger? = some (i : Int) :=
      Json.asInteger?_ofInteger (by omega) (by omega)
    simp [toJson, ofJson?, hinteger]

end Segment

namespace Path

theorem ofJson?_toJson {p : Path} (hp : p.Fits) : ofJson? p.toJson.reread = some p := by
  rw [toJson, Json.reread, Json.rereadItems_eq_map, List.map_map, ofJson?]
  induction p with
  | nil => rfl
  | cons s p ih =>
    have hs : Segment.ofJson? s.toJson.reread = some s :=
      Segment.ofJson?_toJson fun i hi => hp i (by simp [hi])
    have hrest := ih fun i hi => hp i (List.mem_cons_of_mem s hi)
    simp [hs, hrest]

theorem numeralsOf_toJson (p : Path) : p.toJson.NumeralsOf [] := by
  intro numeral h
  rw [toJson, Json.number_mem_array] at h
  obtain ⟨_, hmem, hnumeral⟩ := h
  obtain ⟨s, -, rfl⟩ := List.mem_map.1 hmem
  cases s with
  | field name =>
    rw [Segment.toJson, Json.number_mem_ofMembers] at hnumeral
    simp [Json.ofString, Json.tokens] at hnumeral
  | index i =>
    rw [Segment.toJson, Json.number_mem_ofMembers] at hnumeral
    exact .inl ⟨i, by simpa [Json.ofInteger, Json.tokens] using hnumeral⟩

theorem depth_toJson (p : Path) : p.toJson.depth ≤ 2 := by
  have hitems : Json.depthItems (p.map Segment.toJson) ≤ 1 := by
    induction p with
    | nil => exact Nat.zero_le 1
    | cons s p ih =>
      cases s <;>
        simp [Segment.toJson, Json.depthItems, Json.ofMembers, Json.depth, Json.depthMembers,
          Json.ofString, Json.ofInteger, ih]
  rw [toJson, Json.depth]
  omega

theorem survives {p : Path} (hp : p.Fits) :
    Json.Survives [] p.toJson (ofJsonText? p.jsonText) p := by
  have hdepth : p.toJson.depth ≤ Json.depthLimit := le_trans (depth_toJson p) (by decide)
  refine .of_reread (numeralsOf_toJson p) ?_ ?_
  · intro _ _
    rw [Json.depth_reread, if_pos hdepth, ofJson?_toJson hp]
  · rintro (⟨x, hx, -⟩ | hdeep)
    · cases hx
    · omega

end Path

/-! ### Faults -/

namespace Fault

/-- The floats in a fault. -/
def floats : Fault → List Double
  | wrongType value _ _ | constraintNotSatisfied _ value | conversionFailed _ value _ =>
    value.floats
  | missingField _ | superfluousFields _ => []

theorem numeralsOf_toJson (f : Fault) : f.toJson.NumeralsOf f.floats := by
  intro numeral h
  rw [toJson, Json.number_mem_ofMembers] at h
  have hstring (text : String) : Json.Token.number numeral ∉ (Json.ofString text).tokens := by
    simp [Json.ofString, Json.tokens]
  cases f with
  | missingField field => simp [parts, hstring] at h
  | superfluousFields fields => simp [parts, hstring, Json.number_mem_array] at h
  | wrongType value _ _ | constraintNotSatisfied _ value | conversionFailed _ value _ =>
    have hvalue : Json.Token.number numeral ∈ value.toJson.tokens := by
      simpa [parts, hstring] using h
    exact value.numeralsOf_toJson numeral hvalue

theorem isReadable_toJson {f : Fault} (h : ∀ x ∈ f.floats, x.ReadsBack) :
    f.toJson.reread.isReadable = true := by
  rw [toJson, Json.isReadable_reread_ofMembers]
  cases f with
  | missingField field => simp [parts]
  | superfluousFields fields => simp [parts, Json.isReadable_reread_array]
  | wrongType value _ _ | constraintNotSatisfied _ value | conversionFailed _ value _ =>
    have hvalue : value.toJson.reread.isReadable = true := value.isReadable_toJson h
    simp [parts, hvalue]

theorem texts?_ofStrings (texts : List String) :
    texts? (Json.array (texts.map Json.ofString)).reread = some texts := by
  rw [Json.reread, Json.rereadItems_eq_map, texts?]
  induction texts with
  | nil => rfl
  | cons text texts ih =>
    simp only [List.map_cons, List.mapM_cons, Json.asString?_reread_ofString, ih]
    rfl

/-- The parts of a fault are found by their names. -/
theorem ofJson?_eq_ofParts? {f : Fault} (h : f.toJson.reread.isReadable = true) :
    ofJson? f.toJson.reread = ofParts? f.name (f.parts.map fun part => part.2.reread) := by
  rw [toJson, Json.reread_ofMembers] at h ⊢
  rw [ofJson?, if_pos h]
  simp only [Json.named?_reread]
  cases f <;> simp [parts, name, Json.unique?, Json.parts?, partNames?]

theorem ofJson?_toJson {f : Fault} (h : ∀ x ∈ f.floats, x.ReadsBack) :
    ofJson? f.toJson.reread = some f := by
  rw [ofJson?_eq_ofParts? (isReadable_toJson h)]
  cases f with
  | missingField field => simp [parts, name, ofParts?]
  | superfluousFields fields => simp [parts, name, ofParts?, texts?_ofStrings]
  | wrongType value actual expected =>
    have hvalue : Term.ofJson? .lenient value.toJson.reread = some value := Term.ofJson?_toJson h
    simp [parts, name, ofParts?, hvalue, Kind.ofJson?]
  | constraintNotSatisfied description value =>
    have hvalue : Term.ofJson? .lenient value.toJson.reread = some value := Term.ofJson?_toJson h
    simp [parts, name, ofParts?, hvalue]
  | conversionFailed description value reason =>
    have hvalue : Term.ofJson? .lenient value.toJson.reread = some value := Term.ofJson?_toJson h
    simp [parts, name, ofParts?, hvalue]

theorem ofJson?_toJson_eq_none {f : Fault} {x : Double} (hx : x ∈ f.floats)
    (hfinite : x.isFinite = false) : ofJson? f.toJson.reread = none := by
  cases hreadable : f.toJson.reread.isReadable with
  | false => simp [ofJson?, hreadable]
  | true =>
    rw [ofJson?_eq_ofParts? hreadable]
    cases f with
    | missingField _ | superfluousFields _ => cases hx
    | wrongType value _ _ | constraintNotSatisfied _ value | conversionFailed _ value _ =>
      have hvalue : Term.ofJson? .lenient value.toJson.reread = none :=
        Term.ofJson?_toJson_eq_none hx hfinite
      simp [parts, name, ofParts?, hvalue]

end Fault

/-! ### Mismatches -/

namespace Mismatch

/-- The floats in a mismatch. -/
def floats (m : Mismatch) : List Double := m.fault.floats

theorem numeralsOf_toJson (m : Mismatch) : m.toJson.NumeralsOf m.floats := by
  intro numeral h
  rw [toJson, Json.number_mem_ofMembers] at h
  obtain ⟨part, hpart, hnumeral⟩ := h
  simp only [List.mem_cons, List.not_mem_nil, or_false] at hpart
  rcases hpart with rfl | rfl
  · rcases m.path.numeralsOf_toJson numeral hnumeral with hn | ⟨x, hx, -⟩
    · exact .inl hn
    · cases hx
  · exact m.fault.numeralsOf_toJson numeral hnumeral

theorem ofJson?_eq_ofParts? (m : Mismatch) :
    ofJson? m.toJson.reread = ofParts? m.path.toJson.reread m.fault.toJson.reread := by
  rw [toJson, Json.reread_ofMembers, ofJson?]
  simp only [Json.named?_reread]
  simp [Json.unique?]

theorem depth_toJson (m : Mismatch) :
    m.toJson.depth = max m.path.toJson.depth m.fault.toJson.depth + 1 := by
  simp [toJson, Json.ofMembers, Json.depth, Json.depthMembers]

theorem survives {m : Mismatch} (hm : m.path.Fits) :
    Json.Survives m.floats m.toJson (ofJsonText? m.jsonText) m := by
  refine .of_reread m.numeralsOf_toJson ?_ ?_
  · intro hfloats hdepth
    have hparts : m.path.toJson.depth < Json.depthLimit ∧
        m.fault.toJson.depth < Json.depthLimit := by
      rw [depth_toJson] at hdepth
      omega
    rw [ofJson?_eq_ofParts?, ofParts?, Json.depth_reread, Json.depth_reread, if_pos hparts,
      Path.ofJson?_toJson hm, Fault.ofJson?_toJson hfloats]
    rfl
  · intro hbad
    rw [ofJson?_eq_ofParts?, ofParts?, Json.depth_reread, Json.depth_reread]
    split
    next hparts =>
      rcases hbad with ⟨x, hx, hfinite⟩ | hdepth
      · rw [Fault.ofJson?_toJson_eq_none hx hfinite, Path.ofJson?_toJson hm]
        rfl
      · rw [depth_toJson] at hdepth
        omega
    next => rfl

end Mismatch

/-- Mismatches, terms and paths survive being written as JSON text and read again. -/
theorem json_survives {m : Mismatch} (hm : m.path.Fits) (t : Term) {p : Path} (hp : p.Fits) :
    Json.Survives m.floats m.toJson (Mismatch.ofJsonText? m.jsonText) m ∧
      Json.Survives t.floats t.toJson (Term.ofJsonText? t.jsonText) t ∧
      Json.Survives [] p.toJson (Path.ofJsonText? p.jsonText) p :=
  ⟨Mismatch.survives hm, t.survives, Path.survives hp⟩

/-- A mismatch with a repeated key, a small unsigned integer, a control character and a float is
read back, and so is a path on its own; a term with a NaN in it is not. -/
theorem json_survives_of_repeated_key :
    let m : Mismatch := ⟨[.field "a", .index 2], .wrongType
      (.map [("k", .uint 5), ("k", .tuple [.atom "\x01", .float ⟨0x3ff8000000000000⟩])])
      .object "list"⟩
    let t : Term := .list [.null, .float Double.nan]
    m.path.Fits ∧ Mismatch.ofJsonText? m.jsonText = some m ∧
      Term.ofJsonText? t.jsonText = none ∧ Path.ofJsonText? m.path.jsonText = some m.path := by
  intro m t
  have hfits : m.path.Fits := by simp [m, Path.Fits]
  have hdoubles : ∀ x ∈ m.floats, x.ReadsBack := by decide +kernel
  have hnan : ∃ x ∈ t.floats, x.isFinite = false := ⟨Double.nan, by decide, by decide⟩
  obtain ⟨hmismatch, hterm, hpath⟩ := json_survives hfits t hfits
  exact ⟨hfits, hmismatch.read_back hdoubles (by decide), hterm.rejected (.inl hnan),
    hpath.read_back nofun (by decide)⟩

end Conform
