import Conform.Document.Basic
import Conform.Proofs.Canonical.Doors
import Conform.Proofs.Json.Reading
import Conform.Proofs.Term.Parts
import Mathlib.Data.List.Basic

/-!
# The native form of a document

`Document.toTerm` loses nothing, and what it yields is in normal form.

* `Term.Plain` is the normal form at one node: no atom and no tuple, `uint` only above the signed
  range, finite floats, and maps in ascending order.
* `Document.nodes_toTerm`: the nodes of the native form are the native forms of the nodes, so a
  document and its native form are the same tree.
* `Term.toDocument?` reads a term in normal form back; `Term.toDocument?_eq_some_iff` says that it
  is the inverse of `Document.toTerm`.
* `Document.ordered_of_ofJson?`: the documents that are read are ordered, which is what it takes for
  their maps to ascend.
-/

namespace Conform

namespace Term

/-- The term is, at its root, in the normal form of native forms of documents. -/
def Plain : Term → Prop
  | atom _ | tuple _ => False
  | uint n => 0x7fffffffffffffff < n.toNat
  | float x => x.isFinite = true
  | map entries => Table.Ascending entries
  | _ => True

end Term

/-! ### Numbers -/

namespace Number

theorem toTerm_of_lt {n : Int} (least : -0x8000000000000000 ≤ n) (below : n < 0x10000000000000000)
    (h : n < 0x8000000000000000) :
    (integer n least below).toTerm = .int (Int64.ofInt n) ∧ (Int64.ofInt n).toInt = n :=
  ⟨by rw [toTerm_integer, if_pos h], Int64.toInt_ofInt_of_le least h⟩

theorem toTerm_of_le {n : Int} (least : -0x8000000000000000 ≤ n) (below : n < 0x10000000000000000)
    (h : 0x8000000000000000 ≤ n) :
    (integer n least below).toTerm = .uint (UInt64.ofNat n.toNat) ∧
      (UInt64.ofNat n.toNat).toNat = n.toNat :=
  have hword : n.toNat < 0x10000000000000000 := by omega
  ⟨by rw [toTerm_integer, if_neg (Int.not_lt.2 h)], UInt64.toNat_ofNat_of_lt' hword⟩

/-- The term of a number is an `int`, a `uint` above the signed range, or a finite float. -/
theorem plain_toTerm (n : Number) : n.toTerm.Plain := by
  cases n with
  | integer n least below =>
    by_cases h : n < 0x8000000000000000
    · rw [(toTerm_of_lt least below h).1]
      exact trivial
    · obtain ⟨hterm, hword⟩ := toTerm_of_le least below (Int.not_lt.1 h)
      rw [hterm, Term.Plain, hword]
      omega
  | float x hx => exact hx

theorem nodes_toTerm (n : Number) : n.toTerm.nodes = [n.toTerm] := by
  cases n with
  | integer n _ _ => rw [toTerm_integer]; split <;> rfl
  | float => rfl

/-- The number of a term in normal form. -/
def ofTerm? : Term → Option Number
  | .int n => ofInt? n.toInt
  | .uint n => if 0x7fffffffffffffff < n.toNat then ofInt? n.toNat else none
  | .float x => ofDouble? x
  | _ => none

theorem ofInt?_of_le {n : Int} (least : -0x8000000000000000 ≤ n) (below : n < 0x10000000000000000) :
    ofInt? n = some (integer n least below) := by
  rw [ofInt?, dif_pos least, dif_pos below]

/-- The number of a term is the one that has this term. -/
theorem ofTerm?_eq_some_iff {t : Term} {n : Number} : ofTerm? t = some n ↔ n.toTerm = t := by
  constructor
  · intro h
    cases t with
    | int m =>
      have hhigh := m.toInt_lt
      rw [ofTerm?, ofInt?_of_le m.le_toInt (by omega)] at h
      rw [← Option.some.inj h, (toTerm_of_lt _ _ hhigh).1, Int64.ofInt_toInt]
    | uint m =>
      have hhigh := m.toNat_lt
      rw [ofTerm?] at h
      split at h
      · rename_i hlarge
        rw [ofInt?_of_le (by omega) (by omega)] at h
        rw [← Option.some.inj h, (toTerm_of_le _ _ (by omega)).1, Int.toNat_natCast,
          UInt64.ofNat_toNat]
      · cases h
    | float x =>
      rw [ofTerm?, ofDouble?] at h
      split at h
      · rw [← Option.some.inj h]
        rfl
      · cases h
    | _ => cases h
  · rintro rfl
    cases n with
    | integer n least below =>
      by_cases h : n < 0x8000000000000000
      · obtain ⟨hterm, hword⟩ := toTerm_of_lt least below h
        rw [hterm, ofTerm?, hword, ofInt?_of_le least below]
      · obtain ⟨hterm, hword⟩ := toTerm_of_le least below (Int.not_lt.1 h)
        have hnat : (n.toNat : Int) = n := Int.toNat_of_nonneg (by omega)
        rw [hterm, ofTerm?, hword, if_pos (by omega), hnat, ofInt?_of_le least below]
    | float x finite => exact dif_pos finite

end Number

namespace Document

mutual

/-- The documents in a document, each of them before those in it. -/
def nodes : Document → List Document
  | array items => array items :: nodesItems items
  | object members => object members :: nodesMembers members
  | d => [d]

/-- The documents in the elements of an array. -/
def nodesItems : List Document → List Document
  | [] => []
  | d :: ds => d.nodes ++ nodesItems ds

/-- The documents in the contents of the members of an object. -/
def nodesMembers : List (String × Document) → List Document
  | [] => []
  | (_, d) :: ms => d.nodes ++ nodesMembers ms

end

theorem nodesItems_eq_flatMap (items : List Document) : nodesItems items = items.flatMap nodes := by
  induction items with
  | nil => rfl
  | cons d ds ih => rw [nodesItems, ih, List.flatMap_cons]

theorem nodesMembers_eq_flatMap (members : List (String × Document)) :
    nodesMembers members = members.flatMap fun m => m.2.nodes := by
  induction members with
  | nil => rfl
  | cons m ms ih => rw [nodesMembers, ih, List.flatMap_cons]

/-- Induction on documents; the documents in a container are given by membership. -/
@[elab_as_elim]
theorem ind {motive : Document → Prop} (null : motive null) (bool : ∀ b, motive (bool b))
    (number : ∀ n, motive (number n)) (string : ∀ text, motive (string text))
    (array : ∀ items, (∀ d ∈ items, motive d) → motive (array items))
    (object : ∀ members, (∀ m ∈ members, motive m.2) → motive (object members)) (d : Document) :
    motive d := by
  refine @Document.rec motive (fun items => ∀ d ∈ items, motive d)
    (fun members => ∀ m ∈ members, motive m.2) (fun m => motive m.2)
    null bool number string array object ?_ ?_ ?_ ?_ (fun _ _ ih => ih) d
  · intro d hd
    cases hd
  · intro d ds ih ihs e he
    rcases List.mem_cons.1 he with rfl | he
    · exact ih
    · exact ihs e he
  · intro m hm
    cases hm
  · intro m ms ih ihs n hn
    rcases List.mem_cons.1 hn with rfl | hn
    · exact ih
    · exact ihs n hn

/-- **The native form of a document is the same tree.** -/
theorem nodes_toTerm (d : Document) : d.toTerm.nodes = d.nodes.map toTerm := by
  induction d using Document.ind with
  | null | bool | string => rfl
  | number n => exact n.nodes_toTerm
  | array items ih =>
    rw [nodes, List.map_cons, toTerm, Term.nodes, toTermItems_eq_map, Term.nodesItems_eq_flatMap,
      nodesItems_eq_flatMap, List.flatMap_map, List.map_flatMap]
    exact congrArg (List.cons _) (List.flatMap_congr ih)
  | object members ih =>
    rw [nodes, List.map_cons, toTerm, Term.nodes, toTermMembers_eq_map,
      Term.nodesEntries_eq_flatMap, nodesMembers_eq_flatMap, List.flatMap_map, List.map_flatMap]
    exact congrArg (List.cons _) (List.flatMap_congr ih)

/-! ### The normal form -/

theorem orderedItems_iff {items : List Document} :
    OrderedItems items ↔ ∀ d ∈ items, d.Ordered := by
  induction items with
  | nil => simp [OrderedItems]
  | cons d ds ih => rw [OrderedItems, ih, List.forall_mem_cons]

theorem orderedMembers_iff {members : List (String × Document)} :
    OrderedMembers members ↔ ∀ m ∈ members, m.2.Ordered := by
  induction members with
  | nil => simp [OrderedMembers]
  | cons m ms ih => rw [OrderedMembers, ih, List.forall_mem_cons]

/-- **The native form is in normal form exactly if the objects are tables.** -/
theorem plain_toTerm_iff (d : Document) : (∀ t ∈ d.toTerm.nodes, t.Plain) ↔ d.Ordered := by
  rw [nodes_toTerm, List.forall_mem_map]
  induction d using Document.ind with
  | null | bool | string => simp [nodes, toTerm, Term.Plain, Ordered]
  | number n => simp [nodes, toTerm, n.plain_toTerm, Ordered]
  | array items ih =>
    rw [nodes, List.forall_mem_cons, nodesItems_eq_flatMap, List.forall_mem_flatMap, Ordered,
      orderedItems_iff, toTerm]
    exact (and_iff_right trivial).trans (forall₂_congr ih)
  | object members ih =>
    have hascending : (object members).toTerm.Plain ↔ Table.Ascending members := by
      rw [toTerm, toTermMembers_eq_map]
      exact List.pairwise_map
    rw [nodes, List.forall_mem_cons, nodesMembers_eq_flatMap, List.forall_mem_flatMap, Ordered,
      orderedMembers_iff, hascending]
    exact and_congr_right fun _ => forall₂_congr ih

theorem ofJsonItems?_eq_mapM (vs : List Json) : ofJsonItems? vs = vs.mapM ofJson? := by
  induction vs with
  | nil => rfl
  | cons v vs ih =>
    rw [ofJsonItems?, ih, List.mapM_cons]
    cases ofJson? v <;> cases vs.mapM ofJson? <;> rfl

/-- The member of an object that is read of a member as written. -/
def ofJsonMember? (m : List Json.Piece × Json) : Option (String × Document) :=
  (Json.text? m.1).bind fun name => (ofJson? m.2).map (name, ·)

theorem ofJsonMembers?_eq_mapM (ms : List (List Json.Piece × Json)) :
    ofJsonMembers? ms = ms.mapM ofJsonMember? := by
  induction ms with
  | nil => rfl
  | cons m ms ih =>
    obtain ⟨pieces, v⟩ := m
    rw [ofJsonMembers?, ih, List.mapM_cons, ofJsonMember?]
    cases Json.text? pieces <;> cases ofJson? v <;> cases ms.mapM ofJsonMember? <;> rfl

/-- The documents that are read are ordered. -/
theorem ordered_of_ofJson? {v : Json} {d : Document} (h : ofJson? v = some d) : d.Ordered := by
  induction v using Json.ind generalizing d with
  | null | bool => cases h; exact trivial
  | number | string =>
    obtain ⟨_, _, rfl⟩ := Option.map_eq_some_iff.1 h
    exact trivial
  | array vs ih =>
    obtain ⟨items, hitems, rfl⟩ := Option.map_eq_some_iff.1 h
    rw [ofJsonItems?_eq_mapM] at hitems
    refine orderedItems_iff.2 fun e he => ?_
    obtain ⟨w, hw, hwe⟩ := exists_of_mapM_eq_some hitems he
    exact ih w hw hwe
  | object ms ih =>
    obtain ⟨members, hmembers, rfl⟩ := Option.map_eq_some_iff.1 h
    rw [ofJsonMembers?_eq_mapM] at hmembers
    refine ⟨Table.ascending_ofList members, orderedMembers_iff.2 fun e he => ?_⟩
    have hofList : Table.ofList members = Table.firsts members.reverse := List.foldr_reverse.symm
    rw [hofList] at he
    -- what is in the table was read of some member as written
    obtain ⟨m, hm, hme⟩ := exists_of_mapM_eq_some hmembers
      (List.mem_reverse.1 (Table.mem_of_mem_firsts he))
    obtain ⟨_, _, hcontent⟩ := Option.bind_eq_some_iff.1 hme
    obtain ⟨_, hdocument, rfl⟩ := Option.map_eq_some_iff.1 hcontent
    exact ih m hm hdocument

theorem ordered_of_ofJsonText? {text : List Char} {d : Document} (h : ofJsonText? text = some d) :
    d.Ordered := by
  obtain ⟨v, _, hv⟩ := Option.bind_eq_some_iff.1 h
  split at hv
  · exact ordered_of_ofJson? hv
  · cases hv

end Document

/-! ### The way back -/

namespace Term

mutual

/-- The document with the given native form, if there is one. -/
def toDocument? : Term → Option Document
  | null => some .null
  | bool b => some (.bool b)
  | str text => some (.string text)
  | list items => (toDocumentItems? items).map .array
  | map entries => (toDocumentMembers? entries).map .object
  | t => (Number.ofTerm? t).map .number

/-- The documents with the native forms in a list. -/
def toDocumentItems? : List Term → Option (List Document)
  | [] => some []
  | t :: ts => t.toDocument?.bind fun d => (toDocumentItems? ts).map (d :: ·)

/-- The members with the native forms in a map. -/
def toDocumentMembers? : List (String × Term) → Option (List (String × Document))
  | [] => some []
  | (name, t) :: es => t.toDocument?.bind fun d => (toDocumentMembers? es).map ((name, d) :: ·)

end

theorem toDocumentItems?_toTermItems {ds : List Document}
    (h : ∀ d ∈ ds, d.toTerm.toDocument? = some d) :
    toDocumentItems? (Document.toTermItems ds) = some ds := by
  induction ds with
  | nil => rfl
  | cons d ds ih =>
    obtain ⟨hd, hds⟩ := List.forall_mem_cons.1 h
    rw [Document.toTermItems, toDocumentItems?, hd, Option.bind_some, ih hds, Option.map_some]

theorem toDocumentMembers?_toTermMembers {ms : List (String × Document)}
    (h : ∀ m ∈ ms, m.2.toTerm.toDocument? = some m.2) :
    toDocumentMembers? (Document.toTermMembers ms) = some ms := by
  induction ms with
  | nil => rfl
  | cons m ms ih =>
    obtain ⟨hm, hms⟩ := List.forall_mem_cons.1 h
    rw [Document.toTermMembers, toDocumentMembers?, hm, Option.bind_some, ih hms, Option.map_some]

theorem toDocument?_number (n : Number) :
    n.toTerm.toDocument? = (Number.ofTerm? n.toTerm).map .number := by
  cases n with
  | integer n _ _ => rw [Number.toTerm_integer]; split <;> rfl
  | float => rfl

/-- The document comes back from its native form. -/
theorem toDocument?_toTerm (d : Document) : d.toTerm.toDocument? = some d := by
  induction d using Document.ind with
  | null | bool | string => rfl
  | number n =>
    have hnumber : Number.ofTerm? n.toTerm = some n := Number.ofTerm?_eq_some_iff.2 rfl
    rw [Document.toTerm, toDocument?_number, hnumber, Option.map_some]
  | array items ih =>
    rw [Document.toTerm, toDocument?, toDocumentItems?_toTermItems ih, Option.map_some]
  | object members ih =>
    rw [Document.toTerm, toDocument?, toDocumentMembers?_toTermMembers ih, Option.map_some]

theorem toTermItems_of_toDocumentItems? {items : List Term} {ds : List Document}
    (h : ∀ t ∈ items, ∀ {d : Document}, t.toDocument? = some d → d.toTerm = t)
    (hread : toDocumentItems? items = some ds) : Document.toTermItems ds = items := by
  induction items generalizing ds with
  | nil => cases hread; rfl
  | cons t ts ih =>
    obtain ⟨ht, hts⟩ := List.forall_mem_cons.1 h
    obtain ⟨d, hd, hrest⟩ := Option.bind_eq_some_iff.1 hread
    obtain ⟨ds, hds, rfl⟩ := Option.map_eq_some_iff.1 hrest
    rw [Document.toTermItems, ht hd, ih hts hds]

theorem toTermMembers_of_toDocumentMembers? {entries : List (String × Term)}
    {ms : List (String × Document)}
    (h : ∀ e ∈ entries, ∀ {d : Document}, e.2.toDocument? = some d → d.toTerm = e.2)
    (hread : toDocumentMembers? entries = some ms) : Document.toTermMembers ms = entries := by
  induction entries generalizing ms with
  | nil => cases hread; rfl
  | cons e es ih =>
    obtain ⟨he, hes⟩ := List.forall_mem_cons.1 h
    obtain ⟨d, hd, hrest⟩ := Option.bind_eq_some_iff.1 hread
    obtain ⟨ms, hms, rfl⟩ := Option.map_eq_some_iff.1 hrest
    rw [Document.toTermMembers, he hd, ih hes hms]

/-- What comes back from a term has this term as its native form. -/
theorem toTerm_of_toDocument? {t : Term} {d : Document} (h : t.toDocument? = some d) :
    d.toTerm = t := by
  induction t using Term.ind generalizing d with
  | null | bool | str => cases h; rfl
  | atom | tuple => cases h
  | int | uint | float =>
    obtain ⟨n, hn, rfl⟩ := Option.map_eq_some_iff.1 h
    exact Number.ofTerm?_eq_some_iff.1 hn
  | list items ih =>
    obtain ⟨ds, hds, rfl⟩ := Option.map_eq_some_iff.1 h
    rw [Document.toTerm, toTermItems_of_toDocumentItems? ih hds]
  | map entries ih =>
    obtain ⟨ms, hms, rfl⟩ := Option.map_eq_some_iff.1 h
    rw [Document.toTerm, toTermMembers_of_toDocumentMembers? ih hms]

/-- **The way back is the inverse.** -/
theorem toDocument?_eq_some_iff {t : Term} {d : Document} :
    t.toDocument? = some d ↔ d.toTerm = t := by
  refine ⟨toTerm_of_toDocument?, ?_⟩
  rintro rfl
  exact toDocument?_toTerm d

end Term

namespace Document

/-- An array becomes a list, and every other document keeps its kind. -/
theorem kind_toTerm_eq (d : Document) :
    d.toTerm.kind = if d.kind = .array then .list else d.kind := by
  rcases d.kind_toTerm with hsame | ⟨harray, hlist⟩
  · have hne : d.kind ≠ .array := by
      rw [← hsame]
      cases d.toTerm <;> exact nofun
    rw [if_neg hne, hsame]
  · rw [if_pos harray, hlist]

/-- **The conversion of documents to terms.**  The native form of a document is the same tree, with
the same kinds except that arrays are lists.  It is in normal form exactly if the document is
ordered, and every document that is read is.  No other document has the same native form: the way
back from it leads to the document. -/
theorem conversion_lossless (d : Document) :
    d.toTerm.nodes = d.nodes.map toTerm ∧
      (∀ e ∈ d.nodes, e.toTerm.kind = if e.kind = .array then .list else e.kind) ∧
      ((∀ t ∈ d.toTerm.nodes, t.Plain) ↔ d.Ordered) ∧
      (∀ text, ofJsonText? text = some d → d.Ordered) ∧
      (∀ t : Term, t.toDocument? = some d ↔ t = d.toTerm) ∧
      ∀ e : Document, e.toTerm = d.toTerm → e = d := by
  refine ⟨d.nodes_toTerm, fun e _ => e.kind_toTerm_eq, d.plain_toTerm_iff,
    fun _ => ordered_of_ofJsonText?, fun t => ?_, fun e he => ?_⟩
  · rw [Term.toDocument?_eq_some_iff, eq_comm]
  · have hback := Term.toDocument?_toTerm e
    rw [he, Term.toDocument?_toTerm] at hback
    exact (Option.some.inj hback).symm

end Document

end Conform
