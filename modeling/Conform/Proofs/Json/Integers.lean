import Conform.Canonical
import Conform.Mismatch.Json
import Conform.Proofs.Document.Native
import Conform.Proofs.Json.RoundTrip
import Conform.Proofs.Term.Integers

/-!
# Integers from outside

The terms of unsigned words and of documents are narrow.  The JSON form of a term, however, may name
any integer of the unsigned range `UInt`, and a reader takes it at its word.

* `Json.unsigned` lists the integers that a JSON value names so.
* `Term.unsigned_of_ofJson?`: the term that is read of a value has just these as its `uint`s.
* `Fault.unsigned_of_ofJson?`: the value that a fault shows has none but these.
-/

namespace Conform

namespace Json

mutual

/-- The integers in the value that are the contents of a member `UInt`, at any depth. -/
def unsigned : Json → List Int
  | array items => unsignedItems items
  | object members => unsignedMembers members
  | _ => []

/-- The integers named so in the elements of an array. -/
def unsignedItems : List Json → List Int
  | [] => []
  | v :: vs => v.unsigned ++ unsignedItems vs

/-- The integers named so in the members of an object, or by them. -/
def unsignedMembers : List (List Piece × Json) → List Int
  | [] => []
  | (pieces, v) :: ms =>
    (if text? pieces = some "UInt" then v.asInteger?.toList else []) ++ v.unsigned
      ++ unsignedMembers ms

end

theorem unsigned_subset_items {v : Json} {items : List Json} (h : v ∈ items) :
    v.unsigned ⊆ unsignedItems items := by
  induction items with
  | nil => cases h
  | cons w ws ih =>
    rw [unsignedItems]
    rcases List.mem_cons.1 h with rfl | h
    · exact List.subset_append_left _ _
    · exact List.subset_append_of_subset_right _ (ih h)

theorem unsigned_subset_members {m : List Piece × Json} {members : List (List Piece × Json)}
    (h : m ∈ members) : m.2.unsigned ⊆ unsignedMembers members := by
  induction members with
  | nil => cases h
  | cons n ns ih =>
    obtain ⟨pieces, w⟩ := n
    rw [unsignedMembers]
    rcases List.mem_cons.1 h with rfl | h
    · exact List.subset_append_of_subset_left _ (List.subset_append_right _ _)
    · exact List.subset_append_of_subset_right _ (ih h)

theorem asInteger?_lt {v : Json} {n : Int} (h : v.asInteger? = some n) :
    n < 0x10000000000000000 := by
  rw [asInteger?] at h
  split at h
  · rename_i below _
    rw [← Option.some.inj h]
    exact below
  · cases h

/-- The value is none that contains others. -/
def IsLeaf (v : Json) : Prop := (∀ items, v ≠ array items) ∧ ∀ m ms, v ≠ object (m :: ms)

theorem IsLeaf.unsigned_eq_nil {v : Json} (h : v.IsLeaf) : v.unsigned = [] := by
  cases v with
  | array items => exact absurd rfl (h.1 items)
  | object members =>
    cases members with
    | nil => rfl
    | cons m ms => exact absurd rfl (h.2 m ms)
  | _ => rfl

theorem isLeaf_of_isUnit {leniency : Leniency} {v : Json} (h : isUnit leniency v = true) :
    v.IsLeaf := by
  cases v with
  | null => exact ⟨nofun, nofun⟩
  | object members =>
    cases members with
    | nil => exact ⟨nofun, nofun⟩
    | cons => cases h
  | _ => cases h

theorem isLeaf_of_asBool? {v : Json} {b : Bool} (h : v.asBool? = some b) : v.IsLeaf := by
  cases v with
  | bool => exact ⟨nofun, nofun⟩
  | _ => cases h

theorem isLeaf_of_asString? {v : Json} {text : String} (h : v.asString? = some text) :
    v.IsLeaf := by
  cases v with
  | string => exact ⟨nofun, nofun⟩
  | _ => cases h

theorem isLeaf_of_asInteger? {v : Json} {n : Int} (h : v.asInteger? = some n) : v.IsLeaf := by
  cases v with
  | number => exact ⟨nofun, nofun⟩
  | _ => cases h

theorem isLeaf_of_asDouble? {v : Json} {x : Double} (h : v.asDouble? = some x) : v.IsLeaf := by
  cases v with
  | number => exact ⟨nofun, nofun⟩
  | _ => cases h

end Json

/-! ### Terms -/

namespace Term

variable {leniency : Json.Leniency}

/-- The contents of a leaf are one, and what they make is a `uint` exactly under that name. -/
theorem of_ofLeaf? {name : String} {content : Json} {t : Term}
    (h : ofLeaf? leniency name content = some t) :
    content.IsLeaf ∧
      t.unsigned = if name = "UInt" then content.asInteger?.toList else [] := by
  rw [ofLeaf?] at h
  by_cases huint : name = "UInt"
  · subst huint
    simp only [String.reduceEq, if_false, if_true] at h
    obtain ⟨n, hn, ht⟩ := Option.bind_eq_some_iff.1 h
    split at ht
    next hnonneg =>
      have hword : n.toNat < 0x10000000000000000 := by
        have hbelow := Json.asInteger?_lt hn
        omega
      have hvalue : ((UInt64.ofNat n.toNat).toNat : Int) = n := by
        rw [UInt64.toNat_ofNat_of_lt' hword]
        exact Int.toNat_of_nonneg hnonneg
      rw [if_pos rfl, hn, ← Option.some.inj ht]
      exact ⟨Json.isLeaf_of_asInteger? hn, congrArg (· :: []) hvalue⟩
    next => cases ht
  · rw [if_neg huint] at h ⊢
    split_ifs at h with hnull hunit
    · cases h
      exact ⟨Json.isLeaf_of_isUnit hunit, rfl⟩
    · obtain ⟨_, hcontent, rfl⟩ := Option.map_eq_some_iff.1 h
      exact ⟨Json.isLeaf_of_asBool? hcontent, rfl⟩
    · obtain ⟨_, hcontent, h⟩ := Option.bind_eq_some_iff.1 h
      split at h <;> cases h
      exact ⟨Json.isLeaf_of_asInteger? hcontent, rfl⟩
    · obtain ⟨_, hcontent, rfl⟩ := Option.map_eq_some_iff.1 h
      exact ⟨Json.isLeaf_of_asDouble? hcontent, rfl⟩
    · obtain ⟨_, hcontent, rfl⟩ := Option.map_eq_some_iff.1 h
      exact ⟨Json.isLeaf_of_asString? hcontent, rfl⟩
    · obtain ⟨_, hcontent, rfl⟩ := Option.map_eq_some_iff.1 h
      exact ⟨Json.isLeaf_of_asString? hcontent, rfl⟩

/-- **The term that is read of a value has the integers as `uint`s that the value names so.** -/
theorem unsigned_of_ofJson? {v : Json} {t : Term} (h : ofJson? leniency v = some t) :
    t.unsigned = v.unsigned := by
  suffices hall : (∀ v t, ofJson? leniency v = some t → t.unsigned = v.unsigned) ∧
      (∀ vs es, ofJsonEntries? leniency vs = some es →
        (es.flatMap fun e => e.2.unsigned) = Json.unsignedItems vs) ∧
      ∀ vs ts, ofJsonItems? leniency vs = some ts →
        ts.flatMap unsigned = Json.unsignedItems vs from hall.1 v t h
  refine ofJson?.mutual_induct _ _ _ ?_ ?_ ?_ ?_ ?_ ?_ ?_ ?_ ?_ ?_
  · intro pieces hname t h
    rw [ofJson?, if_pos hname] at h
    cases h
    rfl
  · intro pieces hname t h
    rw [ofJson?, if_neg hname] at h
    cases h
  · intro pieces items ihitems ihentries t h
    rw [ofJson?] at h
    obtain ⟨name, hname, h⟩ := Option.bind_eq_some_iff.1 h
    -- an array is no integer, whatever it is the contents of
    have hnone : (Json.array items).asInteger? = none := rfl
    rw [Json.unsigned, Json.unsignedMembers, Json.unsignedMembers, hnone, Json.unsigned]
    simp only [Option.toList_none, ite_self, List.nil_append, List.append_nil]
    split_ifs at h
    · obtain ⟨ts, hts, rfl⟩ := Option.map_eq_some_iff.1 h
      rw [unsigned_list, ihitems ts hts]
    · obtain ⟨ts, hts, rfl⟩ := Option.map_eq_some_iff.1 h
      rw [unsigned_tuple, ihitems ts hts]
    · obtain ⟨es, hes, rfl⟩ := Option.map_eq_some_iff.1 h
      rw [unsigned_map, ihentries es hes]
  · intro pieces content hcontent t h
    rw [ofJson?.eq_3 _ _ _ hcontent] at h
    obtain ⟨name, hname, hleaf⟩ := Option.bind_eq_some_iff.1 h
    obtain ⟨hcontents, hunsigned⟩ := of_ofLeaf? hleaf
    rw [hunsigned, Json.unsigned, Json.unsignedMembers, Json.unsignedMembers,
      hcontents.unsigned_eq_nil, List.append_nil, List.append_nil, hname]
    simp only [Option.some.injEq]
  · intro v hstring hcontainer hleaf t h
    rw [ofJson?.eq_4 _ _ hstring hcontainer hleaf] at h
    cases h
  · intro es h
    cases h
    rfl
  · intro key v rest ih ihrest es h
    obtain ⟨name, hname, h⟩ := Option.bind_eq_some_iff.1 h
    obtain ⟨t, ht, hrest⟩ := Option.bind_eq_some_iff.1 h
    obtain ⟨es, hes, rfl⟩ := Option.map_eq_some_iff.1 hrest
    rw [List.flatMap_cons, ih t ht, ihrest es hes, Json.unsignedItems, Json.unsigned,
      Json.unsignedItems, Json.unsignedItems, Json.unsignedItems,
      (Json.isLeaf_of_asString? hname).unsigned_eq_nil, List.nil_append, List.append_nil]
  · intro vs hnil hcons es h
    rw [ofJsonEntries?.eq_3 _ _ hnil hcons] at h
    cases h
  · intro ts h
    cases h
    rfl
  · intro v vs ih ihs ts h
    obtain ⟨t, ht, hrest⟩ := Option.bind_eq_some_iff.1 h
    obtain ⟨ts, hts, rfl⟩ := Option.map_eq_some_iff.1 hrest
    rw [List.flatMap_cons, ih t ht, ihs ts hts, Json.unsignedItems]

end Term

/-! ### Mismatches -/

namespace Json

theorem mem_of_named? {members : List (List Piece × Json)} {named : List (String × Json)}
    (h : named? members = some named) {name : String} {v : Json} (hv : (name, v) ∈ named) :
    ∃ pieces, (pieces, v) ∈ members := by
  obtain ⟨m, hm, hnamed⟩ := exists_of_mapM_eq_some h hv
  obtain ⟨_, _, heq⟩ := Option.map_eq_some_iff.1 hnamed
  have hcontents : m.2 = v := congrArg Prod.snd heq
  exact ⟨m.1, hcontents ▸ hm⟩

theorem mem_of_unique? {members : List (String × Json)} {name : String} {v : Json}
    (h : unique? members name = some v) : (name, v) ∈ members := by
  rw [unique?] at h
  split at h
  next m hm =>
    have hmem : m ∈ members.filter fun m => m.1 == name := hm ▸ List.mem_singleton_self m
    obtain ⟨hmem, hname⟩ := List.mem_filter.1 hmem
    rw [← Option.some.inj h, ← beq_iff_eq.1 hname]
    exact hmem
  next => cases h

/-- What a member names, the object it is found in names too. -/
theorem unsigned_subset_of_unique? {members : List (List Piece × Json)}
    {named : List (String × Json)} (hnamed : named? members = some named) {name : String} {v : Json}
    (hv : unique? named name = some v) : v.unsigned ⊆ (object members).unsigned := by
  obtain ⟨_, hmem⟩ := mem_of_named? hnamed (mem_of_unique? hv)
  exact unsigned_subset_members hmem

end Json

namespace Fault

/-- The value that a fault shows. -/
def value? : Fault → Option Term
  | wrongType value .. | constraintNotSatisfied _ value | conversionFailed _ value _ => some value
  | _ => none

/-- The value that a fault shows is read of one of its parts. -/
theorem exists_of_ofParts? {name : String} {parts : List Json} {f : Fault}
    (h : ofParts? name parts = some f) {t : Term} (ht : f.value? = some t) :
    ∃ v ∈ parts, Term.ofJson? .lenient v = some t := by
  unfold ofParts? at h
  split at h
  next field =>
    split_ifs at h
    all_goals
      obtain ⟨_, _, rfl⟩ := Option.map_eq_some_iff.1 h
      cases ht
  next description value =>
    split_ifs at h
    obtain ⟨_, _, h⟩ := Option.bind_eq_some_iff.1 h
    obtain ⟨_, hvalue, h⟩ := Option.bind_eq_some_iff.1 h
    cases h
    cases ht
    exact ⟨value, by simp, hvalue⟩
  next first second third =>
    split_ifs at h
    · obtain ⟨_, hvalue, h⟩ := Option.bind_eq_some_iff.1 h
      obtain ⟨_, _, h⟩ := Option.bind_eq_some_iff.1 h
      obtain ⟨_, _, h⟩ := Option.bind_eq_some_iff.1 h
      cases h
      cases ht
      exact ⟨first, by simp, hvalue⟩
    · obtain ⟨_, _, h⟩ := Option.bind_eq_some_iff.1 h
      obtain ⟨_, hvalue, h⟩ := Option.bind_eq_some_iff.1 h
      obtain ⟨_, _, h⟩ := Option.bind_eq_some_iff.1 h
      cases h
      cases ht
      exact ⟨second, by simp, hvalue⟩
  next => cases h

/-- The value that a fault shows has no `uint`s but those named in what the fault is read of. -/
theorem unsigned_of_ofJson? {v : Json} {f : Fault} (h : ofJson? v = some f) {t : Term}
    (ht : f.value? = some t) : t.unsigned ⊆ v.unsigned := by
  unfold ofJson? at h
  split_ifs at h
  split at h
  next members =>
    obtain ⟨named, hnamed, h⟩ := Option.bind_eq_some_iff.1 h
    obtain ⟨_, _, h⟩ := Option.bind_eq_some_iff.1 h
    obtain ⟨name, _, h⟩ := Option.bind_eq_some_iff.1 h
    obtain ⟨names, _, h⟩ := Option.bind_eq_some_iff.1 h
    obtain ⟨parts, hparts, h⟩ := Option.bind_eq_some_iff.1 h
    obtain ⟨w, hw, hread⟩ := exists_of_ofParts? h ht
    obtain ⟨_, _, hunique⟩ := exists_of_mapM_eq_some hparts hw
    rw [Term.unsigned_of_ofJson? hread]
    exact Json.unsigned_subset_of_unique? hnamed hunique
  next =>
    obtain ⟨name, _, h⟩ := Option.bind_eq_some_iff.1 h
    obtain ⟨w, hw, hread⟩ := exists_of_ofParts? h ht
    rw [Term.unsigned_of_ofJson? hread]
    exact Json.unsigned_subset_items (List.mem_cons_of_mem _ hw)
  next => cases h

end Fault

namespace Mismatch

theorem ofJson?_of_ofParts? {path fault : Json} {m : Mismatch} (h : ofParts? path fault = some m) :
    Fault.ofJson? fault = some m.fault := by
  rw [ofParts?] at h
  split_ifs at h
  obtain ⟨_, _, h⟩ := Option.bind_eq_some_iff.1 h
  obtain ⟨_, hfault, h⟩ := Option.bind_eq_some_iff.1 h
  cases h
  exact hfault

theorem unsigned_of_ofJson? {v : Json} {m : Mismatch} (h : ofJson? v = some m) {t : Term}
    (ht : m.fault.value? = some t) : t.unsigned ⊆ v.unsigned := by
  unfold ofJson? at h
  split at h
  next members =>
    obtain ⟨named, hnamed, h⟩ := Option.bind_eq_some_iff.1 h
    obtain ⟨path, _, h⟩ := Option.bind_eq_some_iff.1 h
    obtain ⟨fault, hfault, h⟩ := Option.bind_eq_some_iff.1 h
    exact List.Subset.trans (Fault.unsigned_of_ofJson? (ofJson?_of_ofParts? h) ht)
      (Json.unsigned_subset_of_unique? hnamed hfault)
  next path fault =>
    exact List.Subset.trans (Fault.unsigned_of_ofJson? (ofJson?_of_ofParts? h) ht)
      (Json.unsigned_subset_items (by simp))
  next => cases h

end Mismatch

/-! ### Where integers come from -/

/-- The native form of a document is narrow. -/
theorem Document.narrow_toTerm (d : Document) : d.toTerm.Narrow := by
  intro n hn
  rw [d.nodes_toTerm] at hn
  obtain ⟨e, _, he⟩ := List.mem_map.1 hn
  cases e with
  | number m =>
    have hplain := m.plain_toTerm
    rw [Document.toTerm] at he
    rwa [he] at hplain
  | _ => cases he

/-- **Integers from outside.**  The terms of unsigned words and of documents are narrow.  A term
that is read of a text is narrow exactly if every integer that the text names `UInt` is above the
signed range, and then the value of a mismatch that is read of the text is narrow, too.  Among
narrow terms, those of one integer are equal, and neither equality nor a choice of literals would go
another way if all integers were as they should be. -/
theorem integers_from_outside (word : UInt64) (d : Document) (text : List Char) :
    ((Term.ofUInt64 word).Narrow ∧ (Term.ofUInt64 word).integer? = some (word.toNat : Int)) ∧
      d.toTerm.Narrow ∧
      (∀ t, Term.ofJsonText? text = some t →
        ∃ v, Json.parse? text = some v ∧
          (t.Narrow ↔ ∀ n ∈ v.unsigned, 0x7fffffffffffffff < n)) ∧
      (∀ m t, Mismatch.ofJsonText? text = some m → m.fault.value? = some t →
        ∃ v, Json.parse? text = some v ∧
          ((∀ n ∈ v.unsigned, 0x7fffffffffffffff < n) → t.Narrow)) ∧
      (∀ (t u : Term) n, t.Narrow → u.Narrow → t.integer? = some n → u.integer? = some n →
        t = u ∧ t.same u = true) ∧
      (∀ t u : Term, t.Narrow → u.Narrow → t.same u = t.narrowed.same u.narrowed) ∧
      ∀ (defs : Definitions) bound literals v p, v.toTerm.Narrow → (∀ u ∈ literals, u.Narrow) →
        (∃ u ∈ literals, u.narrowed.same v.toTerm.narrowed = true) →
        ∃ u ∈ literals, defs.matching bound (.member literals) v p = .ok u := by
  refine ⟨Term.narrow_ofUInt64 word, d.narrow_toTerm, ?_, ?_, ?_, ?_, ?_⟩
  · intro t h
    obtain ⟨v, hv, h⟩ := Option.bind_eq_some_iff.1 h
    split_ifs at h
    exact ⟨v, hv, by rw [Term.narrow_iff_unsigned, Term.unsigned_of_ofJson? h]⟩
  · intro m t h ht
    obtain ⟨v, hv, h⟩ := Option.bind_eq_some_iff.1 h
    have hsubset := Mismatch.unsigned_of_ofJson? h ht
    exact ⟨v, hv, fun hall => Term.narrow_iff_unsigned.2 fun n hn => hall n (hsubset hn)⟩
  · intro t u n ht hu htn hun
    have heq : t = u := Term.eq_of_integer? ht hu htn hun
    exact ⟨heq, heq ▸ Term.same_self_of_integer? htn⟩
  · intro t u ht hu
    rw [(Term.narrowed_eq_self_iff t).2 ht, (Term.narrowed_eq_self_iff u).2 hu]
  · intro defs bound literals v p hv hliterals ⟨u, hu, hsame⟩
    rw [(Term.narrowed_eq_self_iff u).2 (hliterals u hu),
      (Term.narrowed_eq_self_iff _).2 hv] at hsame
    obtain ⟨w, hfind⟩ := Option.isSome_iff_exists.1
      (List.find?_isSome (p := fun literal => Term.same literal v.toTerm).2 ⟨u, hu, hsame⟩)
    refine ⟨w, List.mem_of_find?_eq_some hfind, ?_⟩
    rw [Definitions.matching, Spec.canonical, hfind]

/-- A list with integers of both ranges is read as a narrow term, and a choice finds the greater one
behind the smaller. -/
theorem integers_from_outside_of_both_ranges :
    let t := Term.list [.uint 9223372036854775808, .int 5]
    let literals := [Term.int 5, .uint 9223372036854775808]
    Term.ofJsonText? t.jsonText = some t ∧ t.Narrow ∧
      ∃ u ∈ literals, Definitions.matching [] 0 (.member literals)
        (.native (.uint 9223372036854775808)) [] = .ok u := by
  intro t literals
  obtain ⟨-, -, hread, -, -, -, hmember⟩ := integers_from_outside 0 .null t.jsonText
  have hterm : Term.ofJsonText? t.jsonText = some t := t.survives.read_back nofun (by decide)
  obtain ⟨v, hv, hnarrow⟩ := hread t hterm
  have hunsigned : (Json.parse? t.jsonText).map Json.unsigned = some [9223372036854775808] := by
    decide +kernel
  rw [hv, Option.map_some, Option.some.injEq] at hunsigned
  have habove : (Term.uint 9223372036854775808).Narrow := Term.narrow_uint.2 (by decide)
  have hliterals : ∀ u ∈ literals, u.Narrow := by
    simp [literals, Term.Narrow, Term.nodes]
  exact ⟨hterm, hnarrow.2 (by simp [hunsigned]), hmember [] 0 literals _ [] habove hliterals
    ⟨.uint 9223372036854775808, by simp [literals], by decide⟩⟩

/-- A small integer that is named `UInt` is not put right. -/
theorem integers_from_outside_of_small_unsigned :
    Term.ofJsonText? "\x7b\"UInt\":5\x7d".toList = some (.uint 5) ∧ ¬ (Term.uint 5).Narrow ∧
      (Term.uint 5).integer? = (Term.int 5).integer? ∧
      (Term.uint 5).same (.int 5) = false := by
  have htext : "\x7b\"UInt\":5\x7d".toList = (Term.uint 5).jsonText := by decide +kernel
  have hread : Term.ofJsonText? (Term.uint 5).jsonText = some (.uint 5) :=
    (Term.uint 5).survives.read_back nofun (by decide)
  refine ⟨htext ▸ hread, ?_, rfl, rfl⟩
  rw [Term.narrow_uint]
  decide

end Conform
