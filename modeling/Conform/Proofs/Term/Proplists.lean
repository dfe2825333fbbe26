import Conform.Proofs.Outcome
import Conform.Value

/-!
# Proplists

A proplist is a list of pairs, the key of each being an atom or a string.  A match recognises it in
two steps, one for the pairs and one for the entries.

* `asProplist?_eq_some_iff`: the pairs put back into a list are the term again.
* `proplist?_eq_some_iff`: the entries show the pairs one by one, each under the text of its key.
* `exists_entries_iff`: where the first step succeeds, the second does too.
-/

namespace Conform

/-! ### Pairs -/

namespace Term

/-- The term is an atom or a string of the text. -/
def Spells (key : Term) (text : String) : Prop := key = atom text ∨ key = str text

theorem keyName?_eq_some_iff {key : Term} {text : String} :
    key.keyName? = some text ↔ key.Spells text := by
  cases key <;> simp [keyName?, Spells]

theorem keyed?_eq_some_iff {item : Term} {pair : Term × Term} :
    item.keyed? = some pair ↔
      item = tuple [pair.1, pair.2] ∧ ∃ text, pair.1.Spells text := by
  constructor
  · intro h
    unfold keyed? at h
    split at h
    · obtain ⟨text, htext, rfl⟩ := Option.map_eq_some_iff.1 h
      exact ⟨rfl, text, keyName?_eq_some_iff.1 htext⟩
    · cases h
  · rintro ⟨rfl, text, htext⟩
    rw [keyed?, keyName?_eq_some_iff.2 htext, Option.map_some]

/-- **A proplist is the list of its pairs.** -/
theorem asProplist?_eq_some_iff {t : Term} {pairs : List (Term × Term)} :
    t.asProplist? = some pairs ↔
      t = list (pairs.map fun p => tuple [p.1, p.2]) ∧ ∀ p ∈ pairs, ∃ text, p.1.Spells text := by
  cases t with
  | list items =>
    rw [asProplist?, Term.list.injEq]
    exact mapM_eq_some_iff_eq_map fun _ _ => keyed?_eq_some_iff
  | _ => exact ⟨nofun, nofun⟩

/-- A term is a proplist exactly if it is a list of pairs with keys. -/
theorem exists_asProplist?_iff {t : Term} :
    (∃ pairs, t.asProplist? = some pairs) ↔
      ∃ items, t = list items ∧
        ∀ item ∈ items, ∃ key value text, item = tuple [key, value] ∧ key.Spells text := by
  cases t with
  | list items =>
    have hitem : ∀ item : Term, (∃ pair, item.keyed? = some pair) ↔
        ∃ key value text, item = tuple [key, value] ∧ key.Spells text := by
      intro item
      simp only [keyed?_eq_some_iff, Prod.exists, exists_and_left]
    simp only [asProplist?, exists_mapM_eq_some_iff, hitem, Term.list.injEq, exists_eq_left']
  | _ => exact ⟨nofun, nofun⟩

/-- A proplist that is built from names has an atom for each of them. -/
theorem asProplist?_proplist (pairs : List (String × Term)) :
    (proplist pairs).asProplist? = some (pairs.map fun p => (atom p.1, p.2)) := by
  refine asProplist?_eq_some_iff.2 ⟨?_, fun p hp => ?_⟩
  · rw [proplist, List.map_map]
    rfl
  · obtain ⟨x, _, rfl⟩ := List.mem_map.1 hp
    exact ⟨x.1, Or.inl rfl⟩

end Term

/-! ### Entries -/

/-- The entry shows a pair: it has the key and the value of it, and the text of the key is its
name. -/
structure Entry.Shows (e : Entry) (pair : Term × Term) : Prop where
  key : e.key = pair.1
  value : e.value = .native pair.2
  name : pair.1.Spells e.name

theorem Entry.Shows.pair_eq {e : Entry} {pair : Term × Term} (h : e.Shows pair) :
    e.pair = .tuple [pair.1, pair.2] := by
  rw [Entry.pair, h.key, h.value]
  rfl

namespace Value

theorem entryOf?_eq_some_iff {pair : Term × Term} {e : Entry} :
    entryOf? pair = some e ↔ e.Shows pair := by
  rw [entryOf?, Option.map_eq_some_iff]
  constructor
  · rintro ⟨name, hname, rfl⟩
    exact ⟨rfl, rfl, Term.keyName?_eq_some_iff.1 hname⟩
  · rintro ⟨hkey, hvalue, hname⟩
    refine ⟨e.name, Term.keyName?_eq_some_iff.2 hname, ?_⟩
    rw [← hkey, ← hvalue]

section Native

variable {t : Term} {entries : List Entry}

/-- **The entries of a proplist show its pairs, in order.** -/
theorem proplist?_eq_some_iff :
    (native t).proplist? = some entries ↔
      ∃ pairs, t.asProplist? = some pairs ∧ List.Forall₂ (fun p e => e.Shows p) pairs entries := by
  rw [proplist?, Option.bind_eq_some_iff]
  simp only [mapM_eq_some_iff, entryOf?_eq_some_iff]

/-- Every pair of a proplist makes an entry, so no view is lost on the way. -/
theorem exists_entries_iff :
    (∃ entries, (native t).proplist? = some entries) ↔ ∃ pairs, t.asProplist? = some pairs := by
  constructor
  · rintro ⟨entries, h⟩
    obtain ⟨pairs, hpairs, -⟩ := proplist?_eq_some_iff.1 h
    exact ⟨pairs, hpairs⟩
  · rintro ⟨pairs, hpairs⟩
    have hentry : ∀ p ∈ pairs, ∃ e, entryOf? p = some e := by
      intro p hp
      obtain ⟨text, htext⟩ := (Term.asProplist?_eq_some_iff.1 hpairs).2 p hp
      exact ⟨⟨text, p.1, native p.2⟩, entryOf?_eq_some_iff.2 ⟨rfl, rfl, htext⟩⟩
    obtain ⟨entries, hentries⟩ := exists_mapM_eq_some_iff.2 hentry
    exact ⟨entries, Option.bind_eq_some_iff.2 ⟨pairs, hpairs, hentries⟩⟩

/-- A proplist is the list of its entries, key and value side by side. -/
theorem eq_list_of_proplist? (h : (native t).proplist? = some entries) :
    t = .list (entries.map Entry.pair) := by
  obtain ⟨pairs, hpairs, hshows⟩ := proplist?_eq_some_iff.1 h
  rw [(Term.asProplist?_eq_some_iff.1 hpairs).1]
  refine congrArg Term.list ?_
  rw [← List.forall₂_eq_eq_eq, List.forall₂_map_left_iff, List.forall₂_map_right_iff]
  exact hshows.imp fun _ _ he => he.pair_eq.symm

end Native

/-- **The views of a proplist agree and lose nothing.**  The pairs of a term are there exactly if it
is a list of pairs with keys, and they are what the list holds.  Then and only then its entries are
there, one for each element, with the key and the value of it and under the text of the key.  A
proplist is a sequence of as many elements, and no mapping.  And the proplist of some names and
values has these values under atoms of these names. -/
theorem proplist_views_agree (t : Term) :
    ((∃ pairs, t.asProplist? = some pairs) ↔
        ∃ items, t = .list items ∧
          ∀ item ∈ items, ∃ key value text, item = .tuple [key, value] ∧ key.Spells text) ∧
      (∀ pairs, t.asProplist? = some pairs ↔
        t = .list (pairs.map fun p => .tuple [p.1, p.2]) ∧
          ∀ p ∈ pairs, ∃ text, p.1.Spells text) ∧
      ((∃ entries, (native t).proplist? = some entries) ↔
        ∃ pairs, t.asProplist? = some pairs) ∧
      (∀ entries, (native t).proplist? = some entries ↔
        ∃ pairs, t.asProplist? = some pairs ∧
          List.Forall₂ (fun p e => Entry.Shows e p) pairs entries) ∧
      (∀ entries, (native t).proplist? = some entries →
        (∃ items, (native t).elements? = some items ∧ items.length = entries.length ∧
          items = entries.map fun e => native e.pair) ∧
        (native t).mapping? = none) ∧
      ∀ pairs : List (String × Term),
        (Term.proplist pairs).asProplist? = some (pairs.map fun p => (.atom p.1, p.2)) := by
  refine ⟨Term.exists_asProplist?_iff, fun _ => Term.asProplist?_eq_some_iff, exists_entries_iff,
    fun _ => proplist?_eq_some_iff, fun entries h => ?_, Term.asProplist?_proplist⟩
  rw [eq_list_of_proplist? h]
  refine ⟨⟨_, rfl, ?_, ?_⟩, rfl⟩
  · rw [List.length_map, List.length_map]
  · rw [List.map_map]
    rfl

/-- A key comes in both forms, and a value is a list that is no proplist. -/
theorem proplist_views_agree_of_both_key_forms :
    let t := Term.list [.tuple [.atom "a", .list [.int 1]], .tuple [.str "a", .null]]
    let entries : List Entry :=
      [⟨"a", .atom "a", .native (.list [.int 1])⟩, ⟨"a", .str "a", .native .null⟩]
    (native t).proplist? = some entries ∧
      (∃ items, (native t).elements? = some items ∧ items.length = entries.length ∧
        items = entries.map fun e => native e.pair) ∧
      (native t).mapping? = none ∧ (native (.list [.int 1])).proplist? = none := by
  intro t entries
  have hentries : (native t).proplist? = some entries := rfl
  obtain ⟨-, -, -, -, hviews, -⟩ := proplist_views_agree t
  obtain ⟨helements, hmapping⟩ := hviews entries hentries
  exact ⟨hentries, helements, hmapping, rfl⟩

end Value

end Conform
