import Conform.Proofs.Settings.Flat

/-!
# Loading trees of settings

What a load makes of a store.  A tree is accepted if it is `Loadable`, and then every value that
counts under a pair of names is stored as the document that it denotes; `FirstNonFiniteSetting` is
the place that is reported when a number is not finite.  `load_tree` puts acceptance, what is
stored, and what is reported together.
-/

namespace Conform.Store

/-- A store after a load of the tree: under every pair of names for which the tree has a value
stands the one document that the value denotes, and under the others what stood there. -/
def HoldsTree (store' : Store) (tree : Yaml) (store : Store) : Prop :=
  tree.Overlays store'.get? store.get?

theorem holdsTree_merge (store : Store) {tree : Yaml} {ss : List Setting}
    (h : tree.settings = .ok ss) : (store.merge ss).HoldsTree tree store :=
  Yaml.overlays_of_settings h fun ns key => by rw [get?_merge, dlookup_entries]

/-- **Loading a tree.**  A tree is accepted exactly if it is loadable, and then the store holds it.
A number is reported exactly if it is the first thing in the way of the load, at the path that leads
to it. -/
theorem load_tree (store : Store) (tree : Yaml) :
    ((∃ n store', store.load (some tree) = .ok (n, store')) ↔ tree.Loadable) ∧
      (∀ n store', store.load (some tree) = .ok (n, store') →
        n = tree.leaves.length ∧ store'.HoldsTree tree store) ∧
      ∀ ns key p x, store.load (some tree) = .error (.notFinite ns key p x) ↔
        tree.FirstNonFiniteSetting ns key p x := by
  have hload : store.load (some tree) =
      tree.settings.map fun ss => (ss.length, store.merge ss) := rfl
  simp only [hload, map_eq_error_iff, Yaml.settings_eq_error_iff, Yaml.refused_notFinite_iff,
    implies_true, and_true]
  constructor
  · rw [← Yaml.exists_settings_iff]
    constructor
    · rintro ⟨n, store', h⟩
      obtain ⟨ss, hss, _⟩ := map_eq_ok_iff.1 h
      exact ⟨ss, hss⟩
    · rintro ⟨ss, hss⟩
      exact ⟨ss.length, store.merge ss, map_eq_ok_iff.2 ⟨ss, hss, rfl⟩⟩
  · intro n store' h
    obtain ⟨ss, hss, heq⟩ := map_eq_ok_iff.1 h
    obtain ⟨rfl, rfl⟩ := Prod.mk.inj heq
    exact ⟨(Yaml.yields_of_settings hss).length_eq.symm, holdsTree_merge store hss⟩

/-- Two namespaces of one text, keys of one text under a tag, and the greatest integer; and a tree
that is rejected at its second element, whose path is reported. -/
theorem load_tree_of_repeated_names :
    let seed : Yaml := .integer 0xffffffffffffffff (by decide) (by decide)
    let rates : Yaml := .sequence [seed, .tagged "!rate"
      (.mapping [(.bool true, .float (Double.zero true)), (.string "true", .null)])]
    let tree : Yaml := .mapping
      [(.integer 1 (by decide) (by decide), .mapping [(.string "rates", .string "old")]),
        (.string "1", .mapping [(.string "rates", rates)])]
    let content : Document :=
      .array [.number (.integer 0xffffffffffffffff (by decide) (by decide)),
        .object [("true", .null)]]
    let store : Store := { namespaces := [("1", [("rates", .document content)])] }
    let infinite : Yaml := .float (Double.infinity false)
    let rejected : Yaml := .mapping [(.string "limits", .mapping [(.string "ok", seed),
      (.string "rates", .sequence [rates, .mapping [(.string "burst", infinite)]])])]
    let fault : LoadFault :=
      .notFinite "limits" "rates" [.index 1, .field "burst"] (Double.infinity false)
    empty.load (some tree) = .ok (2, store) ∧ tree.Loadable ∧ store.HoldsTree tree empty ∧
      rates.Denotes content ∧ store.load (some rejected) = .error fault ∧
      rejected.FirstNonFiniteSetting "limits" "rates" [.index 1, .field "burst"]
        (Double.infinity false) ∧
      fault.message = "setting 'limits.rates[1].burst' is not a finite number: .inf".toList := by
  intro seed rates tree content store infinite rejected fault
  have hload : empty.load (some tree) = .ok (2, store) := by rfl
  have hrejected : store.load (some rejected) = .error fault := by rfl
  obtain ⟨haccepts, hloads, _⟩ := load_tree empty tree
  obtain ⟨_, hholds⟩ := hloads 2 store hload
  obtain ⟨d, hunique, hget⟩ := hholds.stored "1" "rates" rates (by rfl)
  have hcontent : store.get? "1" "rates" = some (.document content) := by rfl
  obtain rfl : content = d := Value.document.inj (Option.some.inj (hcontent.symm.trans hget))
  refine ⟨hload, haccepts.1 ⟨2, store, hload⟩, hholds, (hunique content).2 rfl, hrejected, ?_,
    by rfl⟩
  exact ((load_tree store rejected).2.2 _ _ _ _).1 hrejected

end Conform.Store
