import Conform.Proofs.Settings.Trees

/-!
# Why trees of settings are refused

A tree that is not accepted is refused for one fault, the first one in the order in which the tree
is read, a key before its value.  `FirstFault` says so of the value of a setting and `Refused` of a
tree, without the conversion: what stands before the fault is as it should be, and what stands there
is not.

* `toDocument_eq_error_iff` and `settings_eq_error_iff`: conversions fail with exactly this fault.
* `FirstNonFinite` and `FirstNonFiniteSetting`: the place that is reported when a number is not
  finite, from the value and from the tree, by `firstFault_notFinite_iff` and
  `refused_notFinite_iff`.
-/

namespace Conform

namespace Yaml

/-! ### Values -/

/-- The first thing that stands in the way of a document for a tree, at a path below its setting. -/
inductive FirstFault (ns key : String) : Path → Yaml → LoadFault → Prop
  | notFinite {p : Path} {x : Double} : x.isFinite = false →
    FirstFault ns key p (float x) (.notFinite ns key p x)
  | element {p : Path} {before after : List Yaml} {y : Yaml} {fault : LoadFault} :
    (∀ z ∈ before, z.Convertible) → FirstFault ns key (p.index before.length) y fault →
    FirstFault ns key p (sequence (before ++ y :: after)) fault
  | name {p : Path} {before after : List (Yaml × Yaml)} {k y : Yaml} :
    (∀ m ∈ before, m.1.IsKey ∧ m.2.Convertible) → ¬ k.IsKey →
    FirstFault ns key p (mapping (before ++ (k, y) :: after))
      (.unsupportedKey (.setting ns key p) k)
  | member {p : Path} {before after : List (Yaml × Yaml)} {k y : Yaml} {name : String}
    {fault : LoadFault} : (∀ m ∈ before, m.1.IsKey ∧ m.2.Convertible) → k.keyText? = some name →
    FirstFault ns key (p.field name) y fault →
    FirstFault ns key p (mapping (before ++ (k, y) :: after)) fault
  | tagged {p : Path} {tag : String} {y : Yaml} {fault : LoadFault} :
    FirstFault ns key p y fault → FirstFault ns key p (tagged tag y) fault

variable {ns key : String}

theorem toMember_eq_error_iff {p : Path} {m : Yaml × Yaml} {fault : LoadFault}
    (h : ∀ q, toDocument ns key q m.2 = .error fault ↔ FirstFault ns key q m.2 fault) :
    toMember ns key p m = .error fault ↔
      ¬ m.1.IsKey ∧ fault = .unsupportedKey (.setting ns key p) m.1 ∨
        ∃ name, m.1.keyText? = some name ∧ FirstFault ns key (p.field name) m.2 fault := by
  rw [toMember, keyAt_bind_eq_error_iff]
  simp only [map_eq_error_iff, h]

/-- **A conversion fails with the first thing that stands in its way.** -/
theorem toDocument_eq_error_iff {fault : LoadFault} (y : Yaml) : ∀ {p : Path},
    toDocument ns key p y = .error fault ↔ FirstFault ns key p y fault := by
  induction y using Yaml.ind with
  | null | bool | integer | string =>
    refine fun {p} => ⟨fun h => (nomatch h), fun h => ?_⟩
    cases h
  | float x =>
    intro p
    rw [toDocument_float]
    constructor
    · intro h
      split at h
      · cases h
      · rename_i hx
        cases h
        exact .notFinite (Bool.eq_false_iff.2 hx)
    · intro h
      cases h with
      | notFinite hx => rw [dif_neg (by simp [hx])]
  | sequence items ih =>
    intro p
    rw [toDocument_sequence, map_eq_error_iff, mapM_zipIdx_eq_error_iff]
    have hsiblings : ∀ before : List Yaml,
        (∀ x ∈ before.zipIdx, ∃ d, toDocument ns key (p.index x.2) x.1 = .ok d) ↔
          ∀ z ∈ before, z.Convertible :=
      fun before => Iff.trans (forall₂_congr fun x _ => exists_toDocument_iff x.1 _)
        forall_mem_zipIdx_iff
    constructor
    · rintro ⟨before, y, after, rfl, hbefore, hy⟩
      exact .element ((hsiblings before).1 hbefore) ((ih y (by simp)).1 hy)
    · intro h
      cases h with
      | @element _ before after y _ hbefore hy =>
        exact ⟨before, y, after, rfl, (hsiblings before).2 hbefore, (ih y (by simp)).2 hy⟩
  | mapping members ih =>
    intro p
    rw [toDocument_mapping, map_eq_error_iff, mapM_eq_error_iff]
    have hsiblings : ∀ before : List (Yaml × Yaml),
        (∀ m ∈ before, ∃ e, toMember ns key p m = .ok e) ↔
          ∀ m ∈ before, m.1.IsKey ∧ m.2.Convertible :=
      fun before => forall₂_congr fun m _ => exists_toMember_iff (exists_toDocument_iff m.2)
    constructor
    · rintro ⟨before, ⟨k, y⟩, after, rfl, hbefore, hy⟩
      have hfront := (hsiblings before).1 hbefore
      rw [toMember_eq_error_iff fun q => ih (k, y) (by simp)] at hy
      rcases hy with ⟨hk, rfl⟩ | ⟨name, hname, hy⟩
      · exact .name hfront hk
      · exact .member hfront hname hy
    · intro h
      cases h with
      | @name _ before after k y hfront hk =>
        refine ⟨before, (k, y), after, rfl, (hsiblings before).2 hfront, ?_⟩
        exact (toMember_eq_error_iff fun q => ih (k, y) (by simp)).2 (Or.inl ⟨hk, rfl⟩)
      | @member _ before after k y name _ hfront hname hy =>
        refine ⟨before, (k, y), after, rfl, (hsiblings before).2 hfront, ?_⟩
        exact (toMember_eq_error_iff fun q => ih (k, y) (by simp)).2 (Or.inr ⟨name, hname, hy⟩)
  | tagged tag y ih =>
    intro p
    rw [toDocument, ih]
    constructor
    · exact .tagged
    · intro h
      cases h with
      | tagged h => exact h

/-- The path leads to a number that is not finite, and what the conversion meets before it can be
converted. -/
inductive FirstNonFinite : Yaml → Path → Double → Prop
  | here {x : Double} : x.isFinite = false → FirstNonFinite (float x) [] x
  | element {before after : List Yaml} {y : Yaml} {q : Path} {x : Double} :
    (∀ z ∈ before, z.Convertible) → FirstNonFinite y q x →
    FirstNonFinite (sequence (before ++ y :: after)) (.index before.length :: q) x
  | member {before after : List (Yaml × Yaml)} {k y : Yaml} {name : String} {q : Path}
    {x : Double} : (∀ m ∈ before, m.1.IsKey ∧ m.2.Convertible) → k.keyText? = some name →
    FirstNonFinite y q x →
    FirstNonFinite (mapping (before ++ (k, y) :: after)) (.field name :: q) x
  | tagged {tag : String} {y : Yaml} {q : Path} {x : Double} : FirstNonFinite y q x →
    FirstNonFinite (tagged tag y) q x

/-- **The number that is reported** is the first thing that stands in the way of a document. -/
theorem firstFault_notFinite_iff {ns' key' : String} {p q : Path} {y : Yaml} {x : Double} :
    FirstFault ns key p y (.notFinite ns' key' q x) ↔
      ns' = ns ∧ key' = key ∧ ∃ r, q = p ++ r ∧ y.FirstNonFinite r x := by
  constructor
  · intro h
    generalize hfault : LoadFault.notFinite ns' key' q x = fault at h
    induction h with
    | notFinite hx =>
      cases hfault
      exact ⟨rfl, rfl, [], (List.append_nil _).symm, .here hx⟩
    | element hbefore _ ih =>
      obtain ⟨rfl, rfl, r, rfl, hr⟩ := ih hfault
      exact ⟨rfl, rfl, _, Path.child_append _ _ r, .element hbefore hr⟩
    | name => cases hfault
    | member hbefore hname _ ih =>
      obtain ⟨rfl, rfl, r, rfl, hr⟩ := ih hfault
      exact ⟨rfl, rfl, _, Path.child_append _ _ r, .member hbefore hname hr⟩
    | tagged _ ih =>
      obtain ⟨rfl, rfl, r, rfl, hr⟩ := ih hfault
      exact ⟨rfl, rfl, r, rfl, .tagged hr⟩
  · rintro ⟨rfl, rfl, r, rfl, hr⟩
    induction hr generalizing p with
    | here hx =>
      rw [List.append_nil]
      exact .notFinite hx
    | element hbefore _ ih =>
      rw [← Path.child_append]
      exact .element hbefore ih
    | member hbefore hname _ ih =>
      rw [← Path.child_append]
      exact .member hbefore hname ih
    | tagged _ ih => exact .tagged ih

/-! ### Trees -/

/-- The first thing that stands in the way of settings for the content of a namespace. -/
inductive RefusedWithin (ns : String) : Yaml → LoadFault → Prop
  | content {v : Yaml} : (∀ members, v ≠ mapping members) →
    RefusedWithin ns v (.namespaceContent ns)
  | key {before after : List (Yaml × Yaml)} {k v : Yaml} :
    (∀ m ∈ before, m.1.IsKey ∧ m.2.Convertible) → ¬ k.IsKey →
    RefusedWithin ns (mapping (before ++ (k, v) :: after)) (.unsupportedKey (.within ns) k)
  | value {before after : List (Yaml × Yaml)} {k v : Yaml} {key : String} {fault : LoadFault} :
    (∀ m ∈ before, m.1.IsKey ∧ m.2.Convertible) → k.keyText? = some key →
    FirstFault ns key Path.root v fault →
    RefusedWithin ns (mapping (before ++ (k, v) :: after)) fault

/-- The first thing that stands in the way of a load. -/
inductive Refused : Yaml → LoadFault → Prop
  | topLevel {tree : Yaml} : tree ≠ null → (∀ namespaces, tree ≠ mapping namespaces) →
    Refused tree .topLevel
  | key {before after : List (Yaml × Yaml)} {k v : Yaml} :
    (∀ m ∈ before, m.1.IsKey ∧ m.2.IsNamespace) → ¬ k.IsKey →
    Refused (mapping (before ++ (k, v) :: after)) (.unsupportedKey .top k)
  | within {before after : List (Yaml × Yaml)} {k v : Yaml} {ns : String} {fault : LoadFault} :
    (∀ m ∈ before, m.1.IsKey ∧ m.2.IsNamespace) → k.keyText? = some ns →
    RefusedWithin ns v fault → Refused (mapping (before ++ (k, v) :: after)) fault

theorem toSetting_eq_error_iff {m : Yaml × Yaml} {fault : LoadFault} :
    toSetting ns m = .error fault ↔
      ¬ m.1.IsKey ∧ fault = .unsupportedKey (.within ns) m.1 ∨
        ∃ key, m.1.keyText? = some key ∧ FirstFault ns key Path.root m.2 fault := by
  rw [toSetting, keyAt_bind_eq_error_iff]
  simp only [map_eq_error_iff, toDocument_eq_error_iff]

theorem toSettings_eq_error_iff {v : Yaml} {fault : LoadFault} :
    toSettings ns v = .error fault ↔ RefusedWithin ns v fault := by
  cases v with
  | mapping members =>
    rw [toSettings, mapM_eq_error_iff]
    simp only [exists_toSetting_iff, toSetting_eq_error_iff]
    constructor
    · rintro ⟨before, ⟨k, v⟩, after, rfl, hbefore, ⟨hk, rfl⟩ | ⟨key, hkey, hv⟩⟩
      · exact .key hbefore hk
      · exact .value hbefore hkey hv
    · intro h
      cases h with
      | content hmapping => exact absurd rfl (hmapping members)
      | key hbefore hk => exact ⟨_, _, _, rfl, hbefore, Or.inl ⟨hk, rfl⟩⟩
      | value hbefore hkey hv => exact ⟨_, _, _, rfl, hbefore, Or.inr ⟨_, hkey, hv⟩⟩
  | _ =>
    constructor
    · intro h
      cases h
      refine .content fun members hmapping => ?_
      cases hmapping
    · intro h
      cases h
      rfl

/-- **A tree that is no tree of settings is refused for the first thing that is not.** -/
theorem settings_eq_error_iff {tree : Yaml} {fault : LoadFault} :
    tree.settings = .error fault ↔ tree.Refused fault := by
  cases tree with
  | mapping namespaces =>
    rw [settings_mapping, map_eq_error_iff, mapM_eq_error_iff]
    simp only [exists_keyAt_bind_iff fun _ => exists_toSettings_iff, keyAt_bind_eq_error_iff,
      toSettings_eq_error_iff]
    constructor
    · rintro ⟨before, ⟨k, v⟩, after, rfl, hbefore, ⟨hk, rfl⟩ | ⟨ns, hns, hv⟩⟩
      · exact .key hbefore hk
      · exact .within hbefore hns hv
    · intro h
      cases h with
      | topLevel _ hmapping => exact absurd rfl (hmapping namespaces)
      | key hbefore hk => exact ⟨_, _, _, rfl, hbefore, Or.inl ⟨hk, rfl⟩⟩
      | within hbefore hns hv => exact ⟨_, _, _, rfl, hbefore, Or.inr ⟨_, hns, hv⟩⟩
  | null =>
    constructor
    · intro h
      cases h
    · intro h
      cases h with
      | topLevel hnull _ => exact absurd rfl hnull
  | _ =>
    constructor
    · intro h
      cases h
      refine .topLevel (fun hnull => ?_) fun namespaces hmapping => ?_
      · cases hnull
      · cases hmapping
    · intro h
      cases h
      rfl

theorem Refused.unique {tree : Yaml} {fault fault' : LoadFault} (h : tree.Refused fault)
    (h' : tree.Refused fault') : fault = fault' :=
  Except.error.inj ((settings_eq_error_iff.2 h).symm.trans (settings_eq_error_iff.2 h'))

/-- Trees are refused or accepted, and never both. -/
theorem loadable_iff_not_refused {tree : Yaml} : tree.Loadable ↔ ∀ fault, ¬ tree.Refused fault := by
  rw [← exists_settings_iff]
  simp only [← settings_eq_error_iff]
  cases tree.settings <;> simp

/-- A number that is not finite is the first thing that stands in the way of a load: the namespaces
before the one in which it stands are mappings of settings. -/
def FirstNonFiniteSetting (tree : Yaml) (ns key : String) (p : Path) (x : Double) : Prop :=
  ∃ before k members after, tree = mapping (before ++ (k, mapping members) :: after) ∧
    (∀ m ∈ before, m.1.IsKey ∧ m.2.IsNamespace) ∧ k.keyText? = some ns ∧
    (mapping members).FirstNonFinite (.field key :: p) x

theorem refusedWithin_notFinite_iff {ns' : String} {v : Yaml} {p : Path} {x : Double} :
    RefusedWithin ns v (.notFinite ns' key p x) ↔
      ns' = ns ∧ ∃ members, v = mapping members ∧
        (mapping members).FirstNonFinite (.field key :: p) x := by
  constructor
  · intro h
    cases h with
    | value hbefore hkey hv =>
      obtain ⟨rfl, rfl, _, rfl, hr⟩ := firstFault_notFinite_iff.1 hv
      exact ⟨rfl, _, rfl, .member hbefore hkey hr⟩
  · rintro ⟨rfl, members, rfl, h⟩
    cases h with
    | member hbefore hkey hr =>
      exact .value hbefore hkey (firstFault_notFinite_iff.2 ⟨rfl, rfl, p, rfl, hr⟩)

theorem refused_notFinite_iff {tree : Yaml} {p : Path} {x : Double} :
    tree.Refused (.notFinite ns key p x) ↔ tree.FirstNonFiniteSetting ns key p x := by
  constructor
  · intro h
    cases h with
    | within hbefore hns hv =>
      obtain ⟨rfl, members, rfl, hfirst⟩ := refusedWithin_notFinite_iff.1 hv
      exact ⟨_, _, members, _, rfl, hbefore, hns, hfirst⟩
  · rintro ⟨before, k, members, after, rfl, hbefore, hns, hfirst⟩
    exact .within hbefore hns (refusedWithin_notFinite_iff.2 ⟨rfl, members, rfl, hfirst⟩)

end Yaml

end Conform
