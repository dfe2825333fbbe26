import Conform.Proofs.Canonical.Pipelines
import Conform.Proofs.Canonical.Relocation

/-!
# Failures of subvalues

A match comes to matches of other values: elements, entries, and what the stages of a pipeline
yield.  `Comes` says to which it does, how far below its own path, and that everything before them
has succeeded.  `Comes.matching_eq_error` says that the failure of such a match, found by itself
from its own root, is the failure of the whole once it is moved below the path: nothing but the path
is added on the way.
-/

namespace Conform

/-- A match of a value against a specification, with a bound for names, comes to one of another
value against another specification at a path below its own, and does not fail before. -/
inductive Definitions.Comes (defs : Definitions) :
    Nat → Spec → Value → Path → Nat → Spec → Value → Prop
  | here (bound : Nat) (s : Spec) (v : Value) : Comes defs bound s v [] bound s v
  /-- The elements in front of an element have matched. -/
  | element {bound n : Nat} {s element t : Spec} {v item w : Value} {before after : List Value}
    {q : Path} : s.element? = some element → v.elements? = some (before ++ item :: after) →
    (∀ u ∈ before, ∃ r, defs.matching bound element u Path.root = .ok r) →
    Comes defs bound element item q n t w →
    Comes defs bound s v (.index before.length :: q) n t w
  /-- The slots in front of a field can be filled. -/
  | field {bound n : Nat} {s spec t : Spec} {before after : List Field} {field : Field}
    {v u w : Value} {entries : List Entry} {key : String} {q : Path} :
    s.fields? = some (before ++ field :: after) → s.entries? v = some entries →
    (∀ f ∈ before, ∃ slot, f.slot (defs.refer bound) entries Path.root = .ok slot) →
    field.key? = some key → field.spec? = some spec → Entry.first? key entries = some u →
    Comes defs bound spec u q n t w → Comes defs bound s v (.field key :: q) n t w
  | first {bound n : Nat} {stage t : Spec} {stages : List Spec} {v w : Value} {q : Path} :
    Comes defs bound stage v q n t w → Comes defs bound (.pipeline (stage :: stages)) v q n t w
  /-- A later stage sees what the stages in front of it yield. -/
  | later {bound n : Nat} {stage t : Spec} {before after : List Spec} {v w : Value} {u : Term}
    {q : Path} : before ≠ [] → defs.matching bound (.pipeline before) v Path.root = .ok u →
    Comes defs bound stage (.native u) q n t w →
    Comes defs bound (.pipeline (before ++ stage :: after)) v q n t w
  | name {bound n : Nat} {name : String} {s t : Spec} {v w : Value} {q : Path} :
    defs.find? name = some s → Comes defs bound s v q n t w →
    Comes defs (bound + 1) (.named name) v q n t w

namespace Failure

theorem under_child (p : Path) (s : Segment) (q : Path) (f : Failure) :
    f.under (p.child s ++ q) = f.under (p ++ s :: q) := by
  rw [Path.child_append]

end Failure

/-- A row of elements fails with the first of them that does. -/
theorem Matcher.items_eq_error {m : Matcher} {p : Path} {before after : List Value} {item : Value}
    {f : Failure} (hbefore : ∀ u ∈ before, ∀ q, ∃ r, m u q = .ok r)
    (hitem : m item (p.index before.length) = .error f) :
    m.items p 0 (before ++ item :: after) = .error f := by
  rw [Matcher.items_eq_mapM, mapM_zipIdx_eq_error_iff]
  have hothers : ∀ x ∈ before.zipIdx, ∃ r, m x.1 (p.index x.2) = .ok r :=
    fun x hx => hbefore x.1 (List.fst_mem_of_mem_zipIdx hx) _
  exact ⟨before, item, after, rfl, hothers, hitem⟩

namespace Definitions

variable {defs : Definitions}

theorem matching_from_root (bound : Nat) (s : Spec) (v : Value) (p : Path) :
    defs.matching bound s v p = (defs.matching bound s v Path.root).mapError (Failure.under p) := by
  have h := defs.matching_under bound s v p Path.root
  rwa [Path.root, List.append_nil] at h

/-- **The failure of a subvalue is the failure of the whole**, moved below its path. -/
theorem Comes.matching_eq_error {bound n : Nat} {s t : Spec} {v w : Value} {q : Path}
    (h : defs.Comes bound s v q n t w) {g : Failure}
    (hg : defs.matching n t w Path.root = .error g) :
    ∀ p, defs.matching bound s v p = .error (g.under (p ++ q)) := by
  induction h with
  | here bound s v =>
    intro p
    rw [matching_from_root, hg, List.append_nil]
    rfl
  | @element bound n s element t v item w before after q hs hv hbefore _ ih =>
    intro p
    have hitem : defs.matching bound element item (p.index before.length) =
        .error (g.under (p ++ .index before.length :: q)) := by
      rw [ih hg, Path.index, Failure.under_child]
    have hothers : ∀ u ∈ before, ∀ q, ∃ r, defs.matching bound element u q = .ok r := by
      intro u hu q
      obtain ⟨r, hr⟩ := hbefore u hu
      exact ⟨r, matching_eq_ok_at hr q⟩
    rw [matching, Spec.canonical_of_element hs, hv]
    exact map_eq_error_iff.2 (Matcher.items_eq_error hothers hitem)
  | @field bound n s spec t before after field v u w entries key q hs hv hbefore hk hspec hu _ ih =>
    intro p
    have hfield : field.slot (defs.refer bound) entries p =
        .error (g.under (p ++ .field key :: q)) := by
      rw [Field.slot_of_first? hk hspec hu, map_eq_error_iff]
      have hvalue := ih hg (p.field key)
      rwa [Path.field, Failure.under_child] at hvalue
    have hothers : ∀ f ∈ before, ∃ slot, f.slot (defs.refer bound) entries p = .ok slot := by
      intro f hf
      obtain ⟨slot, hslot⟩ := hbefore f hf
      have hunder : f.slot (defs.refer bound) entries (p ++ Path.root) =
          (f.slot (defs.refer bound) entries Path.root).mapError (Failure.under p) :=
        Field.slot_under (fun spec _ => Spec.canonical_under (defs.refer_under bound) spec)
          entries p Path.root
      rw [Path.root, List.append_nil] at hunder
      exact ⟨slot, hunder.trans (mapError_eq_ok_iff.2 hslot)⟩
    rw [matching, Spec.canonical_of_entries hs hv]
    refine bind_eq_error_iff.2 (Or.inl ?_)
    exact mapM_eq_error_iff.2 ⟨before, field, after, rfl, hothers, hfield⟩
  | @first bound n stage t stages v w q _ ih =>
    intro p
    rw [matching, Spec.canonical_pipeline_cons]
    exact bind_eq_error_iff.2 (Or.inl (ih hg p))
  | @later bound n stage t before after v w u q hne hbefore _ ih =>
    intro p
    have hyields : defs.matching bound (.pipeline before) v p = .ok u := matching_eq_ok_at hbefore p
    rw [matching, Spec.canonical_pipeline_append hne]
    refine bind_eq_error_iff.2 (Or.inr ⟨u, hyields, ?_⟩)
    rw [Spec.through_cons]
    exact bind_eq_error_iff.2 (Or.inl (ih hg p))
  | @name bound n name s t v w q hs _ ih =>
    intro p
    rw [matching, Spec.canonical, refer_of_find? hs]
    exact ih hg p

/-- **The path at which a match begins is only a prefix.**  Every value is accepted at it exactly if
it is accepted from the root, and as the same.  Every mismatch has the fault that is found from the
root, and the path at which it is found there, below the path at which the match begins.  And where
a match comes to one of a subvalue, the failure of that one, found from its own root, is the failure
of the whole, below the path that leads to the subvalue. -/
theorem matching_relocated (defs : Definitions) (bound : Nat) (spec : Spec) (v : Value) (p : Path) :
    (∀ t, defs.matching bound spec v p = .ok t ↔
        defs.matching bound spec v Path.root = .ok t) ∧
      (∀ q fault, defs.matching bound spec v p = .error (.mismatch ⟨q, fault⟩) ↔
        ∃ r, defs.matching bound spec v Path.root = .error (.mismatch ⟨r, fault⟩) ∧ q = p ++ r) ∧
      defs.matching bound spec v p =
        (defs.matching bound spec v Path.root).mapError (Failure.under p) ∧
      ∀ q n part w g, defs.Comes bound spec v q n part w →
        defs.matching n part w Path.root = .error g →
          defs.matching bound spec v p = .error (g.under (p ++ q)) := by
  have hroot := defs.matching_from_root bound spec v p
  refine ⟨fun t => ?_, fun q fault => ?_, hroot, fun q n part w g h hg => h.matching_eq_error hg p⟩
  · rw [hroot]
    exact mapError_eq_ok_iff
  · rw [hroot, mapError_eq_error_iff]
    constructor
    · rintro ⟨f, hf, hunder⟩
      cases f with
      | mismatch m => cases hunder; exact ⟨m.path, hf, rfl⟩
      | endless => cases hunder
      | undefined name => cases hunder
    · rintro ⟨r, hr, rfl⟩
      exact ⟨_, hr, rfl⟩

/-- The second element of a list that a first stage has let pass, under a name, at one of its
fields. -/
theorem matching_relocated_of_later_stage :
    let point : Spec := .object [.optional "y" .any .null, .required "x" .integer, .rest .ok]
    let defs : Definitions := [("point", point)]
    let spec : Spec := .pipeline [.any, .list (.named "point")]
    let good : Term := .map [("x", .int 1), ("z", .null)]
    let v : Value := .native (.list [good, .map [("x", .str "one")]])
    let f : Failure := .fault [] (.wrongType (.str "one") .string Spec.integer.label)
    let q : Path := [.index 1, .field "x"]
    defs.Comes 1 spec v q 0 .integer (.native (.str "one")) ∧
      defs.matching 0 .integer (.native (.str "one")) Path.root = .error f ∧
      defs.matching 1 spec v [.field "points"] = .error (f.under (.field "points" :: q)) := by
  intro point defs spec good v f q
  have hfields : point.fields? =
      some ([.optional "y" .any .null] ++ .required "x" .integer :: [.rest .ok]) := by rfl
  have hitems : v.elements? =
      some ([.native good] ++ .native (.map [("x", .str "one")]) :: []) := by rfl
  have hpoint : defs.Comes 0 point (.native (.map [("x", .str "one")])) [.field "x"] 0 .integer
      (.native (.str "one")) := by
    refine .field hfields rfl ?_ rfl rfl rfl (.here 0 _ _)
    intro b hb
    obtain rfl := List.mem_singleton.1 hb
    exact ⟨some .null, rfl⟩
  have hlist : defs.Comes 1 (.list (.named "point")) v q 0 .integer (.native (.str "one")) := by
    refine .element rfl hitems ?_ (.name rfl hpoint)
    intro u hu
    obtain rfl := List.mem_singleton.1 hu
    exact ⟨_, rfl⟩
  have hany : defs.matching 1 (.pipeline [.any]) v Path.root = .ok v.toTerm := by rfl
  have hcomes : defs.Comes 1 spec v q 0 .integer (.native (.str "one")) :=
    .later (List.cons_ne_nil Spec.any []) hany hlist
  have hfault : defs.matching 0 .integer (.native (.str "one")) Path.root = .error f := by rfl
  exact ⟨hcomes, hfault,
    (matching_relocated defs 1 spec v [.field "points"]).2.2.2 q 0 .integer _ f hcomes hfault⟩

end Definitions

end Conform
