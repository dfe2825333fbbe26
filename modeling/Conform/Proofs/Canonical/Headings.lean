import Conform.Proofs.Path.Text
import Conform.Proofs.Spec.Parts

/-!
# Which node a message is about

The sentence for a mismatch begins with the path of the node, its `Mismatch.heading`.  The path of
a mismatch leads along the specification, through any number of stages (`Spec.canonical_leads`), so
the names in it are declared keys.  Where these have no mark of a step, the heading tells the path,
and messages with one heading are about one node.
-/

namespace Conform

/-- What the sentence for a mismatch begins with. -/
def Mismatch.heading (m : Mismatch) : List Char :=
  "At path ".toList ++ m.path.text ++ " : ".toList

theorem Mismatch.message_eq (m : Mismatch) : m.message = m.heading ++ m.fault.message := rfl

namespace Mismatch

/-- The path of the mismatch leads on from a path along the specification. -/
def Along (defs : Definitions) (s : Spec) (p : Path) (m : Mismatch) : Prop :=
  ∃ q t, m.path = p ++ q ∧ s.Leads defs q t

namespace Along

variable {defs : Definitions} {s : Spec} {p : Path} {m : Mismatch}

theorem here (s : Spec) (p : Path) (f : Fault) : Along defs s p { path := p, fault := f } :=
  ⟨[], s, (List.append_nil p).symm, .here s⟩

theorem element {element : Spec} (hs : s.element? = some element) {i : Nat}
    (h : Along defs element (p.index i) m) : Along defs s p m := by
  obtain ⟨q, t, hpath, hleads⟩ := h
  exact ⟨.index i :: q, t, hpath.trans (Path.child_append p _ q), .element hs hleads⟩

theorem field {fields : List Field} (hs : s.fields? = some fields) {field : Field}
    (hf : field ∈ fields) {key : String} (hk : field.key? = some key) {spec : Spec}
    (hspec : field.spec? = some spec) (h : Along defs spec (p.field key) m) :
    Along defs s p m := by
  obtain ⟨q, t, hpath, hleads⟩ := h
  exact ⟨.field key :: q, t, hpath.trans (Path.child_append p _ q), .field hs hf hk hspec hleads⟩

theorem stage {stage : Spec} {stages : List Spec} (hs : stage ∈ stages)
    (h : Along defs stage p m) : Along defs (.pipeline stages) p m := by
  obtain ⟨q, t, hpath, hleads⟩ := h
  exact ⟨q, t, hpath, .stage hs hleads⟩

theorem name {name : String} (hs : defs.find? name = some s) (h : Along defs s p m) :
    Along defs (.named name) p m := by
  obtain ⟨q, t, hpath, hleads⟩ := h
  exact ⟨q, t, hpath, .name hs hleads⟩

end Along

end Mismatch

namespace Spec

variable {defs : Definitions} {refer : String → Matcher}

/-- A row of stages fails with one of them. -/
theorem exists_of_through_eq_error {p : Path} {stages : List Spec} {t : Term} {f : Failure}
    (h : through refer p stages t = .error f) :
    ∃ stage ∈ stages, ∃ u, stage.canonical refer (.native u) p = .error f := by
  induction stages generalizing t with
  | nil => cases h
  | cons stage stages ih =>
    rw [through_cons, bind_eq_error_iff] at h
    rcases h with hstage | ⟨u, _, hrest⟩
    · exact ⟨stage, List.mem_cons_self, t, hstage⟩
    · obtain ⟨later, hlater, hfails⟩ := ih hrest
      exact ⟨later, List.mem_cons_of_mem stage hlater, hfails⟩

/-- **The path of a mismatch leads along the specification**, if that is so under names. -/
theorem canonical_leads
    (hr : ∀ name v p m, refer name v p = .error (.mismatch m) → m.Along defs (named name) p)
    (s : Spec) : ∀ v p m, s.canonical refer v p = .error (.mismatch m) → m.Along defs s p := by
  induction s using Spec.ind with
  | leaf s judge h =>
    intro v p m hm
    rw [canonical_of_judge h] at hm
    cases hj : judge v with
    | ok t => rw [hj] at hm; cases hm
    | error f =>
      rw [hj] at hm
      cases hm
      exact .here s p f
  | sequence s element h ih =>
    intro v p m hm
    rw [canonical_of_element h] at hm
    cases hv : v.elements? with
    | none =>
      rw [hv] at hm
      cases hm
      exact .here s p _
    | some items =>
      simp only [hv, map_eq_error_iff, Matcher.items_eq_mapM] at hm
      obtain ⟨⟨w, i⟩, _, hw⟩ := Failure.exists_of_mapM_eq_error hm
      exact .element h (ih w (p.index i) m hw)
  | row s fields h ih =>
    intro v p m hm
    rw [canonical_of_fields h] at hm
    cases hv : s.entries? v with
    | none =>
      rw [hv] at hm
      cases hm
      exact .here s p _
    | some entries =>
      simp only [hv, bind_eq_error_iff, slots_eq_mapM] at hm
      rcases hm with hm | ⟨slots, _, hm⟩
      · obtain ⟨field, hf, hslot⟩ := Failure.exists_of_mapM_eq_error hm
        rcases Field.of_slot_eq_error hslot with
          ⟨key, spec, _, _, hm⟩ | ⟨key, spec, w, hk, hspec, _, hm⟩
        · cases hm
          exact .here s p _
        · exact .field h hf hk hspec (ih field hf spec hspec w (p.field key) m hm)
      · rcases of_closeFields_eq_error hm with ⟨_, _, _, _, hm⟩ | ⟨_, _, hm⟩
        · cases hm
          exact .here s p _
        · cases hm
          exact .here s p _
  | pipeline stages ih =>
    intro v p m hm
    cases stages with
    | nil => rw [canonical] at hm; cases hm
    | cons stage stages =>
      rw [canonical_pipeline_cons, bind_eq_error_iff] at hm
      rcases hm with hm | ⟨t, _, hm⟩
      · exact .stage List.mem_cons_self (ih stage List.mem_cons_self v p m hm)
      · obtain ⟨later, hlater, u, hu⟩ := exists_of_through_eq_error hm
        have hmem := List.mem_cons_of_mem stage hlater
        exact .stage hmem (ih later hmem (.native u) p m hu)
  | named name =>
    intro v p m hm
    exact hr name v p m hm

end Spec

namespace Definitions

variable {defs : Definitions}

theorem matching_leads {bound : Nat} {s : Spec} {v : Value} {p : Path} {m : Mismatch}
    (h : defs.matching bound s v p = .error (.mismatch m)) : m.Along defs s p := by
  refine Spec.canonical_leads ?_ s v p m h
  refine refer_ind (motive := fun name matcher => ∀ v p m, matcher v p = .error (.mismatch m) →
    m.Along defs (.named name) p) ?_ ?_ ?_ bound
  · intro name v p m hm
    cases hm
  · intro name v p m hm
    cases hm
  · intro name spec refer hs ih v p m hm
    exact .name hs (Spec.canonical_leads ih spec v p m hm)

/-- No key that is declared in the specification, or in what its names stand for, has a mark of a
step. -/
def PlainKeys (defs : Definitions) (s : Spec) : Prop :=
  ∀ t fields, defs.Reaches s t → t.fields? = some fields →
    ∀ field ∈ fields, ∀ key, field.key? = some key → (Segment.field key).Plain

namespace PlainKeys

variable {s : Spec}

theorem of_judge {judge : Value → Except Fault Term} (h : s.judge? = some judge) :
    defs.PlainKeys s := by
  intro t fields ht hfields
  obtain rfl := (reaches_of_judge h).1 ht
  cases t <;> cases h <;> cases hfields

theorem sequence {element : Spec} (h : s.element? = some element) (he : defs.PlainKeys element) :
    defs.PlainKeys s := by
  intro t fields ht hfields
  rcases (reaches_of_element h).1 ht with rfl | ht
  · cases t <;> cases h <;> cases hfields
  · exact he t fields ht hfields

theorem row {fields : List Field} (h : s.fields? = some fields)
    (hkeys : ∀ field ∈ fields, ∀ key, field.key? = some key → (Segment.field key).Plain)
    (hspecs : ∀ field ∈ fields, ∀ spec, field.spec? = some spec → defs.PlainKeys spec) :
    defs.PlainKeys s := by
  intro t others ht hothers
  rcases (reaches_of_fields h).1 ht with rfl | ⟨field, hf, spec, hspec, ht⟩
  · exact Option.some.inj (h.symm.trans hothers) ▸ hkeys
  · exact hspecs field hf spec hspec t others ht hothers

theorem pipeline {stages : List Spec} (h : ∀ stage ∈ stages, defs.PlainKeys stage) :
    defs.PlainKeys (.pipeline stages) := by
  intro t fields ht hfields
  rcases reaches_pipeline.1 ht with rfl | ⟨stage, hstage, ht⟩
  · cases hfields
  · exact h stage hstage t fields ht hfields

theorem named {name : String} (h : defs.find? name = some s) (hs : defs.PlainKeys s) :
    defs.PlainKeys (.named name) := by
  intro t fields ht hfields
  rcases (reaches_named h).1 ht with rfl | ht
  · cases hfields
  · exact hs t fields ht hfields

/-- The names in a path along the specification are declared keys. -/
theorem plain {t : Spec} {q : Path} (hs : defs.PlainKeys s) (h : s.Leads defs q t) :
    q.Plain := by
  induction h with
  | here s => exact fun _ hmem => nomatch hmem
  | element he _ ih =>
    have hrest := ih fun t fields ht => hs t fields (.element he ht)
    exact List.forall_mem_cons.2 ⟨trivial, hrest⟩
  | field hfields hf hk hspec _ ih =>
    have hrest := ih fun t fields ht => hs t fields (.field hfields hf hspec ht)
    exact List.forall_mem_cons.2 ⟨hs _ _ (.refl _) hfields _ hf _ hk, hrest⟩
  | stage hmem _ ih => exact ih fun t fields ht => hs t fields (.stage hmem ht)
  | name hfind _ ih => exact ih fun t fields ht => hs t fields (.name hfind ht)

end PlainKeys

/-- **A message tells which node it is about.**  Paths without marks in their names have different
texts, the marker of the root is the text of no other path, and mismatches at such paths have
different headings if their paths differ.  A match has only mismatches at such paths if the keys
that the specification declares are without marks, and the path at which it begins is. -/
theorem heading_tells_path :
    (∀ p q : Path, p.Plain → q.Plain → p.text = q.text → p = q) ∧
      (∀ p : Path, p.text = Path.rootMarker ↔ p = Path.root) ∧
      (∀ m n : Mismatch, m.path.Plain → n.path.Plain → m.heading = n.heading → m.path = n.path) ∧
      ∀ (defs : Definitions) (bound : Nat) (s : Spec) (v : Value) (p : Path) (m : Mismatch),
        defs.PlainKeys s → p.Plain → defs.matching bound s v p = .error (.mismatch m) →
          m.path.Plain := by
  refine ⟨fun p q => Path.text_inj, Path.text_eq_rootMarker_iff, ?_, ?_⟩
  · intro m n hm hn h
    have htext : m.path.text = n.path.text :=
      List.append_cancel_left (List.append_cancel_right h)
    exact Path.text_inj hm hn htext
  · intro defs bound s v p m hs hp hm
    obtain ⟨q, t, hpath, hleads⟩ := matching_leads hm
    rw [hpath]
    exact hp.append (hs.plain hleads)

/-- A key that looks like the marker of the root, an index and a key with a closing bracket, which a
second stage of what a name stands for looks at; and the same steps without the index. -/
theorem heading_tells_path_of_later_stage :
    let item : Spec := .pipeline [.any, .object [.required "a]1" .integer]]
    let defs : Definitions := [("item", item)]
    let spec : Spec := .object [.required "(root)" (.array (.named "item"))]
    let v : Value := .native (.map [("(root)", .list [.map [("a]1", .str "one")]])])
    let m : Mismatch := ⟨[.field "(root)", .index 0, .field "a]1"],
      .wrongType (.str "one") .string Spec.integer.label⟩
    let n : Mismatch := ⟨[.field "(root)", .field "a]1"], m.fault⟩
    defs.PlainKeys spec ∧ Path.root.Plain ∧ n.path.Plain ∧
      defs.matching 1 spec v Path.root = .error (.mismatch m) ∧ m.path.Plain ∧
      m.heading ≠ n.heading ∧ m.path.text ≠ n.path.text ∧ m.path.text ≠ Path.rootMarker := by
  intro item defs spec v m n
  have hitem : defs.PlainKeys item := by
    refine .pipeline fun stage hstage => ?_
    simp only [List.mem_cons, List.not_mem_nil, or_false] at hstage
    rcases hstage with rfl | rfl
    · exact .of_judge rfl
    · refine .row rfl (List.forall_mem_singleton.2 ?_) (List.forall_mem_singleton.2 ?_)
      · rintro key ⟨⟩
        decide
      · rintro inner ⟨⟩
        exact .of_judge rfl
  have hkeys : defs.PlainKeys spec := by
    refine .row rfl (List.forall_mem_singleton.2 ?_) (List.forall_mem_singleton.2 ?_)
    · rintro key ⟨⟩
      decide
    · rintro inner ⟨⟩
      exact .sequence rfl (.named rfl hitem)
  have hroot : Path.root.Plain := by decide
  have hn : n.path.Plain := by decide
  have hrun : defs.matching 1 spec v Path.root = .error (.mismatch m) := by rfl
  obtain ⟨htext, hmarker, hheading, hmatch⟩ := heading_tells_path
  have hm : m.path.Plain := hmatch defs 1 spec v Path.root m hkeys hroot hrun
  have hne : m.path ≠ n.path := by decide
  refine ⟨hkeys, hroot, hn, hrun, hm, fun h => hne (hheading m n hm hn h),
    fun h => hne (htext _ _ hm hn h), fun h => ?_⟩
  exact absurd ((hmarker m.path).1 h) (by decide)

end Definitions

end Conform
