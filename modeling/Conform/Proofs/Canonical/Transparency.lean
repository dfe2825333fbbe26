import Conform.Proofs.Canonical.Nodes
import Mathlib.Logic.Relation

/-!
# Names are transparent

A name may be replaced by what it stands for, wherever it is mentioned: the match of any value ends
in the same way.  The two matches follow different numbers of names, so they are compared by what
they end in and not bound by bound.

* `Spec.plug` puts a part into a specification with a hole, which is a row of frames.
* `Below`: a match that was given up is below every other, and a match that was not only below
  itself.  A match goes up with the matchers for names and with its parts: `canonical_below`,
  `below_plug`.
* `Expands`: any number of names, at any depth, are replaced by their definitions.  One name fewer
  is followed for each replacement on the way, `Expands.below`, or one more, `Expands.exists_above`.
* `matching_transparent` puts the two together for specifications that are expanded, in a table of
  definitions that are expanded too.
-/

namespace Conform

/-! ### Computations that were given up -/

/-- The first computation was given up, or the two have the same outcome. -/
def Below {α : Type} (x y : Except Failure α) : Prop := x = .error .endless ∨ x = y

namespace Below

variable {α β γ : Type} {x y z : Except Failure α}

theorem refl (x : Except Failure α) : Below x x := Or.inr rfl

theorem trans (h : Below x y) (h' : Below y z) : Below x z := by
  rcases h with h | rfl
  · exact Or.inl h
  · exact h'

theorem eq (h : Below x y) (hne : x ≠ .error .endless) : y = x := (h.resolve_left hne).symm

theorem bind (h : Below x y) {g k : α → Except Failure β} (hg : ∀ a, Below (g a) (k a)) :
    Below (x.bind g) (y.bind k) := by
  rcases h with rfl | rfl
  · exact Or.inl rfl
  · cases x with
    | ok a => exact hg a
    | error f => exact refl _

theorem compatible : Compatible Below := ⟨fun a => refl (.ok a), fun h hg => h.bind hg⟩

theorem map (h : Below x y) (g : α → β) : Below (x.map g) (y.map g) := compatible.map h g

theorem mapM {g : α → Except Failure γ} {k : β → Except Failure γ} {as : List α} {bs : List β}
    (h : List.Forall₂ (fun a b => Below (g a) (k b)) as bs) : Below (as.mapM g) (bs.mapM k) :=
  compatible.mapM h

end Below

/-- The first matcher is below the second one at every value. -/
def Matcher.Below (m m' : Matcher) : Prop := ∀ v p, Conform.Below (m v p) (m' v p)

/-! ### Specifications with a hole -/

/-- The field with another specification; a rest directive has none. -/
def Field.withSpec (spec : Spec) : Field → Field
  | required key _ => required key spec
  | optional key _ default => optional key spec default
  | rest transform => rest transform

namespace Field

theorem key?_withSpec (spec : Spec) (field : Field) : (field.withSpec spec).key? = field.key? := by
  cases field <;> rfl

theorem transform?_withSpec (spec : Spec) (field : Field) :
    (field.withSpec spec).transform? = field.transform? := by
  cases field <;> rfl

theorem withSpec_self {spec : Spec} {field : Field} (h : field.spec? = some spec) :
    field.withSpec spec = field := by
  cases field with
  | required | optional => cases h; rfl
  | rest => rfl

end Field

namespace Spec

/-- A node of a specification around one of its parts. -/
inductive Frame where
  | array
  | list
  /-- An object around the specification of a field. -/
  | object (before : List Field) (field : Field) (after : List Field)
  /-- A proplist around the specification of a field. -/
  | proplist (before : List Field) (field : Field) (after : List Field)
  | pipeline (before after : List Spec)

/-- The node around a part. -/
def Frame.around (part : Spec) : Frame → Spec
  | array => .array part
  | list => .list part
  | object before field after => .object (before ++ field.withSpec part :: after)
  | proplist before field after => .proplist (before ++ field.withSpec part :: after)
  | pipeline before after => .pipeline (before ++ part :: after)

/-- The specification around a part, the outermost frame first. -/
def plug (part : Spec) (frames : List Frame) : Spec :=
  frames.foldr (fun frame whole => frame.around whole) part

end Spec

/-! ### Matches go up -/

theorem closeFields_congr {fields others : List Field}
    (hkeys : fields.map Field.key? = others.map Field.key?)
    (hrest : fields.map Field.transform? = others.map Field.transform?) :
    closeFields fields = closeFields others := by
  have hdeclares : ∀ key, Field.declares fields key = Field.declares others key := by
    intro key
    have hany := congrArg (fun keys : List (Option String) => keys.any (· == some key)) hkeys
    simpa only [Field.declares, List.any_map, Function.comp_def] using hany
  have hresidual : Entry.residual fields = Entry.residual others := by
    funext entries
    simp only [Entry.residual, hdeclares]
  have htransform : Field.rest? fields = Field.rest? others := by
    have hfirst := congrArg (List.findSome? id) hrest
    simpa only [Field.rest?, List.findSome?_map, Function.comp_def, id_eq] using hfirst
  funext entries p slots
  rw [closeFields, closeFields, hresidual, htransform]

section

variable {refer refer' : String → Matcher}

theorem Matcher.Below.items {m m' : Matcher} (h : m.Below m') (p : Path) (vs : List Value) :
    Conform.Below (m.items p 0 vs) (m'.items p 0 vs) := by
  rw [m.items_eq_mapM, m'.items_eq_mapM]
  exact .mapM (List.forall₂_same.2 fun x _ => h x.1 (p.index x.2))

theorem Field.slot_below {s t : Spec} (h : (s.canonical refer).Below (t.canonical refer'))
    (field : Field) (entries : List Entry) (p : Path) :
    Below ((field.withSpec s).slot refer entries p) ((field.withSpec t).slot refer' entries p) := by
  cases field with
  | required key _ =>
    simp only [withSpec, slot]
    cases Entry.first? key entries with
    | none => exact .refl _
    | some v => exact (h v _).map some
  | optional key _ default =>
    simp only [withSpec, slot]
    cases Entry.first? key entries with
    | none => exact .refl _
    | some v => exact (h v _).map some
  | rest transform => exact .refl _

/-- A slot goes up with the specification of its field. -/
theorem Field.slot_below_self {field : Field}
    (h : ∀ spec, field.spec? = some spec → (spec.canonical refer).Below (spec.canonical refer'))
    (entries : List Entry) (p : Path) :
    Below (field.slot refer entries p) (field.slot refer' entries p) := by
  cases hspec : field.spec? with
  | some spec =>
    rw [← withSpec_self hspec]
    exact slot_below (h spec hspec) field entries p
  | none =>
    cases field with
    | required | optional => cases hspec
    | rest transform => exact .refl _

namespace Spec

/-- Sequences of the same label go up with their elements. -/
theorem sequence_below {s t element other : Spec} (hs : s.element? = some element)
    (ht : t.element? = some other) (hlabel : s.label = t.label)
    (h : (element.canonical refer).Below (other.canonical refer')) :
    (s.canonical refer).Below (t.canonical refer') := by
  intro v p
  rw [canonical_of_element hs, canonical_of_element ht]
  cases v.elements? with
  | none =>
    rw [Failure.wrongType, Failure.wrongType, hlabel]
    exact .refl _
  | some items => exact (h.items p items).map Term.list

/-- Rows of the same label and with the same keys and rest directives go up with their fields. -/
theorem row_below {s t : Spec} {fields others : List Field} (hs : s.fields? = some fields)
    (ht : t.fields? = some others) (hentries : s.entries? = t.entries?)
    (hlabel : s.label = t.label) (hkeys : fields.map Field.key? = others.map Field.key?)
    (hrest : fields.map Field.transform? = others.map Field.transform?)
    (h : ∀ entries p, List.Forall₂
      (fun f g => Below (f.slot refer entries p) (g.slot refer' entries p)) fields others) :
    (s.canonical refer).Below (t.canonical refer') := by
  intro v p
  rw [canonical_of_fields hs, canonical_of_fields ht, hentries]
  cases t.entries? v with
  | none =>
    rw [Failure.wrongType, Failure.wrongType, hlabel]
    exact .refl _
  | some entries =>
    dsimp only
    rw [slots_eq_mapM, slots_eq_mapM, closeFields_congr hkeys hrest]
    exact (Below.mapM (h entries p)).bind fun slots => .refl _

theorem through_below {stages others : List Spec}
    (h : List.Forall₂ (fun s t => (canonical refer s).Below (canonical refer' t)) stages others)
    (p : Path) : ∀ t, Below (through refer p stages t) (through refer' p others t) := by
  induction h with
  | nil => exact fun t => .refl _
  | cons hstage _ ih =>
    intro t
    rw [through_cons, through_cons]
    exact (hstage (.native t) p).bind ih

theorem pipeline_below {stages others : List Spec}
    (h : List.Forall₂ (fun s t => (canonical refer s).Below (canonical refer' t)) stages others) :
    ((pipeline stages).canonical refer).Below ((pipeline others).canonical refer') := by
  intro v p
  cases h with
  | nil =>
    rw [canonical, canonical]
    exact .refl _
  | cons hstage hstages =>
    rw [canonical_pipeline_cons, canonical_pipeline_cons]
    exact (hstage v p).bind (through_below hstages p)

/-- **A match goes up with the matchers for names.** -/
theorem canonical_below (hr : ∀ name, (refer name).Below (refer' name)) (s : Spec) :
    (s.canonical refer).Below (s.canonical refer') := by
  induction s using Spec.ind with
  | leaf s judge h =>
    intro v p
    rw [canonical_of_judge h, canonical_of_judge h]
    exact .refl _
  | sequence s element h ih => exact sequence_below h h rfl ih
  | row s fields h ih =>
    refine row_below h h rfl rfl rfl rfl fun entries p => ?_
    exact List.forall₂_same.2 fun field hf => Field.slot_below_self (ih field hf) entries p
  | pipeline stages ih => exact pipeline_below (List.forall₂_same.2 ih)
  | named name => exact hr name

/-- A row of fields goes up with the specification of one of them. -/
theorem fields_below (hr : ∀ name, (refer name).Below (refer' name)) {s t : Spec}
    (h : (s.canonical refer).Below (t.canonical refer')) (before : List Field) (field : Field)
    (after : List Field) (entries : List Entry) (p : Path) :
    List.Forall₂ (fun f g => Below (f.slot refer entries p) (g.slot refer' entries p))
      (before ++ field.withSpec s :: after) (before ++ field.withSpec t :: after) := by
  have hbeside : ∀ fields : List Field, List.Forall₂
      (fun f g => Below (f.slot refer entries p) (g.slot refer' entries p)) fields fields :=
    fun fields => List.forall₂_same.2 fun other _ =>
      Field.slot_below_self (fun spec _ => canonical_below hr spec) entries p
  exact List.rel_append (hbeside before)
    (.cons (Field.slot_below h field entries p) (hbeside after))

/-- A node goes up with one of its parts. -/
theorem around_below (hr : ∀ name, (refer name).Below (refer' name)) {s t : Spec}
    (h : (s.canonical refer).Below (t.canonical refer')) (frame : Frame) :
    ((frame.around s).canonical refer).Below ((frame.around t).canonical refer') := by
  cases frame with
  | array | list => exact sequence_below rfl rfl rfl h
  | object before field after | proplist before field after =>
    refine row_below rfl rfl rfl rfl ?_ ?_ (fields_below hr h before field after)
    · simp only [List.map_append, List.map_cons, Field.key?_withSpec]
    · simp only [List.map_append, List.map_cons, Field.transform?_withSpec]
  | pipeline before after =>
    have hbeside : ∀ stages : List Spec, List.Forall₂
        (fun s t => (s.canonical refer).Below (t.canonical refer')) stages stages :=
      fun stages => List.forall₂_same.2 fun stage _ => canonical_below hr stage
    exact pipeline_below (List.rel_append (hbeside before) (.cons h (hbeside after)))

/-- **A match goes up with each part of the specification.** -/
theorem plug_below (hr : ∀ name, (refer name).Below (refer' name)) {s t : Spec}
    (h : (s.canonical refer).Below (t.canonical refer')) (frames : List Frame) :
    ((plug s frames).canonical refer).Below ((plug t frames).canonical refer') := by
  induction frames with
  | nil => exact h
  | cons frame frames ih => exact around_below hr ih frame

end Spec

end

/-! ### Expansion -/

namespace Definitions

variable {defs defs' : Definitions} {s t : Spec}

/-- One name in the first specification, at any depth, is replaced by its definition. -/
inductive Replaces (defs : Definitions) : Spec → Spec → Prop
  | at (frames : List Spec.Frame) {name : String} {meaning : Spec} :
    defs.find? name = some meaning →
    Replaces defs (Spec.plug (.named name) frames) (Spec.plug meaning frames)

/-- Names in the first specification are replaced by their definitions, any number of them and at
any depth, in what stands for other names too. -/
def Expands (defs : Definitions) : Spec → Spec → Prop := Relation.ReflTransGen defs.Replaces

/-- The second table defines the same names, by expansions of what the first one says. -/
def ExpandsTo (defs defs' : Definitions) : Prop :=
  ∀ name, Option.Rel defs.Expands (defs.find? name) (defs'.find? name)

/-- **More names to follow, and a match that was not given up stays as it is.** -/
theorem refer_below {m n : Nat} (h : m ≤ n) (name : String) :
    (defs.refer m name).Below (defs.refer n name) := by
  induction m generalizing n name with
  | zero => exact fun v p => Or.inl rfl
  | succ m ih =>
    obtain ⟨n, rfl⟩ : ∃ k, n = k + 1 := ⟨n - 1, by omega⟩
    cases hfind : defs.find? name with
    | none =>
      rw [refer_of_not_find? hfind, refer_of_not_find? hfind]
      exact fun v p => .refl _
    | some meaning =>
      rw [refer_of_find? hfind, refer_of_find? hfind]
      exact Spec.canonical_below (ih (by omega)) meaning

theorem matching_below {m n : Nat} (h : m ≤ n) (spec : Spec) :
    (defs.matching m spec).Below (defs.matching n spec) :=
  Spec.canonical_below (refer_below h) spec

/-- A definition needs no more names than the name does. -/
theorem Replaces.below (h : defs.Replaces s t) (n : Nat) :
    (defs.matching n s).Below (defs.matching n t) := by
  obtain ⟨frames, hfind⟩ := h
  refine Spec.plug_below (fun name => refer_below (Nat.le_refl n) name) ?_ frames
  cases n with
  | zero => exact fun v p => Or.inl rfl
  | succ n =>
    show (defs.refer (n + 1) _).Below _
    rw [refer_of_find? hfind]
    exact matching_below (Nat.le_succ n) _

/-- A name needs at most one name more than its definition does. -/
theorem Replaces.above (h : defs.Replaces s t) (n : Nat) :
    (defs.matching n t).Below (defs.matching (n + 1) s) := by
  obtain ⟨frames, hfind⟩ := h
  refine Spec.plug_below (fun name => refer_below (Nat.le_succ n) name) ?_ frames
  show Matcher.Below _ (defs.refer (n + 1) _)
  rw [refer_of_find? hfind]
  exact fun v p => .refl _

theorem Expands.around (h : defs.Expands s t) (frame : Spec.Frame) :
    defs.Expands (frame.around s) (frame.around t) := by
  refine Relation.ReflTransGen.lift (fun part => frame.around part) ?_ s t h
  rintro _ _ ⟨frames, hfind⟩
  exact .at (frame :: frames) hfind

theorem Expands.below (h : defs.Expands s t) (n : Nat) :
    (defs.matching n s).Below (defs.matching n t) := by
  induction h with
  | refl => exact fun v p => .refl _
  | tail _ hstep ih => exact fun v p => (ih v p).trans (hstep.below n v p)

theorem Expands.exists_above (h : defs.Expands s t) :
    ∃ k, ∀ n, (defs.matching n t).Below (defs.matching (n + k) s) := by
  induction h with
  | refl => exact ⟨0, fun n v p => .refl _⟩
  | tail _ hstep ih =>
    obtain ⟨k, hk⟩ := ih
    refine ⟨k + 1, fun n v p => (hstep.above n v p).trans ?_⟩
    rw [Nat.add_comm k 1, ← Nat.add_assoc]
    exact hk (n + 1) v p

/-! ### Expanded tables -/

/-- Finitely many bounds are below one. -/
theorem exists_bound {α : Type} {P : α → Nat → Prop}
    (hup : ∀ a m n, m ≤ n → P a m → P a n) {as : List α} (h : ∀ a ∈ as, ∃ n, P a n) :
    ∃ n, ∀ a ∈ as, P a n := by
  induction as with
  | nil => exact ⟨0, fun _ ha => nomatch ha⟩
  | cons a as ih =>
    obtain ⟨m, hm⟩ := h a List.mem_cons_self
    obtain ⟨n, hn⟩ := ih fun b hb => h b (List.mem_cons_of_mem a hb)
    refine ⟨max m n, List.forall_mem_cons.2 ⟨hup a m _ (Nat.le_max_left m n) hm, fun b hb => ?_⟩⟩
    exact hup b n _ (Nat.le_max_right m n) (hn b hb)

theorem ExpandsTo.find?_eq_none (h : defs.ExpandsTo defs') {name : String}
    (hfind : defs.find? name = none) : defs'.find? name = none := by
  have hrel := h name
  rw [hfind] at hrel
  cases hd : defs'.find? name with
  | none => rfl
  | some t => rw [hd] at hrel; cases hrel

theorem ExpandsTo.refer_below (h : defs.ExpandsTo defs') (n : Nat) (name : String) :
    (defs.refer n name).Below (defs'.refer n name) := by
  induction n generalizing name with
  | zero => exact fun v p => Or.inl rfl
  | succ n ih =>
    cases hfind : defs.find? name with
    | none =>
      rw [refer_of_not_find? hfind, refer_of_not_find? (h.find?_eq_none hfind)]
      exact fun v p => .refl _
    | some s =>
      obtain ⟨t, hd, hst⟩ := exists_eq_some_of_rel (hfind ▸ h name)
      rw [refer_of_find? hfind, refer_of_find? hd]
      exact fun v p => (hst.below n v p).trans (Spec.canonical_below ih t v p)

theorem ExpandsTo.exists_refer_above (h : defs.ExpandsTo defs') (n : Nat) :
    ∃ m, ∀ name, (defs'.refer n name).Below (defs.refer m name) := by
  -- no definition needs more than `k` names for its expansion
  have hbound : ∃ k, ∀ d ∈ defs, ∀ s t, defs.find? d.1 = some s → defs'.find? d.1 = some t →
      ∀ n, (defs.matching n t).Below (defs.matching (n + k) s) := by
    refine exists_bound (fun d k l hkl hk s t hs ht n v p => ?_) fun d _ => ?_
    · exact (hk s t hs ht n v p).trans (matching_below (by omega) s v p)
    · cases hs : defs.find? d.1 with
      | none => exact ⟨0, fun _ _ h => nomatch h⟩
      | some s =>
        obtain ⟨t, ht, hst⟩ := exists_eq_some_of_rel (hs ▸ h d.1)
        obtain ⟨k, hk⟩ := hst.exists_above
        refine ⟨k, fun s' t' hs' ht' => ?_⟩
        cases hs'
        cases ht.symm.trans ht'
        exact hk
  obtain ⟨k, hk⟩ := hbound
  induction n with
  | zero => exact ⟨0, fun name v p => Or.inl rfl⟩
  | succ n ih =>
    obtain ⟨m, hm⟩ := ih
    refine ⟨m + k + 1, fun name => ?_⟩
    cases hfind : defs.find? name with
    | none =>
      rw [refer_of_not_find? hfind, refer_of_not_find? (h.find?_eq_none hfind)]
      exact fun v p => .refl _
    | some s =>
      obtain ⟨t, hd, _⟩ := exists_eq_some_of_rel (hfind ▸ h name)
      obtain ⟨d, hmem, rfl⟩ : ∃ d ∈ defs, d.1 = name := by
        obtain ⟨d, hd, _⟩ := Option.map_eq_some_iff.1 hfind
        exact ⟨d, List.mem_of_find?_eq_some hd, by simpa using List.find?_some hd⟩
      rw [refer_of_find? hfind, refer_of_find? hd]
      exact fun v p => (Spec.canonical_below hm t v p).trans (hk d hmem s t hfind hd m v p)

/-! ### The end of a match -/

/-- The match comes to an end with the outcome: that is the outcome for every bound from some one
on, and not because the bound was reached. -/
def EndsIn (defs : Definitions) (spec : Spec) (v : Value) (p : Path) (o : Outcome) : Prop :=
  o ≠ .error .endless ∧ ∃ n, ∀ bound, n ≤ bound → defs.matching bound spec v p = o

/-- A match that is not given up at one bound comes to its end there. -/
theorem endsIn_of_ne {n : Nat} {spec : Spec} {v : Value} {p : Path}
    (h : defs.matching n spec v p ≠ .error .endless) :
    defs.EndsIn spec v p (defs.matching n spec v p) :=
  ⟨h, n, fun _ hbound => (matching_below hbound spec v p).eq h⟩

theorem matching_below_expanded (hs : defs.Expands s t) (hdefs : defs.ExpandsTo defs') (n : Nat) :
    (defs.matching n s).Below (defs'.matching n t) :=
  fun v p => (hs.below n v p).trans (Spec.canonical_below (hdefs.refer_below n) t v p)

theorem exists_expanded_below (hs : defs.Expands s t) (hdefs : defs.ExpandsTo defs') (n : Nat) :
    ∃ m, (defs'.matching n t).Below (defs.matching m s) := by
  obtain ⟨m, hm⟩ := hdefs.exists_refer_above n
  obtain ⟨k, hk⟩ := hs.exists_above
  exact ⟨m + k, fun v p => (Spec.canonical_below hm t v p).trans (hk m v p)⟩

/-- **Names are transparent.**  Let any number of names in a specification be replaced by their
definitions, at any depth, and let the same be done in the definitions.  Then a match comes to an
end before exactly if it does so after, with the same canonical form or the same mismatch: its path,
its fault and the label that was expected.  It needs no more names in a row than before.  The labels
of the two specifications may differ, since a name is its own label. -/
theorem matching_transparent (hs : defs.Expands s t) (hdefs : defs.ExpandsTo defs') (v : Value)
    (p : Path) :
    (∀ o, defs.EndsIn s v p o ↔ defs'.EndsIn t v p o) ∧
      (∀ bound, defs.matching bound s v p ≠ .error .endless →
        defs'.matching bound t v p = defs.matching bound s v p) ∧
      ∀ name, (Spec.named name).label = name := by
  have hforth : ∀ bound, defs.matching bound s v p ≠ .error .endless →
      defs'.matching bound t v p = defs.matching bound s v p :=
    fun bound hne => (matching_below_expanded hs hdefs bound v p).eq hne
  refine ⟨fun o => ⟨?_, ?_⟩, hforth, fun name => String.ofList_toList⟩
  · rintro ⟨hne, n, hn⟩
    refine ⟨hne, n, fun bound hbound => ?_⟩
    rw [hforth bound (by rwa [hn bound hbound]), hn bound hbound]
  · rintro ⟨hne, n, hn⟩
    obtain ⟨m, hm⟩ := exists_expanded_below hs hdefs n
    have hend : defs.matching m s v p = o := by
      rw [(hm v p).eq (by rwa [hn n (Nat.le_refl n)]), hn n (Nat.le_refl n)]
    have hends := endsIn_of_ne (by rwa [hend] : defs.matching m s v p ≠ .error .endless)
    rwa [hend] at hends

/-- A server has a port and perhaps a next server.  Two names are replaced in the specification, and
in the definition of a server the next one is spelled out once. -/
theorem matching_transparent_of_recursion :
    let port : Spec := .satisfy (fun t => t.kind == .integer) "a whole number"
    let server : Spec :=
      .object [.required "port" (.pipeline [.integer, .named "port"]),
        .optional "next" (.named "server") .null]
    let spelled : Spec :=
      .object [.required "port" (.pipeline [.integer, port]), .optional "next" server .null]
    let defs : Definitions := [("port", port), ("server", server)]
    let defs' : Definitions := [("port", port), ("server", spelled)]
    let s : Spec := .list (.named "server")
    let t : Spec := .list spelled
    let last : Term := .map [("port", .str "http")]
    let v : Value := .native
      (.list [.map [("port", .int 1), ("next", .map [("next", last), ("port", .int 2)])]])
    let q : Path := [.index 0, .field "next", .field "next", .field "port"]
    let failure := Failure.fault q (.wrongType (.str "http") .string "integer")
    defs.Expands s t ∧ defs.ExpandsTo defs' ∧ defs.EndsIn s v Path.root (.error failure) ∧
      defs'.EndsIn t v Path.root (.error failure) ∧
      defs.matching 3 s v Path.root = .error failure ∧
      defs'.matching 1 t v Path.root = .error failure := by
  intro port server spelled defs defs' s t last v q failure
  have hport : defs.Expands (.named "port") port := .single (.at [] rfl)
  have hserver : defs.Expands (.named "server") server := .single (.at [] rfl)
  have hspelled : defs.Expands server spelled := by
    have hfirst := (hport.around (.pipeline [.integer] [])).around
      (.object [] (.required "port" .any) [.optional "next" (.named "server") .null])
    exact hfirst.trans (hserver.around
      (.object [.required "port" (.pipeline [.integer, port])] (.optional "next" .any .null) []))
  have hs : defs.Expands s t := Expands.around (hserver.trans hspelled) .list
  have hdefs : defs.ExpandsTo defs' := by
    intro name
    by_cases hp : name = "port"
    · rw [hp]
      exact .some .refl
    by_cases hn : name = "server"
    · rw [hn]
      exact .some hspelled
    have hnone : ∀ first second : Spec,
        Definitions.find? [("port", first), ("server", second)] name = none := by
      intro first second
      simp [find?, Ne.symm hp, Ne.symm hn]
    rw [hnone, hnone]
    exact .none
  have hbefore : defs.matching 3 s v Path.root = .error failure := by rfl
  have hafter : defs'.matching 1 t v Path.root = .error failure := by rfl
  have hends : defs.EndsIn s v Path.root (.error failure) := by
    rw [← hbefore]
    refine endsIn_of_ne ?_
    rw [hbefore]
    exact fun h => Failure.noConfusion (Except.error.inj h)
  have hsame := (matching_transparent hs hdefs v Path.root).1
  exact ⟨hs, hdefs, hends, (hsame _).1 hends, hbefore, hafter⟩

end Definitions

end Conform
