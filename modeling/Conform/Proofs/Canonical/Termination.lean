import Conform.Proofs.Canonical.Doors
import Conform.Proofs.Spec.Names
import Conform.Proofs.Spec.Parts
import Conform.Proofs.Term.Parts
import Mathlib.Data.Finset.Card
import Mathlib.Logic.Relation

/-!
# Guarded names come to an end

A name makes the specification grow while the value shrinks, so neither of them alone measures what
is left of a match.  `Guarded` says that names refer to one another in a circle only through the
element of a sequence or the field of a row, where the match goes into the value.

* `Asks s v name w`: a match of `v` against `s` may come to a match of `w` against the name.  If the
  later stages of pipelines mention no names, it asks for a name at `v` itself only where no element
  or field is in between, and for all others at lower values: `Asks.bare_or_lower`.
* `canonical_settled`: matches agree if they agree on what they ask for.
* `refer_settled`: what is left of a match is the height of the value first and the `rank` of the
  name second, how many names can follow it at the same value.
* `matching_settled`: from the bound `enough` on, the bound makes no difference, and the match is
  not given up.

`endless_of_guarded` shows why later stages must not mention names: they see what the earlier ones
yield, which can be higher than the value.
-/

namespace Conform

/-! ### Height of values -/

namespace Value

/-- How deep the containers of a value nest. -/
def height (v : Value) : Nat := v.toTerm.height

variable {v : Value}

theorem height_lt_of_elements? {items : List Value} (h : v.elements? = some items) {w : Value}
    (hw : w ∈ items) : w.height < v.height := by
  rw [height, height, toTerm_of_elements? h, Term.height]
  exact Nat.lt_succ_of_le (Term.height_le_heightItems (List.mem_map_of_mem hw))

theorem height_lt_of_mapping? {entries : List Entry} (h : v.mapping? = some entries) {e : Entry}
    (he : e ∈ entries) : e.value.height < v.height := by
  have hnative : v.toNative.mapping? = some (entries.map Entry.toNative) := by
    rw [v.mapping?_toNative, h, Option.map_some]
  cases ht : v.toTerm with
  | map es =>
    rw [toNative, ht] at hnative
    have hes : es.map _ = entries.map Entry.toNative := Option.some.inj hnative
    have hmem : e.toNative ∈ entries.map Entry.toNative := List.mem_map_of_mem he
    rw [← hes] at hmem
    obtain ⟨x, hx, hxe⟩ := List.mem_map.1 hmem
    have hterm : x.2 = e.value.toTerm := congrArg (fun e : Entry => e.value.toTerm) hxe
    rw [height, height, ht, Term.height, ← hterm]
    exact Nat.lt_succ_of_le (Term.height_le_heightEntries hx)
  | _ => rw [toNative, ht] at hnative; cases hnative

theorem height_lt_of_proplist? {entries : List Entry} (h : v.proplist? = some entries) {e : Entry}
    (he : e ∈ entries) : e.value.height < v.height := by
  cases v with
  | document d => cases h
  | native t =>
    -- the value of an entry is two containers below the list, its pair being one of them
    have hpair : e.pair.height ≤ Term.heightItems (entries.map Entry.pair) :=
      Term.height_le_heightItems (List.mem_map_of_mem he)
    have hvalue : e.value.toTerm.height ≤ Term.heightItems [e.key, e.value.toTerm] :=
      Term.height_le_heightItems (List.mem_cons_of_mem e.key List.mem_cons_self)
    rw [Entry.pair, Term.height] at hpair
    rw [eq_list_of_proplist? h, height, height, toTerm, Term.height]
    omega

theorem height_lt_of_first? {s : Spec} {entries : List Entry} (h : s.entries? v = some entries)
    {key : String} {w : Value} (hw : Entry.first? key entries = some w) :
    w.height < v.height := by
  obtain ⟨e, he, rfl⟩ := Option.map_eq_some_iff.1 hw
  have hmem := List.mem_of_find?_eq_some he
  cases s with
  | object => exact height_lt_of_mapping? h hmem
  | proplist => exact height_lt_of_proplist? h hmem
  | _ => cases h

end Value

/-! ### What a match asks for -/

/-- A match of the first value against the specification may come to a match of the second value
against the name. -/
inductive Asks : Spec → Value → String → Value → Prop
  | named (name : String) (v : Value) : Asks (.named name) v name v
  | element {s element : Spec} {v item w : Value} {items : List Value} {name : String} :
    s.element? = some element → v.elements? = some items → item ∈ items →
    Asks element item name w → Asks s v name w
  | field {s spec : Spec} {fields : List Field} {field : Field} {v u w : Value}
    {entries : List Entry} {key name : String} : s.fields? = some fields →
    s.entries? v = some entries → field ∈ fields → field.key? = some key →
    field.spec? = some spec → Entry.first? key entries = some u → Asks spec u name w →
    Asks s v name w
  | first {stage : Spec} {stages : List Spec} {v w : Value} {name : String} :
    Asks stage v name w → Asks (.pipeline (stage :: stages)) v name w
  /-- A later stage sees some term. -/
  | later {stage later : Spec} {stages : List Spec} {v w : Value} {t : Term} {name : String} :
    later ∈ stages → Asks later (.native t) name w → Asks (.pipeline (stage :: stages)) v name w

/-- Two computations have the same outcome, and it is not that they were given up. -/
def Settled {α : Type} (x y : Except Failure α) : Prop := x = y ∧ x ≠ .error .endless

namespace Settled

variable {α β : Type}

theorem ok (a : α) : Settled (.ok a) (.ok a) := ⟨rfl, nofun⟩

theorem fault (p : Path) (f : Fault) :
    Settled (.error (.fault p f) : Except Failure α) (.error (.fault p f)) := ⟨rfl, nofun⟩

theorem bind {x y : Except Failure α} (h : Settled x y) {g k : α → Except Failure β}
    (hg : ∀ a, Settled (g a) (k a)) : Settled (x.bind g) (y.bind k) := by
  obtain ⟨rfl, hne⟩ := h
  cases x with
  | ok a => exact hg a
  | error f => exact ⟨rfl, fun hf => hne (congrArg Except.error (Except.error.inj hf))⟩

theorem compatible : Compatible Settled := ⟨ok, fun h hg => h.bind hg⟩

theorem map {x y : Except Failure α} (h : Settled x y) (g : α → β) :
    Settled (x.map g) (y.map g) :=
  compatible.map h g

theorem mapM {g k : α → Except Failure β} {as : List α} (h : ∀ a ∈ as, Settled (g a) (k a)) :
    Settled (as.mapM g) (as.mapM k) :=
  compatible.mapM (List.forall₂_same.2 h)

end Settled

theorem settled_closeFields (fields : List Field) (entries : List Entry) (p : Path)
    (slots : List (Option Term)) :
    Settled (closeFields fields entries p slots) (closeFields fields entries p slots) := by
  refine ⟨rfl, fun h => ?_⟩
  rcases of_closeFields_eq_error h with ⟨_, _, _, _, hf⟩ | ⟨_, _, hf⟩
  · cases hf
  · cases hf

namespace Spec

variable {refer refer' : String → Matcher}

theorem settled_slot {field : Field} {entries : List Entry} {p : Path}
    (h : ∀ key spec v, field.key? = some key → field.spec? = some spec →
      Entry.first? key entries = some v →
        Settled (spec.canonical refer v (p.field key)) (spec.canonical refer' v (p.field key))) :
    Settled (field.slot refer entries p) (field.slot refer' entries p) := by
  cases field with
  | required key spec =>
    simp only [Field.slot]
    cases hv : Entry.first? key entries with
    | none => exact Settled.fault p _
    | some v => exact (h key spec v rfl rfl hv).map some
  | optional key spec default =>
    simp only [Field.slot]
    cases hv : Entry.first? key entries with
    | none => exact Settled.ok _
    | some v => exact (h key spec v rfl rfl hv).map some
  | rest transform => exact Settled.ok none

theorem settled_through {stages : List Spec} {p : Path}
    (h : ∀ stage ∈ stages, ∀ t,
      Settled (stage.canonical refer (.native t) p) (stage.canonical refer' (.native t) p)) :
    ∀ t, Settled (through refer p stages t) (through refer' p stages t) := by
  induction stages with
  | nil => exact Settled.ok
  | cons stage stages ih =>
    intro t
    rw [through_cons, through_cons]
    exact (h stage List.mem_cons_self t).bind (ih fun s hs => h s (List.mem_cons_of_mem stage hs))

/-- **Matches agree if they agree on what they ask for.** -/
theorem canonical_settled (s : Spec) : ∀ v,
    (∀ name w, Asks s v name w → ∀ p, Settled (refer name w p) (refer' name w p)) →
      ∀ p, Settled (s.canonical refer v p) (s.canonical refer' v p) := by
  induction s using Spec.ind with
  | leaf s judge h =>
    intro v _ p
    rw [canonical_of_judge h, canonical_of_judge h]
    cases judge v with
    | ok t => exact Settled.ok t
    | error f => exact Settled.fault p f
  | sequence s element h ih =>
    intro v hasks p
    rw [canonical_of_element h, canonical_of_element h]
    cases hv : v.elements? with
    | none => exact Settled.fault p _
    | some items =>
      dsimp only
      rw [Matcher.items_eq_mapM, Matcher.items_eq_mapM]
      refine (Settled.mapM fun x hx => ?_).map Term.list
      have hitem : x.1 ∈ items := List.fst_mem_of_mem_zipIdx hx
      exact ih x.1 (fun name w hw => hasks name w (.element h hv hitem hw)) _
  | row s fields h ih =>
    intro v hasks p
    rw [canonical_of_fields h, canonical_of_fields h]
    cases hv : s.entries? v with
    | none => exact Settled.fault p _
    | some entries =>
      dsimp only
      rw [slots_eq_mapM, slots_eq_mapM]
      refine (Settled.mapM fun field hf => settled_slot ?_).bind
        (settled_closeFields fields entries p)
      intro key spec u hkey hspec hu
      exact ih field hf spec hspec u
        (fun name w hw => hasks name w (.field h hv hf hkey hspec hu hw)) _
  | pipeline stages ih =>
    intro v hasks p
    cases stages with
    | nil =>
      rw [canonical, canonical]
      exact Settled.ok _
    | cons stage stages =>
      rw [canonical_pipeline_cons, canonical_pipeline_cons]
      have hfirst := ih stage List.mem_cons_self v (fun name w hw => hasks name w (.first hw)) p
      refine hfirst.bind (settled_through fun later hlater t => ?_)
      exact ih later (List.mem_cons_of_mem stage hlater) (.native t)
        (fun name w hw => hasks name w (.later hlater hw)) p
  | named name =>
    intro v hasks p
    exact hasks name v (.named name v) p

end Spec

/-! ### Bare names -/

namespace Spec

mutual

/-- The names that a specification mentions outside of the elements of sequences and the fields of
rows, so that the value is matched against them itself. -/
def bareNames : Spec → List String
  | pipeline stages => bareStageNames stages
  | named name => [name]
  | _ => []

/-- The bare names of the stages of a pipeline. -/
def bareStageNames : List Spec → List String
  | [] => []
  | stage :: stages => stage.bareNames ++ bareStageNames stages

end

theorem names_subset_of_within {t s : Spec} (h : Within t s) : t.names ⊆ s.names := by
  induction h with
  | refl => exact List.Subset.refl _
  | element he _ ih => rwa [names_of_element he]
  | field hs hf hspec _ ih =>
    rw [names_of_fields hs]
    exact List.Subset.trans ih (names_subset_fieldNames hf hspec)
  | stage hstage _ ih => exact List.Subset.trans ih (names_subset_stageNames hstage)

/-- No stage of a pipeline but the first mentions a name, anywhere in the specification. -/
def LaterStagesNameless (s : Spec) : Prop :=
  ∀ stage stages, Within (pipeline (stage :: stages)) s → ∀ later ∈ stages, later.names = []

namespace LaterStagesNameless

variable {s : Spec}

theorem of_names_eq_nil (h : s.names = []) : s.LaterStagesNameless := by
  intro stage stages hw later hlater
  have hmentioned : later.names ⊆ s.names :=
    List.Subset.trans (names_subset_stageNames (List.mem_cons_of_mem stage hlater))
      (names_subset_of_within hw)
  exact List.subset_nil.1 (h ▸ hmentioned)

theorem named (name : String) : (named name).LaterStagesNameless := by
  intro stage stages hw
  cases hw with
  | element he _ => cases he
  | field hf _ _ _ => cases hf

theorem sequence {element : Spec} (hs : s.element? = some element)
    (h : element.LaterStagesNameless) : s.LaterStagesNameless := by
  intro stage stages hw
  cases hw with
  | refl => cases hs
  | element he hw =>
    obtain rfl := Option.some.inj (hs.symm.trans he)
    exact h stage stages hw
  | field hf _ _ _ => cases s <;> cases hs <;> cases hf
  | stage => cases hs

theorem row {fields : List Field} (hs : s.fields? = some fields)
    (h : ∀ field ∈ fields, ∀ spec, field.spec? = some spec → spec.LaterStagesNameless) :
    s.LaterStagesNameless := by
  intro stage stages hw
  cases hw with
  | refl => cases hs
  | element he _ => cases s <;> cases hs <;> cases he
  | field hf hfield hspec hw =>
    obtain rfl := Option.some.inj (hs.symm.trans hf)
    exact h _ hfield _ hspec stage stages hw
  | stage => cases hs

theorem pipeline {first : Spec} {laters : List Spec} (h : first.LaterStagesNameless)
    (hlaters : ∀ later ∈ laters, later.names = []) :
    (pipeline (first :: laters)).LaterStagesNameless := by
  intro stage stages hw
  cases hw with
  | refl => exact hlaters
  | element he _ => cases he
  | field hf _ _ _ => cases hf
  | stage hstage hw =>
    rcases List.mem_cons.1 hstage with rfl | hstage
    · exact h stage stages hw
    · exact of_names_eq_nil (hlaters _ hstage) stage stages hw

end LaterStagesNameless

end Spec

namespace Asks

variable {s : Spec} {v w : Value} {name : String}

theorem mem_names (h : Asks s v name w) : name ∈ s.names := by
  induction h with
  | named name v => exact List.mem_singleton.2 rfl
  | element he _ _ _ ih => rwa [Spec.names_of_element he]
  | field hs _ hf _ hspec _ _ ih =>
    rw [Spec.names_of_fields hs]
    exact Spec.names_subset_fieldNames hf hspec ih
  | first _ ih => exact Spec.names_subset_stageNames List.mem_cons_self ih
  | later hlater _ ih => exact Spec.names_subset_stageNames (List.mem_cons_of_mem _ hlater) ih

/-- **What is asked for** is a bare name at the value itself, or a name at a lower value. -/
theorem bare_or_lower (h : Asks s v name w) :
    s.LaterStagesNameless → w = v ∧ name ∈ s.bareNames ∨ w.height < v.height := by
  induction h with
  | named name v => exact fun _ => Or.inl ⟨rfl, List.mem_singleton.2 rfl⟩
  | element he hitems hitem _ ih =>
    intro hs
    right
    have hlt := Value.height_lt_of_elements? hitems hitem
    rcases ih fun stage stages hw => hs stage stages (.element he hw) with ⟨rfl, _⟩ | hlower
    · exact hlt
    · exact Nat.lt_trans hlower hlt
  | field hfields hentries hf _ hspec hu _ ih =>
    intro hs
    right
    have hlt := Value.height_lt_of_first? hentries hu
    rcases ih fun stage stages hw => hs stage stages (.field hfields hf hspec hw) with
      ⟨rfl, _⟩ | hlower
    · exact hlt
    · exact Nat.lt_trans hlower hlt
  | first _ ih =>
    intro hs
    rcases ih fun stage stages hw => hs stage stages (.stage List.mem_cons_self hw) with
      ⟨rfl, hname⟩ | hlower
    · exact Or.inl ⟨rfl, List.mem_append_left _ hname⟩
    · exact Or.inr hlower
  | later hlater hasks _ =>
    intro hs
    -- a later stage sees a term of any height, but it mentions no names
    have hnone := hs _ _ (.refl _) _ hlater
    have hname := hasks.mem_names
    rw [hnone] at hname
    cases hname

end Asks

/-! ### Ranks of names -/

namespace Definitions

/-- The definition of the first name mentions the second one bare. -/
def Bare (defs : Definitions) (name other : String) : Prop :=
  ∃ s, defs.find? name = some s ∧ other ∈ s.bareNames

/-- Names refer to one another in a circle only through an element or a field. -/
def Guarded (defs : Definitions) : Prop := ∀ name, ¬ Relation.TransGen defs.Bare name name

theorem guarded_of_lt {defs : Definitions} (order : String → Nat)
    (h : ∀ name other, defs.Bare name other → order other < order name) : defs.Guarded := by
  have hdown : ∀ name other, Relation.TransGen defs.Bare name other →
      order other < order name := by
    intro name other htrans
    induction htrans with
    | single hbare => exact h name _ hbare
    | tail _ hbare ih => exact Nat.lt_trans (h _ _ hbare) ih
  exact fun name htrans => Nat.lt_irrefl _ (hdown name name htrans)

theorem pair_mem_of_find? {defs : Definitions} {name : String} {s : Spec}
    (h : defs.find? name = some s) : (name, s) ∈ defs := by
  obtain ⟨d, hd, rfl⟩ := Option.map_eq_some_iff.1 h
  have hname : d.1 = name := by simpa using List.find?_some hd
  exact hname ▸ List.mem_of_find?_eq_some hd

theorem find?_isSome_iff {defs : Definitions} {name : String} :
    (∃ s, defs.find? name = some s) ↔ name ∈ defs.map Prod.fst := by
  rw [← Option.isSome_iff_exists, find?, Option.isSome_map, List.find?_isSome, List.mem_map]
  simp

open Classical in
/-- The defined names that are met at the same value after a name. -/
noncomputable def following (defs : Definitions) (name : String) : Finset String :=
  (defs.map Prod.fst).toFinset.filter fun other => Relation.TransGen defs.Bare name other

open Classical in
/-- How many names a match may follow at the same value, from a name on. -/
noncomputable def rank (defs : Definitions) (name : String) : Nat :=
  if name ∈ defs.map Prod.fst then (defs.following name).card + 2 else 1

variable {defs : Definitions}

theorem mem_following {name other : String} :
    other ∈ defs.following name ↔
      other ∈ (defs.map Prod.fst).toFinset ∧ Relation.TransGen defs.Bare name other := by
  classical
  exact Finset.mem_filter

theorem rank_pos (defs : Definitions) (name : String) : 0 < defs.rank name := by
  unfold rank
  split <;> omega

theorem rank_le (h : defs.Guarded) (name : String) : defs.rank name ≤ defs.length + 1 := by
  unfold rank
  split
  · rename_i hname
    -- a guarded name does not follow itself
    have hsub : defs.following name ⊆ (defs.map Prod.fst).toFinset.erase name := by
      intro other hother
      obtain ⟨hmem, htrans⟩ := mem_following.1 hother
      exact Finset.mem_erase.2 ⟨fun heq => h name (heq ▸ htrans), hmem⟩
    have hcard := Finset.card_le_card hsub
    rw [Finset.card_erase_of_mem (List.mem_toFinset.2 hname)] at hcard
    have hall : (defs.map Prod.fst).toFinset.card ≤ defs.length := by
      have := List.toFinset_card_le (defs.map Prod.fst)
      rwa [List.length_map] at this
    have hpos : 0 < defs.length := by
      have := List.length_pos_of_mem hname
      rwa [List.length_map] at this
    omega
  · omega

theorem rank_lt (h : defs.Guarded) {name other : String} (hbare : defs.Bare name other) :
    defs.rank other < defs.rank name := by
  obtain ⟨s, hs, _⟩ := id hbare
  have hname : name ∈ defs.map Prod.fst := find?_isSome_iff.1 ⟨s, hs⟩
  rw [rank, rank, if_pos hname]
  split
  · rename_i hother
    -- what follows the bare name follows the other one too, and so does the bare name itself
    have hlt : (defs.following other).card < (defs.following name).card := by
      refine Finset.card_lt_card ⟨fun third hthird => ?_, fun hsub => ?_⟩
      · obtain ⟨hmem, htrans⟩ := mem_following.1 hthird
        exact mem_following.2 ⟨hmem, .head hbare htrans⟩
      · have hmem : other ∈ defs.following name :=
          mem_following.2 ⟨List.mem_toFinset.2 hother, .single hbare⟩
        exact h other (mem_following.1 (hsub hmem)).2
    omega
  · omega

/-! ### The bound -/

/-- How many names in a row are enough for a value. -/
def enough (defs : Definitions) (v : Value) : Nat := (v.height + 1) * (defs.length + 1)

/-- What remains for a name at a value, once as many names as this may still be followed. -/
noncomputable def need (defs : Definitions) (name : String) (v : Value) : Nat :=
  v.height * (defs.length + 1) + defs.rank name

theorem need_le_of_height_lt (h : defs.Guarded) (name : String) {v w : Value}
    (hlt : w.height < v.height) : defs.need name w ≤ v.height * (defs.length + 1) := by
  have hrank := rank_le h name
  have hmul : (w.height + 1) * (defs.length + 1) ≤ v.height * (defs.length + 1) :=
    Nat.mul_le_mul_right _ hlt
  rw [Nat.succ_mul] at hmul
  unfold need
  omega

/-- **Names settle**: once enough of them may be followed, it does not matter how many. -/
theorem refer_settled (h : defs.Guarded) (hdefs : ∀ d ∈ defs, d.2.LaterStagesNameless) (n : Nat) :
    ∀ m name v, defs.need name v ≤ n → defs.need name v ≤ m →
      ∀ p, Settled (defs.refer n name v p) (defs.refer m name v p) := by
  induction n with
  | zero =>
    intro m name v hn
    have := rank_pos defs name
    unfold need at hn
    omega
  | succ n ih =>
    intro m name v hn hm p
    cases m with
    | zero =>
      have := rank_pos defs name
      unfold need at hm
      omega
    | succ m =>
      cases hfind : defs.find? name with
      | none =>
        rw [refer_of_not_find? hfind, refer_of_not_find? hfind]
        exact ⟨rfl, nofun⟩
      | some s =>
        obtain ⟨d, hd, rfl⟩ := mem_of_find? hfind
        rw [refer_of_find? hfind, refer_of_find? hfind]
        refine Spec.canonical_settled d.2 v (fun other w hasks => ?_) p
        -- either the rank goes down at this value, or the height does and the rank starts anew
        have hneed : defs.need other w < defs.need name v := by
          rcases hasks.bare_or_lower (hdefs d hd) with ⟨rfl, hbare⟩ | hlower
          · have hrank := rank_lt h ⟨d.2, hfind, hbare⟩
            unfold need
            omega
          · have hle := need_le_of_height_lt h other hlower
            have hpos := rank_pos defs name
            rw [need.eq_1 defs name v]
            omega
        exact ih m other w (by omega) (by omega)

/-- **Guarded recursion comes to an end.**  If names refer to one another in a circle only through
elements and fields, and later stages mention no names, then from a bound on that depends only on
the height of the value and the number of definitions, the match has one outcome at every path,
whatever the predicates and conversions are, and it is not given up. -/
theorem matching_settled (h : defs.Guarded) (hdefs : ∀ d ∈ defs, d.2.LaterStagesNameless)
    {spec : Spec} (hspec : spec.LaterStagesNameless) (v : Value) {bound : Nat}
    (hbound : defs.enough v ≤ bound) (p : Path) :
    defs.matching bound spec v p = defs.matching (defs.enough v) spec v p ∧
      defs.matching bound spec v p ≠ .error .endless := by
  refine Spec.canonical_settled spec v (fun name w hasks => ?_) p
  have hneed : defs.need name w ≤ defs.enough v := by
    rw [enough, Nat.succ_mul]
    rcases hasks.bare_or_lower hspec with ⟨rfl, _⟩ | hlower
    · have hrank := rank_le h name
      unfold need
      omega
    · have hle := need_le_of_height_lt h name hlower
      omega
  exact refer_settled h hdefs bound (defs.enough v) name w (by omega) hneed

/-- A tree in which a forest mentions a node bare and a node mentions a forest in a field: three
names in a row are not enough, and from fifteen on nothing changes. -/
theorem matching_settled_of_tree :
    let forest : Spec := .pipeline [.named "node", .satisfy (fun t => t.kind == .tuple) "a node"]
    let node : Spec := .object [.required "children" (.list (.named "forest"))]
    let defs : Definitions := [("forest", forest), ("node", node)]
    let leaf : Document := .object [("children", .array [])]
    let v : Value := .document (.object [("children", .array [leaf, leaf])])
    let t : Term := .tuple [.list [.tuple [.list []], .tuple [.list []]]]
    defs.Guarded ∧ (∀ d ∈ defs, d.2.LaterStagesNameless) ∧ defs.enough v = 15 ∧
      defs.matching 3 (.named "forest") v Path.root = .error .endless ∧
      defs.matching longestChain (.named "forest") v Path.root = .ok t := by
  intro forest node defs leaf v t
  have hguarded : defs.Guarded := by
    refine guarded_of_lt (fun name => if name = "forest" then 1 else 0) ?_
    rintro name other ⟨s, hs, hmem⟩
    have hentry : (name, s) ∈ defs := pair_mem_of_find? hs
    simp only [defs, List.mem_cons, List.not_mem_nil, or_false, Prod.mk.injEq] at hentry
    rcases hentry with ⟨rfl, rfl⟩ | ⟨rfl, rfl⟩
    · obtain rfl : other = "node" := List.mem_singleton.1 hmem
      decide
    · cases hmem
  have hforest : forest.LaterStagesNameless := by
    refine .pipeline (.named "node") fun later hlater => ?_
    rw [List.mem_singleton.1 hlater]
    rfl
  have hnode : node.LaterStagesNameless := by
    refine .row rfl fun field hfield spec hspec => ?_
    rw [List.mem_singleton.1 hfield] at hspec
    cases hspec
    exact .sequence rfl (.named "forest")
  have hdefs : ∀ d ∈ defs, d.2.LaterStagesNameless := by
    intro d hd
    simp only [defs, List.mem_cons, List.not_mem_nil, or_false] at hd
    rcases hd with rfl | rfl
    · exact hforest
    · exact hnode
  have henough : defs.enough v = 15 := by decide
  have hbound : defs.enough v ≤ longestChain := by
    rw [henough]
    decide
  refine ⟨hguarded, hdefs, henough, by rfl, ?_⟩
  rw [(matching_settled hguarded hdefs (.named "forest") v hbound Path.root).1, henough]
  rfl

/-- Guardedness alone is not enough: a later stage that mentions a name sees a higher list each
time. -/
theorem endless_of_guarded :
    let wrap : Spec := .convert (fun t => .ok (.list [t])) "one more level"
    let defs : Definitions := [("deeper", .pipeline [wrap, .list (.named "deeper")])]
    defs.Guarded ∧ ∀ bound v p, defs.matching bound (.named "deeper") v p = .error .endless := by
  intro wrap defs
  have hdeeper : defs.find? "deeper" = some (.pipeline [wrap, .list (.named "deeper")]) := rfl
  refine ⟨guarded_of_lt (fun _ => 0) fun name other ⟨s, hs, hmem⟩ => ?_, fun bound => ?_⟩
  · obtain ⟨_, rfl⟩ := Prod.mk.inj (List.mem_singleton.1 (pair_mem_of_find? hs))
    cases hmem
  · induction bound with
    | zero => exact fun v p => rfl
    | succ bound ih =>
      intro v p
      have hagain : defs.refer bound "deeper" (.native v.toTerm) (p.index 0) = .error .endless :=
        ih (.native v.toTerm) (p.index 0)
      show defs.refer (bound + 1) "deeper" v p = .error .endless
      rw [refer_of_find? hdeeper, Spec.canonical_pipeline_cons]
      show (((defs.refer bound "deeper" (.native v.toTerm) (p.index 0)).bind _).map _).bind _ = _
      rw [hagain]
      rfl

end Definitions

end Conform
