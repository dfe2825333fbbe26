import Conform.Proofs.Fields.Sound
import Conform.Proofs.Spec.Parts

/-!
# Checked rows of fields

An object or a proplist is built only of a row of fields that is sound.  A row that is not is
rejected at the first field that cannot follow those before it, `Field.FirstDefect`: it declares a
key of theirs, or it is a rest directive after another one.

* `Field.defectAfter?_eq_some_iff`: the keys and the rest directive that were seen are those of the
  fields that are done, and the check stops where these and the next one are no longer sound.
* `Spec.Built`: a specification whose rows have all been checked.  These are the well-formed ones,
  `Spec.built_iff`, and so are all that a match of one comes to, `Spec.WellFormed.reached`.
* `Field.row_check`: what is built of a row, what is rejected and with which defect.
-/

namespace Conform

namespace Field

/-! ### The first defect -/

/-- The field cannot follow the others: it declares a key of theirs, or it is a second rest
directive. -/
inductive Repeats (before : List Field) : Field → SpecDefect → Prop
  | key {field : Field} {key : String} : field.key? = some key → key ∈ keys before →
    Repeats before field (.duplicateField key)
  | rest {transform other : Conversion} : rest other ∈ before →
    Repeats before (rest transform) .duplicateRest

/-- The defect of the first field at which the row is no longer sound. -/
def FirstDefect (fields : List Field) (defect : SpecDefect) : Prop :=
  ∃ before field after, fields = before ++ field :: after ∧ Sound before ∧
    ¬ Sound (before ++ [field]) ∧ Repeats before field defect

theorem keys_append (fields others : List Field) :
    keys (fields ++ others) = keys fields ++ keys others :=
  List.filterMap_append

theorem Sound.of_append {fields others : List Field} (h : Sound (fields ++ others)) :
    Sound fields := by
  obtain ⟨hkeys, hrest⟩ := h
  rw [keys_append] at hkeys
  rw [List.filterMap_append, List.length_append] at hrest
  exact ⟨(List.nodup_append.1 hkeys).1, by omega⟩

theorem Repeats.not_sound {before : List Field} {field : Field} {defect : SpecDefect}
    (h : Repeats before field defect) : ¬ Sound (before ++ [field]) := by
  rintro ⟨hkeys, hrest⟩
  cases h with
  | key hkey hmem =>
    have hsingle : keys [field] = [_] := List.filterMap_cons_some hkey
    rw [keys_append, hsingle] at hkeys
    exact (List.nodup_append.1 hkeys).2.2 _ hmem _ (List.mem_singleton.2 rfl) rfl
  | @rest transform other hmem =>
    have hother : other ∈ before.filterMap transform? := List.mem_filterMap.2 ⟨_, hmem, rfl⟩
    have hpos := List.length_pos_of_mem hother
    have hsingle : [Field.rest transform].filterMap transform? = [transform] := rfl
    rw [List.filterMap_append, List.length_append, hsingle, List.length_singleton] at hrest
    omega

/-- A sound row goes on being sound with a field that repeats nothing. -/
theorem Sound.append_singleton {before : List Field} (h : Sound before) {field : Field}
    (hfield : ∀ defect, ¬ Repeats before field defect) : Sound (before ++ [field]) := by
  obtain ⟨hkeys, hrest⟩ := h
  rw [Sound, keys_append, List.filterMap_append, List.length_append]
  cases hkey : field.key? with
  | some key =>
    have hsingle : keys [field] = [key] := List.filterMap_cons_some hkey
    have htransform : [field].filterMap transform? = [] :=
      List.filterMap_cons_none (transform?_of_key? hkey)
    have hnew : key ∉ keys before := fun hmem => hfield _ (.key hkey hmem)
    rw [hsingle, htransform]
    refine ⟨List.nodup_append.2 ⟨hkeys, List.nodup_singleton key, fun k hk l hl heq => ?_⟩, hrest⟩
    rw [List.mem_singleton.1 hl] at heq
    exact hnew (heq ▸ hk)
  | none =>
    obtain ⟨transform, rfl⟩ := eq_rest_of_key? hkey
    have hnone : before.filterMap transform? = [] := by
      refine List.eq_nil_iff_forall_not_mem.2 fun other hother => ?_
      obtain ⟨f, hf, ht⟩ := List.mem_filterMap.1 hother
      cases f with
      | required | optional => cases ht
      | rest => exact hfield _ (.rest hf)
    have hsingle : keys [rest transform] = [] := rfl
    rw [hsingle, hnone, List.append_nil]
    exact ⟨hkeys, Nat.le_refl 1⟩

/-- The row after the fields that are done has a first field that cannot follow those before it. -/
def Stops (done fields : List Field) (defect : SpecDefect) : Prop :=
  ∃ before field after, fields = before ++ field :: after ∧ Sound (done ++ before) ∧
    Repeats (done ++ before) field defect

theorem stops_cons_iff {done fields : List Field} {field : Field} {defect : SpecDefect} :
    Stops done (field :: fields) defect ↔
      Sound done ∧ Repeats done field defect ∨ Stops (done ++ [field]) fields defect := by
  have hassoc : ∀ before, done ++ field :: before = done ++ [field] ++ before := by
    intro before
    rw [List.append_assoc]
    rfl
  constructor
  · rintro ⟨before, f, after, hrow, hsound, hrep⟩
    cases before with
    | nil =>
      obtain ⟨rfl, rfl⟩ := List.cons.inj hrow
      rw [List.append_nil] at hsound hrep
      exact Or.inl ⟨hsound, hrep⟩
    | cons g before =>
      obtain ⟨rfl, rfl⟩ := List.cons.inj hrow
      rw [hassoc] at hsound hrep
      exact Or.inr ⟨before, f, after, rfl, hsound, hrep⟩
  · rintro (⟨hsound, hrep⟩ | ⟨before, f, after, rfl, hsound, hrep⟩)
    · exact ⟨[], field, fields, rfl, by rwa [List.append_nil], by rwa [List.append_nil]⟩
    · exact ⟨field :: before, f, after, rfl, by rwa [hassoc], by rwa [hassoc]⟩

/-- Behind a field that repeats something no prefix is sound, so the row stops there or not at
all. -/
theorem stops_cons_iff_of_repeats {done fields : List Field} {field : Field}
    {first defect : SpecDefect} (hdone : Sound done) (hfirst : Repeats done field first) :
    Stops done (field :: fields) defect ↔ first = defect := by
  have hlater : ¬ Stops (done ++ [field]) fields defect := by
    rintro ⟨before, _, _, _, hsound, _⟩
    exact hfirst.not_sound hsound.of_append
  rw [stops_cons_iff, or_iff_left hlater, and_iff_right hdone]
  constructor
  · intro h
    cases hfirst with
    | key hkey _ =>
      cases h with
      | key hkey' _ => rw [Option.some.inj (hkey.symm.trans hkey')]
      | rest => cases hkey
    | rest =>
      cases h with
      | key hkey' _ => cases hkey'
      | rest => rfl
  · rintro rfl
    exact hfirst

/-- **The loop of the check.**  With the keys of a sound row that is done, and with its rest
directive if it has one, the check of the fields behind it stops at the first one that cannot
follow. -/
theorem defectAfter?_eq_some_iff {defect : SpecDefect} (fields : List Field) :
    ∀ {done : List Field} {seen : List String} {restSeen : Bool}, Sound done →
      (∀ key, key ∈ seen ↔ key ∈ keys done) →
      (restSeen = true ↔ ∃ transform, rest transform ∈ done) →
      (defectAfter? seen restSeen fields = some defect ↔ Stops done fields defect) := by
  -- a field either repeats something, and both sides stop at it, or it joins those that are done
  induction fields with
  | nil =>
    intro done seen restSeen _ _ _
    constructor
    · intro h
      cases h
    · rintro ⟨before, field, after, h, _⟩
      exact absurd h.symm (List.append_ne_nil_of_right_ne_nil before (List.cons_ne_nil field after))
  | cons field fields ih =>
    intro done seen restSeen hdone hseen hrest
    cases hkey : field.key? with
    | some key =>
      rw [defectAfter?, hkey]
      dsimp only
      by_cases hmem : key ∈ seen
      · rw [if_pos hmem, Option.some_inj]
        exact (stops_cons_iff_of_repeats hdone (.key hkey ((hseen key).1 hmem))).symm
      · have hnew : ∀ d, ¬ Repeats done field d := by
          intro d hd
          cases hd with
          | key hkey' hk =>
            rw [← Option.some.inj (hkey.symm.trans hkey')] at hk
            exact hmem ((hseen key).2 hk)
          | rest => cases hkey
        have hsingle : keys [field] = [key] := List.filterMap_cons_some hkey
        rw [if_neg hmem, stops_cons_iff, or_iff_right fun h => hnew _ h.2]
        refine ih (hdone.append_singleton hnew) (fun k => ?_) (hrest.trans ?_)
        · rw [List.mem_cons, keys_append, hsingle, List.mem_append, List.mem_singleton, hseen,
            or_comm]
        · refine exists_congr fun transform => ?_
          rw [List.mem_append, List.mem_singleton]
          exact (or_iff_left fun h => by rw [← h] at hkey; cases hkey).symm
    | none =>
      obtain ⟨transform, rfl⟩ := eq_rest_of_key? hkey
      rw [defectAfter?, hkey]
      dsimp only
      cases restSeen with
      | true =>
        obtain ⟨other, hother⟩ := hrest.1 rfl
        rw [if_pos rfl, Option.some_inj]
        exact (stops_cons_iff_of_repeats hdone (.rest hother)).symm
      | false =>
        have hnew : ∀ d, ¬ Repeats done (rest transform) d := by
          intro d hd
          cases hd with
          | key hkey' _ => cases hkey'
          | rest hother => cases hrest.2 ⟨_, hother⟩
        rw [if_neg Bool.false_ne_true, stops_cons_iff, or_iff_right fun h => hnew _ h.2]
        refine ih (hdone.append_singleton hnew) (fun k => ?_) ?_
        · have hsingle : keys [rest transform] = [] := rfl
          rw [keys_append, hsingle, List.append_nil, hseen]
        · exact iff_of_true rfl ⟨transform, List.mem_append_right done (List.mem_singleton.2 rfl)⟩

/-- **A row is rejected with its first defect.** -/
theorem defect?_eq_some_iff {fields : List Field} {defect : SpecDefect} :
    defect? fields = some defect ↔ FirstDefect fields defect := by
  have hnil : Sound [] := ⟨List.nodup_nil, Nat.zero_le 1⟩
  have hloop : defectAfter? [] false fields = some defect ↔ Stops [] fields defect :=
    defectAfter?_eq_some_iff fields hnil (fun key => by simp [keys]) (by simp)
  rw [defect?, hloop]
  constructor
  · rintro ⟨before, field, after, hrow, hsound, hrep⟩
    exact ⟨before, field, after, hrow, hsound, hrep.not_sound, hrep⟩
  · rintro ⟨before, field, after, hrow, hsound, _, hrep⟩
    exact ⟨before, field, after, hrow, hsound, hrep⟩

theorem declares_eq_true_iff {fields : List Field} {key : String} :
    declares fields key = true ↔ ∃ field ∈ fields, field.key? = some key := by
  rw [declares, List.any_eq_true]
  exact exists_congr fun field => and_congr_right fun _ => beq_iff_eq

end Field

/-! ### What is built -/

namespace Spec

/-- The constructor makes a specification of a row once it has checked it. -/
structure Checks (build : List Field → Except SpecDefect Spec) (make : List Field → Spec) :
    Prop where
  fields (fields : List Field) : (make fields).fields? = some fields
  eq (fields : List Field) : build fields =
    match Field.defect? fields with
    | none => .ok (make fields)
    | some defect => .error defect

theorem checks_object : Checks object? object := ⟨fun _ => rfl, fun _ => rfl⟩

theorem checks_proplist : Checks proplist? proplist := ⟨fun _ => rfl, fun _ => rfl⟩

namespace Checks

variable {build : List Field → Except SpecDefect Spec} {make : List Field → Spec}
  {fields : List Field}

theorem eq_ok_iff (h : Checks build make) {s : Spec} :
    build fields = .ok s ↔ Field.Sound fields ∧ s = make fields := by
  rw [h.eq, ← Field.defect?_eq_none_iff]
  cases Field.defect? fields with
  | none => simp [eq_comm]
  | some => simp

theorem eq_error_iff (h : Checks build make) {defect : SpecDefect} :
    build fields = .error defect ↔ Field.FirstDefect fields defect := by
  rw [h.eq, ← Field.defect?_eq_some_iff]
  cases Field.defect? fields <;> simp

end Checks

/-- A specification that is put together part by part, its objects and proplists by the
constructors that check a row. -/
inductive Built : Spec → Prop
  | leaf {s : Spec} {judge : Value → Except Fault Term} : s.judge? = some judge → Built s
  | sequence {s element : Spec} : s.element? = some element → Built element → Built s
  | object {s : Spec} {fields : List Field} :
    (∀ field ∈ fields, ∀ spec, field.spec? = some spec → Built spec) → object? fields = .ok s →
    Built s
  | proplist {s : Spec} {fields : List Field} :
    (∀ field ∈ fields, ∀ spec, field.spec? = some spec → Built spec) → proplist? fields = .ok s →
    Built s
  | pipeline {stages : List Spec} : (∀ stage ∈ stages, Built stage) → Built (pipeline stages)
  | named (name : String) : Built (named name)

theorem wellFormedFields_iff {fields : List Field} :
    WellFormedFields fields ↔
      ∀ field ∈ fields, ∀ spec, field.spec? = some spec → spec.WellFormed := by
  refine ⟨fun h field hf spec hspec => WellFormed.of_mem_fields h hf hspec, fun h => ?_⟩
  induction fields with
  | nil => exact trivial
  | cons field fields ih =>
    obtain ⟨hfirst, hothers⟩ := List.forall_mem_cons.1 h
    cases field with
    | required | optional =>
      rw [WellFormedFields]
      exact ⟨hfirst _ rfl, ih hothers⟩
    | rest =>
      rw [WellFormedFields]
      exact ih hothers

theorem wellFormed_pipeline_iff {stages : List Spec} :
    (pipeline stages).WellFormed ↔ ∀ stage ∈ stages, stage.WellFormed := by
  refine ⟨fun h stage hs => h.stage hs, fun h => ?_⟩
  rw [WellFormed]
  induction stages with
  | nil => exact trivial
  | cons stage stages ih =>
    rw [WellFormedStages]
    obtain ⟨hfirst, hothers⟩ := List.forall_mem_cons.1 h
    exact ⟨hfirst, ih hothers⟩

/-- **What is built is what is well-formed.** -/
theorem built_iff {s : Spec} : s.Built ↔ s.WellFormed := by
  constructor
  · intro h
    induction h with
    | @leaf s _ hj => cases s with
      | array | list | object | proplist | pipeline | named => cases hj
      | _ => exact trivial
    | @sequence s _ he _ ih => cases s with
      | array | list => cases he; rw [WellFormed]; exact ih
      | _ => cases he
    | object _ hbuild ih =>
      obtain ⟨hsound, rfl⟩ := checks_object.eq_ok_iff.1 hbuild
      rw [WellFormed]
      exact ⟨hsound, wellFormedFields_iff.2 ih⟩
    | proplist _ hbuild ih =>
      obtain ⟨hsound, rfl⟩ := checks_proplist.eq_ok_iff.1 hbuild
      rw [WellFormed]
      exact ⟨hsound, wellFormedFields_iff.2 ih⟩
    | pipeline _ ih => exact wellFormed_pipeline_iff.2 ih
    | named => exact trivial
  · intro h
    induction s using Spec.ind with
    | leaf _ _ hj => exact .leaf hj
    | sequence _ _ he ih => exact .sequence he (ih (h.element he))
    | row s fields hs ih =>
      obtain ⟨hsound, hfields⟩ := h.fields hs
      have hbuilt : ∀ field ∈ fields, ∀ spec, field.spec? = some spec → Built spec :=
        fun field hf spec hspec =>
          ih field hf spec hspec (WellFormed.of_mem_fields hfields hf hspec)
      cases s with
      | object =>
        cases hs
        exact .object hbuilt (checks_object.eq_ok_iff.2 ⟨hsound, rfl⟩)
      | proplist =>
        cases hs
        exact .proplist hbuilt (checks_proplist.eq_ok_iff.2 ⟨hsound, rfl⟩)
      | _ => cases hs
    | pipeline stages ih => exact .pipeline fun stage hstage => ih stage hstage (h.stage hstage)
    | named name => exact .named name

/-- What is met from a well-formed specification is well-formed. -/
theorem WellFormed.reached {defs : Definitions} (hdefs : ∀ d ∈ defs, d.2.WellFormed) {s t : Spec}
    (h : defs.Reaches s t) (hs : s.WellFormed) : t.WellFormed := by
  induction h with
  | refl => exact hs
  | element he _ ih => exact ih (hs.element he)
  | field hf hm hspec _ ih => exact ih (WellFormed.of_mem_fields (hs.fields hf).2 hm hspec)
  | stage hm _ ih => exact ih (hs.stage hm)
  | name hfind _ ih =>
    obtain ⟨d, hd, rfl⟩ := Definitions.mem_of_find? hfind
    exact ih (hdefs d hd)

end Spec

/-! ### The check of a row -/

namespace Field

/-- **The check of a row.**  An object or a proplist is built of exactly the sound rows and keeps
the row as it is; a row that is not sound is rejected with its first defect.  So every row that a
match of what is built comes to is sound. -/
theorem row_check {build : List Field → Except SpecDefect Spec}
    (hbuild : build = Spec.object? ∨ build = Spec.proplist?) (fields : List Field) :
    ((∃ s, build fields = .ok s) ↔ Sound fields) ∧
      (∀ s, build fields = .ok s → s.fields? = some fields ∧
        ∀ key, declares fields key = true ↔ ∃ field ∈ fields, field.key? = some key) ∧
      (∀ defect, build fields = .error defect ↔ FirstDefect fields defect) ∧
      ∀ (defs : Definitions) (s t : Spec), (∀ d ∈ defs, d.2.Built) → s.Built → defs.Reaches s t →
        t.fields? = some fields → Sound fields := by
  obtain ⟨make, hchecks⟩ : ∃ make, Spec.Checks build make := by
    rcases hbuild with rfl | rfl
    · exact ⟨_, Spec.checks_object⟩
    · exact ⟨_, Spec.checks_proplist⟩
  refine ⟨?_, fun s hs => ?_, fun defect => hchecks.eq_error_iff,
    fun defs s t hdefs hs hreach ht => ?_⟩
  · simp only [hchecks.eq_ok_iff, exists_and_left, exists_eq, and_true]
  · obtain ⟨_, rfl⟩ := hchecks.eq_ok_iff.1 hs
    exact ⟨hchecks.fields fields, fun _ => declares_eq_true_iff⟩
  · have hwell := Spec.WellFormed.reached (fun d hd => Spec.built_iff.1 (hdefs d hd)) hreach
      (Spec.built_iff.1 hs)
    exact (hwell.fields ht).1

/-- A row with both defects, the key before the directive and then the directive before the key. -/
theorem row_check_of_both_defects :
    let first : List Field := [.required "a" .integer, restIdentity, .optional "b" .any .null]
    let key : Field := .optional "a" .string .null
    (Spec.object? = Spec.object? ∨ Spec.object? = Spec.proplist?) ∧
      (∃ s, Spec.object? first = .ok s ∧ s.fields? = some first) ∧
      FirstDefect (first ++ [key, restIdentity]) (.duplicateField "a") ∧
      FirstDefect (first ++ [restIdentity, key]) .duplicateRest ∧
      ¬ Sound (first ++ [restIdentity, key]) := by
  intro first key
  have hform : Spec.object? = Spec.object? ∨ Spec.object? = Spec.proplist? := Or.inl rfl
  have hkey := row_check hform (first ++ [key, restIdentity])
  have hrest := row_check hform (first ++ [restIdentity, key])
  have hrejected : Spec.object? (first ++ [restIdentity, key]) = .error .duplicateRest := by rfl
  refine ⟨hform, ⟨_, rfl, rfl⟩, (hkey.2.2.1 _).1 rfl, (hrest.2.2.1 _).1 hrejected, fun hsound => ?_⟩
  obtain ⟨s, hs⟩ := hrest.1.2 hsound
  exact nomatch hrejected.symm.trans hs

end Field

end Conform
