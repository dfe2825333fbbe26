import Conform.Proofs.Canonical.Doors
import Conform.Proofs.Canonical.Relocation
import Conform.Proofs.Spec.Parts
import Conform.Proofs.Term.Equality

/-!
# Matches that change nothing

Only a row of fields and a conversion rewrite what they are given.  A specification that is built
without them, and whose literals hold no float, is `Verbatim`: what it accepts comes out as its
native form, node by node, and is accepted again as that.  Floats have to be left out of literals
because `0.0` and `-0.0` are the same and a `member` yields its own literal.

* `canonical_verbatim`: the canonical form is the native form, by induction on the specification.
* `matching_verbatim`: and a second match yields it again, since the native form is matched as the
  value was (`canonical_follows`) and the path does not matter (`matching_eq_ok_at`).
-/

namespace Conform

/-- The node rewrites nothing by itself: it is neither a row of fields nor a conversion, and its
literals hold no float. -/
def Spec.PassesOn : Spec → Prop
  | .object _ | .proplist _ | .convert _ _ => False
  | .member literals => ∀ literal ∈ literals, literal.floats = []
  | _ => True

-- A literal with a float need not be what it accepts.
example : Definitions.matching [] 0 (.member [.float (Double.zero false)])
    (.native (.float (Double.zero true))) Path.root = .ok (.float (Double.zero false)) := by rfl

/-- Nothing rewrites in the specification nor in what its names stand for. -/
def Definitions.Verbatim (defs : Definitions) (s : Spec) : Prop :=
  ∀ t, defs.Reaches s t → t.PassesOn

namespace Definitions.Verbatim

variable {defs : Definitions} {s : Spec}

theorem of_judge {judge : Value → Except Fault Term} (h : s.judge? = some judge)
    (hs : s.PassesOn) : defs.Verbatim s := by
  intro t ht
  rw [(reaches_of_judge h).1 ht]
  exact hs

theorem sequence {element : Spec} (h : s.element? = some element) (he : defs.Verbatim element) :
    defs.Verbatim s := by
  intro t ht
  rcases (reaches_of_element h).1 ht with rfl | ht
  · cases t <;> first | exact trivial | cases h
  · exact he t ht

theorem pipeline {stages : List Spec} (h : ∀ stage ∈ stages, defs.Verbatim stage) :
    defs.Verbatim (.pipeline stages) := by
  intro t ht
  rcases reaches_pipeline.1 ht with rfl | ⟨stage, hstage, ht⟩
  · exact trivial
  · exact h stage hstage t ht

theorem named {name : String} (h : defs.find? name = some s) (hs : defs.Verbatim s) :
    defs.Verbatim (.named name) := by
  intro t ht
  rcases (reaches_named h).1 ht with rfl | ht
  · exact trivial
  · exact hs t ht

end Definitions.Verbatim

/-- A matcher that yields the native form of whatever it accepts. -/
def Matcher.Verbatim (m : Matcher) : Prop := ∀ v p t, m v p = .ok t → t = v.toTerm

theorem Matcher.Verbatim.items {m : Matcher} (h : m.Verbatim) (p : Path) (vs : List Value) :
    ∀ i ts, m.items p i vs = .ok ts → ts = vs.map Value.toTerm := by
  induction vs with
  | nil =>
    intro i ts hts
    cases hts
    rfl
  | cons v vs ih =>
    intro i ts hts
    have hstep : m.items p i (v :: vs) =
        (m v (p.index i)).bind fun t => (m.items p (i + 1) vs).map (t :: ·) := rfl
    rw [hstep, bind_eq_ok_iff] at hts
    obtain ⟨t, ht, hts⟩ := hts
    obtain ⟨us, hus, rfl⟩ := map_eq_ok_iff.1 hts
    rw [List.map_cons, h v _ t ht, ih _ us hus]

namespace Spec

variable {defs : Definitions} {refer : String → Matcher}

theorem verbatim_of_judge {s : Spec} {judge : Value → Except Fault Term}
    (h : s.judge? = some judge) (hs : s.PassesOn) {v : Value} {t : Term} (ht : judge v = .ok t) :
    t = v.toTerm := by
  cases s with
  | array | list | object | proplist | pipeline | named => cases h
  | any =>
    cases h
    cases ht
    rfl
  | string | number | integer | boolean =>
    cases h
    exact (of_judgeKind ht).2
  | member literals =>
    cases h
    dsimp only at ht
    split at ht
    · rename_i literal hl
      obtain rfl : literal = t := Except.ok.inj ht
      have hfloats : literal.floats = [] := hs literal (List.mem_of_find?_eq_some hl)
      have hsame : literal.same v.toTerm = true := by simpa using List.find?_some hl
      -- the literal is yielded in place of the value, and without floats in it they are equal
      exact Term.eq_of_same hsame (by simp [hfloats])
    · cases ht
  | satisfy predicate description =>
    cases h
    dsimp only at ht
    split at ht
    · cases ht
      rfl
    · cases ht
  | convert function description => exact hs.elim

theorem through_verbatim {stages : List Spec}
    (h : ∀ stage ∈ stages, Matcher.Verbatim (stage.canonical refer)) (p : Path) :
    ∀ t u, through refer p stages t = .ok u → u = t := by
  induction stages with
  | nil =>
    intro t u hu
    cases hu
    rfl
  | cons stage stages ih =>
    intro t u hu
    rw [through_cons] at hu
    obtain ⟨w, hw, hu⟩ := bind_eq_ok_iff.1 hu
    have hstage : w = t := h stage List.mem_cons_self (.native t) p w hw
    have hrest : u = w := ih (fun s hs => h s (List.mem_cons_of_mem stage hs)) w u hu
    rw [hrest, hstage]

/-- **A verbatim specification yields the native form of what it accepts**, if that is so for
names. -/
theorem canonical_verbatim
    (hr : ∀ name, defs.Verbatim (named name) → Matcher.Verbatim (refer name)) (s : Spec) :
    defs.Verbatim s → Matcher.Verbatim (s.canonical refer) := by
  induction s using Spec.ind with
  | leaf s judge h =>
    intro hs v p t ht
    rw [canonical_of_judge h, mapError_eq_ok_iff] at ht
    exact verbatim_of_judge h (hs s (.refl s)) ht
  | sequence s element h ih =>
    intro hs v p t ht
    have helement : defs.Verbatim element := fun t ht => hs t (.element h ht)
    rw [canonical_of_element h] at ht
    cases hv : v.elements? with
    | none => rw [hv] at ht; cases ht
    | some items =>
      simp only [hv, map_eq_ok_iff] at ht
      obtain ⟨ts, hts, rfl⟩ := ht
      rw [Value.toTerm_of_elements? hv, (ih helement).items p items 0 ts hts]
  | row s fields h ih =>
    intro hs
    have hnode : s.PassesOn := hs s (.refl s)
    cases s with
    | object | proplist => exact hnode.elim
    | _ => cases h
  | pipeline stages ih =>
    intro hs v p t ht
    have hstages : ∀ stage ∈ stages, Matcher.Verbatim (stage.canonical refer) :=
      fun stage hstage => ih stage hstage fun t ht => hs t (.stage hstage ht)
    cases stages with
    | nil =>
      rw [canonical] at ht
      cases ht
      rfl
    | cons stage stages =>
      rw [canonical_pipeline_cons] at ht
      obtain ⟨u, hu, ht⟩ := bind_eq_ok_iff.1 ht
      have hfirst : u = v.toTerm := hstages stage List.mem_cons_self v p u hu
      have hlater : ∀ s ∈ stages, Matcher.Verbatim (s.canonical refer) :=
        fun s hs => hstages s (List.mem_cons_of_mem stage hs)
      rw [through_verbatim hlater p u t ht, hfirst]
  | named name => exact hr name

end Spec

namespace Definitions

theorem refer_verbatim (defs : Definitions) (bound : Nat) :
    ∀ name, defs.Verbatim (.named name) → Matcher.Verbatim (defs.refer bound name) := by
  refine refer_ind (motive := fun name m => defs.Verbatim (.named name) → m.Verbatim)
    ?_ ?_ ?_ bound
  · intro name _ v p t ht
    cases ht
  · intro name _ v p t ht
    cases ht
  · intro name spec refer hfind ih hname
    exact Spec.canonical_verbatim ih spec fun t ht => hname t (.name hfind ht)

/-- **No coercion without a conversion.**  What a verbatim specification accepts, a document or a
native term, comes out as its native form, and the native form is accepted again as itself, at every
path. -/
theorem matching_verbatim {defs : Definitions} {spec : Spec} (hspec : defs.Verbatim spec)
    {bound : Nat} {v : Value} {p : Path} {t : Term} (h : defs.matching bound spec v p = .ok t) :
    t = v.toTerm ∧ ∀ q, defs.matching bound spec (.native t) q = .ok t := by
  have hterm : t = v.toTerm :=
    Spec.canonical_verbatim (defs.refer_verbatim bound) spec hspec v p t h
  refine ⟨hterm, fun q => matching_eq_ok_at (p := p) ?_ q⟩
  -- the native form is matched as the value was, and at another path as at this one
  have hfollows : Follows (defs.matching bound spec v p) (defs.matching bound spec v.toNative p) :=
    Spec.canonical_follows (defs.refer_follows bound) spec v p
  rw [h, Value.toNative, ← hterm] at hfollows
  generalize defs.matching bound spec (.native t) p = again at hfollows ⊢
  cases hfollows with
  | ok => rfl

/-- Two stages, the second of which sees a list where the first saw an array, over a negative zero
and an integer above the signed range. -/
theorem matching_verbatim_of_two_views :
    let entry : Spec := .pipeline [.any, .satisfy (fun t => t.kind == .object) "a map"]
    let defs : Definitions := [("entry", entry)]
    let spec : Spec := .pipeline [.array (.named "entry"), .list (.named "entry")]
    let v : Value := .document (.array [.object
      [("x", .number (.float (Double.zero true) (by decide))),
        ("y", .number (.integer 0x8000000000000000 (by decide) (by decide)))]])
    let t : Term := .list [.map [("x", .float (Double.zero true)), ("y", .uint 0x8000000000000000)]]
    defs.Verbatim spec ∧ defs.matching 1 spec v [.field "log"] = .ok t ∧ t = v.toTerm ∧
      defs.matching 1 spec (.native t) Path.root = .ok t := by
  intro entry defs spec v t
  have hentry : defs.Verbatim (.named "entry") := by
    refine .named rfl (.pipeline fun stage hstage => ?_)
    simp only [List.mem_cons, List.not_mem_nil, or_false] at hstage
    rcases hstage with rfl | rfl
    · exact .of_judge rfl trivial
    · exact .of_judge rfl trivial
  have hspec : defs.Verbatim spec := by
    refine .pipeline fun stage hstage => ?_
    simp only [List.mem_cons, List.not_mem_nil, or_false] at hstage
    rcases hstage with rfl | rfl
    · exact .sequence rfl hentry
    · exact .sequence rfl hentry
  have hrun : defs.matching 1 spec v [.field "log"] = .ok t := by rfl
  obtain ⟨hterm, hagain⟩ := matching_verbatim hspec hrun
  exact ⟨hspec, hrun, hterm, hagain Path.root⟩

end Definitions

end Conform
