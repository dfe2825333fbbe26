import Conform.Canonical
import Mathlib.Data.List.Forall2

/-!
# Computations that fail at their first failure

A match of a row is `List.mapM` of the matches of its members.  `of?_mapM` says which failure such a
computation has, the first one of its members, and `mapM_eq_ok_iff` which results.
`mapM_eq_error_iff` says where the failing member stands, for failures of any kind,
`mapM_zipIdx_eq_error_iff` says it with its number, and `mapM_eq_some_iff` is the second one for
computations that give no reason when they fail.  Two rows are compared by way of a `Compatible`
relation, which `Compatible.mapM` takes from the members to the rows.
-/

namespace Conform

/-! ### Steps -/

section

variable {ε α β : Type}

theorem bind_eq_ok_iff {x : Except ε α} {g : α → Except ε β} {b : β} :
    x.bind g = .ok b ↔ ∃ a, x = .ok a ∧ g a = .ok b := by
  cases x with
  | ok a => exact ⟨fun h => ⟨a, rfl, h⟩, fun ⟨_, ha, h⟩ => Except.ok.inj ha ▸ h⟩
  | error e => exact ⟨(nomatch ·), fun ⟨_, ha, _⟩ => nomatch ha⟩

theorem bind_eq_error_iff {x : Except ε α} {g : α → Except ε β} {e : ε} :
    x.bind g = .error e ↔ x = .error e ∨ ∃ a, x = .ok a ∧ g a = .error e := by
  cases x <;> simp [Except.bind]

theorem map_eq_error_iff {x : Except ε α} {g : α → β} {e : ε} :
    x.map g = .error e ↔ x = .error e := by
  cases x <;> simp [Except.map]

theorem map_eq_ok_iff {x : Except ε α} {g : α → β} {b : β} :
    x.map g = .ok b ↔ ∃ a, x = .ok a ∧ g a = b := by
  cases x with
  | ok a =>
    exact ⟨fun h => ⟨a, rfl, Except.ok.inj h⟩,
      fun ⟨_, ha, h⟩ => congrArg Except.ok (Except.ok.inj ha ▸ h)⟩
  | error e => exact ⟨(nomatch ·), fun ⟨_, ha, _⟩ => nomatch ha⟩

theorem map_bind {γ : Type} (g : α → β) (k : β → Except ε γ) (x : Except ε α) :
    (x.map g).bind k = x.bind fun a => k (g a) := by
  cases x <;> rfl

theorem bind_map_bind {γ δ : Type} (f : α → β → γ) (g : α → Except ε β) (k : γ → Except ε δ)
    (x : Except ε α) :
    (x.bind fun a => (g a).map (f a)).bind k = x.bind fun a => (g a).bind fun b => k (f a b) := by
  cases x with
  | ok a => exact map_bind (f a) k (g a)
  | error e => rfl

theorem mapError_bind {ε' : Type} (h : ε → ε') (k : α → Except ε β) (x : Except ε α) :
    (x.bind k).mapError h = (x.mapError h).bind fun a => (k a).mapError h := by
  cases x <;> rfl

theorem mapError_map {ε' : Type} (h : ε → ε') (g : α → β) (x : Except ε α) :
    (x.map g).mapError h = (x.mapError h).map g := by
  cases x <;> rfl

theorem mapError_eq_ok_iff {ε' : Type} {h : ε → ε'} {x : Except ε α} {a : α} :
    x.mapError h = .ok a ↔ x = .ok a := by
  cases x <;> simp [Except.mapError]

theorem mapError_eq_error_iff {ε' : Type} {h : ε → ε'} {x : Except ε α} {e' : ε'} :
    x.mapError h = .error e' ↔ ∃ e, x = .error e ∧ h e = e' := by
  cases x <;> simp [Except.mapError]

theorem exists_map_eq_ok_iff {x : Except ε α} {g : α → β} :
    (∃ b, x.map g = .ok b) ↔ ∃ a, x = .ok a := by
  cases x <;> simp [Except.map]

theorem mapM_cons (g : α → Except ε β) (a : α) (as : List α) :
    (a :: as).mapM g = (g a).bind fun b => (as.mapM g).map (b :: ·) := by
  rw [List.mapM_cons]
  rfl

/-- A relation between computations that related results keep and that goes through steps. -/
structure Compatible (R : ∀ {α : Type}, Except ε α → Except ε α → Prop) : Prop where
  ok {α : Type} (a : α) : R (.ok a) (.ok a)
  bind {α β : Type} {x y : Except ε α} {g k : α → Except ε β} :
    R x y → (∀ a, R (g a) (k a)) → R (x.bind g) (y.bind k)

namespace Compatible

variable {R : ∀ {α : Type}, Except ε α → Except ε α → Prop}

theorem map (hR : Compatible R) {x y : Except ε α} (h : R x y) (g : α → β) :
    R (x.map g) (y.map g) := by
  have hsteps : ∀ z : Except ε α, z.map g = z.bind fun a => .ok (g a) := by
    intro z
    cases z <;> rfl
  rw [hsteps, hsteps]
  exact hR.bind h fun a => hR.ok (g a)

/-- Rows are related if their members are. -/
theorem mapM (hR : Compatible R) {γ : Type} {g : α → Except ε γ} {k : β → Except ε γ} {as : List α}
    {bs : List β} (h : List.Forall₂ (fun a b => R (g a) (k b)) as bs) :
    R (as.mapM g) (bs.mapM k) := by
  induction h with
  | nil => exact hR.ok []
  | cons hab _ ih =>
    rw [mapM_cons, mapM_cons]
    exact hR.bind hab fun c => hR.map ih (c :: ·)

end Compatible

/-- The failures of a row are changed by changing those of its members. -/
theorem mapM_mapError {ε' : Type} (h : ε → ε') (g : α → Except ε β) (as : List α) :
    (as.mapM fun a => (g a).mapError h) = (as.mapM g).mapError h := by
  induction as with
  | nil => rfl
  | cons a as ih =>
    rw [mapM_cons, mapM_cons, ih, mapError_bind]
    simp only [mapError_map]

/-- The results of a row are the results of its members. -/
theorem mapM_eq_ok_iff {g : α → Except ε β} {as : List α} {bs : List β} :
    as.mapM g = .ok bs ↔ List.Forall₂ (fun a b => g a = .ok b) as bs := by
  induction as generalizing bs with
  | nil =>
    rw [List.mapM_nil, List.forall₂_nil_left_iff]
    exact ⟨fun h => (Except.ok.inj h).symm, fun h => h ▸ rfl⟩
  | cons a as ih =>
    rw [mapM_cons, bind_eq_ok_iff, List.forall₂_cons_left_iff]
    refine exists_congr fun b => ?_
    rw [map_eq_ok_iff]
    constructor
    · rintro ⟨hb, cs, hcs, rfl⟩
      exact ⟨cs, hb, ih.1 hcs, rfl⟩
    · rintro ⟨cs, hb, hcs, rfl⟩
      exact ⟨hb, cs, ih.2 hcs, rfl⟩

/-- A row has results exactly if every member has one. -/
theorem exists_mapM_eq_ok_iff {g : α → Except ε β} {as : List α} :
    (∃ bs, as.mapM g = .ok bs) ↔ ∀ a ∈ as, ∃ b, g a = .ok b := by
  induction as with
  | nil => simp [pure, Except.pure]
  | cons a as ih =>
    rw [mapM_cons, List.forall_mem_cons, ← ih]
    simp only [bind_eq_ok_iff, map_eq_ok_iff]
    constructor
    · rintro ⟨_, b, hb, bs, hbs, _⟩
      exact ⟨⟨b, hb⟩, bs, hbs⟩
    · rintro ⟨⟨b, hb⟩, bs, hbs⟩
      exact ⟨_, b, hb, bs, hbs, rfl⟩

/-- A row fails as the first member without a result does. -/
theorem mapM_eq_error_iff {g : α → Except ε β} {as : List α} {e : ε} :
    as.mapM g = .error e ↔
      ∃ before a after, as = before ++ a :: after ∧ (∀ b ∈ before, ∃ c, g b = .ok c) ∧
        g a = .error e := by
  induction as with
  | nil =>
    constructor
    · intro h
      cases h
    · rintro ⟨before, a, after, h, _⟩
      exact absurd h.symm (List.append_ne_nil_of_right_ne_nil before (List.cons_ne_nil a after))
  | cons a as ih =>
    rw [mapM_cons, bind_eq_error_iff]
    constructor
    · rintro (ha | ⟨b, hb, has⟩)
      · exact ⟨[], a, as, rfl, (fun _ h => nomatch h), ha⟩
      · obtain ⟨before, c, after, rfl, hbefore, hc⟩ := ih.1 (map_eq_error_iff.1 has)
        exact ⟨a :: before, c, after, rfl, List.forall_mem_cons.2 ⟨⟨b, hb⟩, hbefore⟩, hc⟩
    · rintro ⟨before, c, after, h, hbefore, hc⟩
      cases before with
      | nil =>
        obtain ⟨rfl, rfl⟩ := List.cons.inj h
        exact Or.inl hc
      | cons d before =>
        obtain ⟨rfl, rfl⟩ := List.cons.inj h
        obtain ⟨⟨b, hb⟩, hbefore⟩ := List.forall_mem_cons.1 hbefore
        exact Or.inr ⟨b, hb, map_eq_error_iff.2 (ih.2 ⟨before, c, after, rfl, hbefore, hc⟩)⟩

/-- A row is there exactly if its members are, and then it is the row of them. -/
theorem mapM_eq_some_iff {g : α → Option β} {as : List α} {bs : List β} :
    as.mapM g = some bs ↔ List.Forall₂ (fun a b => g a = some b) as bs := by
  induction as generalizing bs with
  | nil =>
    rw [List.mapM_nil, List.forall₂_nil_left_iff]
    exact ⟨fun h => (Option.some.inj h).symm, fun h => h ▸ rfl⟩
  | cons a as ih =>
    rw [List.mapM_cons, List.forall₂_cons_left_iff]
    constructor
    · intro h
      obtain ⟨b, hb, h⟩ := Option.bind_eq_some_iff.1 h
      obtain ⟨cs, hcs, h⟩ := Option.bind_eq_some_iff.1 h
      exact ⟨b, cs, hb, ih.1 hcs, (Option.some.inj h).symm⟩
    · rintro ⟨b, cs, hb, hcs, rfl⟩
      rw [hb, ih.2 hcs]
      rfl

/-- A row of inverses is there exactly if the members are images, and then it is the row of what
they are images of. -/
theorem mapM_eq_some_iff_eq_map {g : α → Option β} {f : β → α} {p : β → Prop}
    (h : ∀ a b, g a = some b ↔ a = f b ∧ p b) {as : List α} {bs : List β} :
    as.mapM g = some bs ↔ as = bs.map f ∧ ∀ b ∈ bs, p b := by
  rw [mapM_eq_some_iff]
  constructor
  · intro hrow
    induction hrow with
    | nil => exact ⟨rfl, nofun⟩
    | cons hab _ ih =>
      obtain ⟨rfl, hb⟩ := (h _ _).1 hab
      obtain ⟨rfl, hbs⟩ := ih
      exact ⟨rfl, List.forall_mem_cons.2 ⟨hb, hbs⟩⟩
  · rintro ⟨rfl, hbs⟩
    exact List.forall₂_map_left_iff.2 (List.forall₂_same.2 fun b hb => (h _ _).2 ⟨rfl, hbs b hb⟩)

/-- A row is there exactly if every member is. -/
theorem exists_mapM_eq_some_iff {g : α → Option β} {as : List α} :
    (∃ bs, as.mapM g = some bs) ↔ ∀ a ∈ as, ∃ b, g a = some b := by
  simp only [mapM_eq_some_iff]
  induction as with
  | nil => exact ⟨fun _ => nofun, fun _ => ⟨[], .nil⟩⟩
  | cons a as ih =>
    rw [List.forall_mem_cons, ← ih]
    constructor
    · rintro ⟨bs, hrow⟩
      obtain ⟨b, cs, hab, hrow, -⟩ := List.forall₂_cons_left_iff.1 hrow
      exact ⟨⟨b, hab⟩, cs, hrow⟩
    · rintro ⟨⟨b, hab⟩, bs, hrow⟩
      exact ⟨b :: bs, .cons hab hrow⟩

theorem exists_of_mapM_eq_some {g : α → Option β} {as : List α} {bs : List β}
    (h : as.mapM g = some bs) {b : β} (hb : b ∈ bs) : ∃ a ∈ as, g a = some b := by
  have hrow := mapM_eq_some_iff.1 h
  clear h
  induction hrow with
  | nil => cases hb
  | @cons a c as bs hac hrow ih =>
    rcases List.mem_cons.1 hb with rfl | hb
    · exact ⟨a, List.mem_cons_self, hac⟩
    · obtain ⟨d, hd, hdb⟩ := ih hb
      exact ⟨d, List.mem_cons_of_mem a hd, hdb⟩

/-- Two computations on a row agree if they do on its members. -/
theorem mapM_congr {g h : α → Except ε β} {as : List α} (e : ∀ a ∈ as, g a = h a) :
    as.mapM g = as.mapM h := by
  induction as with
  | nil => rfl
  | cons a as ih =>
    have hrest := ih fun b hb => e b (List.mem_cons_of_mem a hb)
    rw [mapM_cons, mapM_cons, e a List.mem_cons_self, hrest]

/-- Two rows agree on the first hit if their members do. -/
theorem findSome_congr {g h : α → Option β} {as : List α} (e : ∀ a ∈ as, g a = h a) :
    as.findSome? g = as.findSome? h := by
  induction as with
  | nil => rfl
  | cons a as ih =>
    rw [List.findSome?_cons, List.findSome?_cons, e a List.mem_cons_self,
      ih fun b hb => e b (List.mem_cons_of_mem a hb)]

/-- In rows that agree member by member, the first hits agree. -/
theorem rel_find? {R : α → β → Prop} {as : List α} {bs : List β} (h : List.Forall₂ R as bs)
    {p : α → Bool} {q : β → Bool} (hpq : ∀ a b, R a b → p a = q b) :
    Option.Rel R (as.find? p) (bs.find? q) := by
  induction h with
  | nil => exact .none
  | cons hab _ ih =>
    rw [List.find?_cons, List.find?_cons, hpq _ _ hab]
    split
    · exact .some hab
    · exact ih

theorem exists_eq_some_of_rel {R : α → β → Prop} {a : α} {o : Option β}
    (h : Option.Rel R (some a) o) : ∃ b, o = some b ∧ R a b := by
  cases h with
  | some hab => exact ⟨_, rfl, hab⟩

theorem isSome_eq_of_rel {R : α → β → Prop} {a : Option α} {b : Option β} (h : Option.Rel R a b) :
    a.isSome = b.isSome := by
  cases h <;> rfl

theorem forall_mem_zipIdx_iff {P : α → Prop} {as : List α} {i : Nat} :
    (∀ x ∈ as.zipIdx i, P x.1) ↔ ∀ a ∈ as, P a := by
  rw [← List.forall_mem_map (f := Prod.fst), List.zipIdx_map_fst]

/-- A numbered row fails as the first member without a result does, and its number is that of the
members before it. -/
theorem mapM_zipIdx_eq_error_iff {g : α × Nat → Except ε β} {as : List α} {e : ε} :
    as.zipIdx.mapM g = .error e ↔
      ∃ before a after, as = before ++ a :: after ∧ (∀ x ∈ before.zipIdx, ∃ b, g x = .ok b) ∧
        g (a, before.length) = .error e := by
  rw [mapM_eq_error_iff]
  constructor
  · rintro ⟨front, ⟨a, i⟩, back, hrow, hfront, ha⟩
    -- the row of pairs comes apart where the members do
    obtain ⟨before, rest, rfl, rfl, hrest⟩ := List.zipIdx_eq_append_iff.1 hrow
    obtain ⟨_, after, rfl, heq, -⟩ := List.zipIdx_eq_cons_iff.1 hrest.symm
    obtain ⟨rfl, rfl⟩ := Prod.mk.inj heq
    rw [Nat.zero_add] at ha
    exact ⟨before, a, after, rfl, hfront, ha⟩
  · rintro ⟨before, a, after, rfl, hbefore, ha⟩
    have hrow : (before ++ a :: after).zipIdx =
        before.zipIdx ++ (a, before.length) :: after.zipIdx (before.length + 1) := by
      rw [List.zipIdx_append, List.zipIdx_cons, Nat.zero_add]
    exact ⟨_, _, _, hrow, hbefore, ha⟩

theorem rel_of_getElem? {R : α → β → Prop} {as : List α} {bs : List β} (h : List.Forall₂ R as bs)
    {i : Nat} {a : α} {b : β} (ha : as[i]? = some a) (hb : bs[i]? = some b) : R a b :=
  List.forall₂_zip h (List.mem_of_getElem? (List.getElem?_zip_eq_some.2 ⟨ha, hb⟩))

theorem exists_getElem?_of_mapM_eq_ok {g : α → Except ε β} {as : List α} {bs : List β}
    (h : as.mapM g = .ok bs) {i : Nat} {a : α} (ha : as[i]? = some a) :
    ∃ b, bs[i]? = some b ∧ g a = .ok b := by
  have hrow := mapM_eq_ok_iff.1 h
  have hi : i < bs.length := by
    rw [← hrow.length_eq]
    exact (List.getElem?_eq_some_iff.1 ha).1
  have hb : bs[i]? = some bs[i] := List.getElem?_eq_getElem hi
  exact ⟨bs[i], hb, rel_of_getElem? hrow ha hb⟩

/-- A member with a result is put into a row as its result is into the results. -/
theorem mapM_insertIdx {g : α → Except ε β} {a : α} {b : β} (h : g a = .ok b) (k : Nat) :
    ∀ as : List α, (as.insertIdx k a).mapM g = (as.mapM g).map fun bs => bs.insertIdx k b := by
  induction k with
  | zero =>
    intro as
    rw [List.insertIdx_zero, mapM_cons, h]
    rfl
  | succ k ih =>
    intro as
    cases as with
    | nil => rfl
    | cons c as =>
      rw [List.insertIdx_succ_cons, mapM_cons, mapM_cons, ih]
      cases g c with
      | error e => rfl
      | ok d =>
        cases as.mapM g with
        | error e => rfl
        | ok ds => rfl

end

/-! ### Failures -/

namespace Failure

variable {α β : Type}

/-- The failure of a computation, if it fails. -/
def of? : Except Failure α → Option Failure
  | .ok _ => none
  | .error f => some f

@[simp] theorem of?_ok (a : α) : of? (.ok a : Except Failure α) = none := rfl

@[simp] theorem of?_error (f : Failure) : of? (.error f : Except Failure α) = some f := rfl

theorem of?_eq_some {x : Except Failure α} {f : Failure} : of? x = some f ↔ x = .error f := by
  cases x <;> simp

@[simp] theorem of?_map (g : α → β) (x : Except Failure α) : of? (x.map g) = of? x := by
  cases x <;> rfl

/-- If the failure of a second step does not depend on the result of the first, it is the failure
of both unless the first one fails. -/
theorem of?_bind {o : Option Failure} {g : α → Except Failure β} (h : ∀ a, of? (g a) = o)
    (x : Except Failure α) : of? (x.bind g) = (of? x).or o := by
  cases x with
  | ok a => exact h a
  | error f => rfl

/-- **A row fails as its first failing member does.** -/
theorem of?_mapM (g : α → Except Failure β) (as : List α) :
    of? (as.mapM g) = as.findSome? fun a => of? (g a) := by
  induction as with
  | nil => rfl
  | cons a as ih =>
    rw [mapM_cons, List.findSome?_cons, of?_bind fun b => (of?_map (b :: ·) _).trans ih]
    cases of? (g a) <;> rfl

theorem exists_of_mapM_eq_error {g : α → Except Failure β} {as : List α} {f : Failure}
    (h : as.mapM g = .error f) : ∃ a ∈ as, g a = .error f := by
  rw [← of?_eq_some, of?_mapM] at h
  obtain ⟨a, ha, hf⟩ := List.exists_of_findSome?_eq_some h
  exact ⟨a, ha, of?_eq_some.1 hf⟩

end Failure

end Conform
