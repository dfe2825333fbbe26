import Conform.Proofs.Fields.Firsts
import Conform.Proofs.Outcome
import Conform.Settings.Tree

/-!
# Documents of YAML trees

Which trees are values of settings, and which document such a tree denotes.  Neither is said through
the conversion.

* `Convertible`: every float is finite and every key of a mapping is a scalar.  Keys are not looked
  into, and tags are looked through, except that a key has none.
* `Denotes`: numbers, texts and the order of elements are kept, tags are not, and an object has
  under every key text what the last member of that text denotes.

`toDocument_eq_ok_iff` says that the conversion is described by them.  It goes by induction on the
tree, with the rows of elements and of members as `List.mapM`.
-/

namespace Conform

namespace Yaml

/-- Induction on trees; the trees in a container are given by membership, and keys are left out. -/
@[elab_as_elim]
theorem ind {motive : Yaml → Prop} (null : motive null) (bool : ∀ b, motive (bool b))
    (integer : ∀ n least below, motive (integer n least below)) (float : ∀ x, motive (float x))
    (string : ∀ text, motive (string text))
    (sequence : ∀ items, (∀ y ∈ items, motive y) → motive (sequence items))
    (mapping : ∀ members, (∀ m ∈ members, motive m.2) → motive (mapping members))
    (tagged : ∀ tag y, motive y → motive (tagged tag y)) (y : Yaml) : motive y := by
  refine @Yaml.rec motive (fun items => ∀ y ∈ items, motive y)
    (fun members => ∀ m ∈ members, motive m.2) (fun m => motive m.2)
    null bool integer float string sequence mapping tagged ?_ ?_ ?_ ?_ (fun _ _ _ ih => ih) y
  · intro y hy
    cases hy
  · intro y ys ih ihs z hz
    rcases List.mem_cons.1 hz with rfl | hz
    · exact ih
    · exact ihs z hz
  · intro m hm
    cases hm
  · intro m ms ih ihs n hn
    rcases List.mem_cons.1 hn with rfl | hn
    · exact ih
    · exact ihs n hn

/-! ### The conversion of a node -/

/-- The member of an object that a member of a mapping becomes. -/
def toMember (ns key : String) (p : Path) (m : Yaml × Yaml) :
    Except LoadFault (String × Document) :=
  (keyAt (.setting ns key p) m.1).bind fun name =>
    (toDocument ns key (p.field name) m.2).map (name, ·)

variable {ns key : String}

theorem toDocument_float (p : Path) (x : Double) :
    toDocument ns key p (float x) =
      if finite : x.isFinite = true then .ok (.number (.float x finite))
      else .error (.notFinite ns key p x) := by
  rw [toDocument, Number.ofDouble?]
  by_cases hx : x.isFinite = true
  · rw [dif_pos hx, dif_pos hx]
  · rw [dif_neg hx, dif_neg hx]

theorem toDocument_sequence (p : Path) (items : List Yaml) :
    toDocument ns key p (sequence items) =
      (items.zipIdx.mapM fun x => toDocument ns key (p.index x.2) x.1).map .array := by
  have hrow : ∀ i, toDocumentItems ns key p i items =
      (items.zipIdx i).mapM fun x => toDocument ns key (p.index x.2) x.1 := by
    induction items with
    | nil => intro i; rfl
    | cons y ys ih =>
      intro i
      rw [List.zipIdx_cons, mapM_cons, ← ih (i + 1)]
      rfl
  rw [toDocument, hrow]

theorem toDocument_mapping (p : Path) (members : List (Yaml × Yaml)) :
    toDocument ns key p (mapping members) = (members.mapM (toMember ns key p)).map .ofMembers := by
  have hrow : toDocumentMembers ns key p members = members.mapM (toMember ns key p) := by
    induction members with
    | nil => rfl
    | cons m ms ih =>
      rw [mapM_cons, ← ih, toMember, bind_map_bind]
      rfl
  rw [toDocument, hrow]

/-! ### Keys -/

/-- The tree is a string, a number or a truth value, without a tag. -/
def IsKey : Yaml → Prop
  | bool _ | integer _ _ _ | float _ | string _ => True
  | _ => False

theorem isKey_iff {k : Yaml} : k.IsKey ↔ ∃ text, k.keyText? = some text := by
  cases k <;> simp [IsKey, keyText?]

theorem keyAt_eq_ok_iff {place : Place} {k : Yaml} {text : String} :
    keyAt place k = .ok text ↔ k.keyText? = some text := by
  unfold keyAt
  cases k.keyText? <;> simp

section

variable {α : Type} {place : Place} {k : Yaml} {g : String → Except LoadFault α}

theorem exists_keyAt_bind_iff {P : Prop} (h : ∀ text, (∃ a, g text = .ok a) ↔ P) :
    (∃ a, (keyAt place k).bind g = .ok a) ↔ k.IsKey ∧ P := by
  simp only [bind_eq_ok_iff, keyAt_eq_ok_iff, isKey_iff]
  constructor
  · rintro ⟨a, text, htext, ha⟩
    exact ⟨⟨text, htext⟩, (h text).1 ⟨a, ha⟩⟩
  · rintro ⟨⟨text, htext⟩, hP⟩
    obtain ⟨a, ha⟩ := (h text).2 hP
    exact ⟨a, text, htext, ha⟩

theorem keyAt_bind_eq_error_iff {fault : LoadFault} :
    (keyAt place k).bind g = .error fault ↔
      ¬ k.IsKey ∧ fault = .unsupportedKey place k ∨
        ∃ text, k.keyText? = some text ∧ g text = .error fault := by
  rw [isKey_iff, keyAt]
  cases k.keyText? with
  | none => simp [Except.bind, eq_comm]
  | some text => simp [Except.bind]

end

/-! ### Values -/

/-- The first tree is met in the second one, outside of keys and through tags. -/
inductive Inside : Yaml → Yaml → Prop
  | refl (y : Yaml) : Inside y y
  | item {x y : Yaml} {items : List Yaml} : y ∈ items → Inside x y → Inside x (sequence items)
  | member {x : Yaml} {m : Yaml × Yaml} {members : List (Yaml × Yaml)} : m ∈ members →
    Inside x m.2 → Inside x (mapping members)
  | tagged {x y : Yaml} {tag : String} : Inside x y → Inside x (tagged tag y)

/-- Every float in the tree is finite, and every key of a mapping in it is a scalar. -/
structure Convertible (y : Yaml) : Prop where
  finite : ∀ x, Inside (float x) y → x.isFinite = true
  keys : ∀ members, Inside (mapping members) y → ∀ m ∈ members, m.1.IsKey

theorem convertible_float {x : Double} : (float x).Convertible ↔ x.isFinite = true := by
  constructor
  · exact fun h => h.finite x (.refl _)
  · intro h
    refine ⟨fun y hy => ?_, fun members hm => nomatch hm⟩
    cases hy
    exact h

theorem convertible_sequence {items : List Yaml} :
    (sequence items).Convertible ↔ ∀ y ∈ items, y.Convertible := by
  constructor
  · intro h y hy
    exact ⟨fun x hx => h.finite x (.item hy hx), fun inner hi => h.keys inner (.item hy hi)⟩
  · refine fun h => ⟨fun x hx => ?_, fun inner hi => ?_⟩
    · cases hx with
      | item hy hx => exact (h _ hy).finite x hx
    · cases hi with
      | item hy hi => exact (h _ hy).keys inner hi

theorem convertible_mapping {members : List (Yaml × Yaml)} :
    (mapping members).Convertible ↔ ∀ m ∈ members, m.1.IsKey ∧ m.2.Convertible := by
  constructor
  · intro h m hm
    have hkey : m.1.IsKey := h.keys members (.refl _) m hm
    exact ⟨hkey, fun x hx => h.finite x (.member hm hx),
      fun inner hi => h.keys inner (.member hm hi)⟩
  · refine fun h => ⟨fun x hx => ?_, fun inner hi => ?_⟩
    · cases hx with
      | member hm hx => exact (h _ hm).2.finite x hx
    · cases hi with
      | refl => exact fun m hm => (h m hm).1
      | member hm hi => exact (h _ hm).2.keys inner hi

theorem convertible_tagged {tag : String} {y : Yaml} :
    (tagged tag y).Convertible ↔ y.Convertible := by
  constructor
  · intro h
    exact ⟨fun x hx => h.finite x (.tagged hx), fun inner hi => h.keys inner (.tagged hi)⟩
  · refine fun h => ⟨fun x hx => ?_, fun inner hi => ?_⟩
    · cases hx with
      | tagged hx => exact h.finite x hx
    · cases hi with
      | tagged hi => exact h.keys inner hi

theorem exists_toMember_iff {p : Path} {m : Yaml × Yaml}
    (h : ∀ q, (∃ d, toDocument ns key q m.2 = .ok d) ↔ m.2.Convertible) :
    (∃ e, toMember ns key p m = .ok e) ↔ m.1.IsKey ∧ m.2.Convertible :=
  exists_keyAt_bind_iff fun name => exists_map_eq_ok_iff.trans (h (p.field name))

/-- **Exactly the convertible trees are converted.** -/
theorem exists_toDocument_iff (y : Yaml) : ∀ p,
    (∃ d, toDocument ns key p y = .ok d) ↔ y.Convertible := by
  induction y using Yaml.ind with
  | null | bool | integer | string =>
    refine fun p => ⟨fun _ => ⟨?_, ?_⟩, fun _ => ⟨_, rfl⟩⟩
    · intro x hx
      cases hx
    · intro members hm
      cases hm
  | float x =>
    intro p
    rw [convertible_float, toDocument_float]
    by_cases hx : x.isFinite = true <;> simp [hx]
  | sequence items ih =>
    intro p
    rw [toDocument_sequence, exists_map_eq_ok_iff, exists_mapM_eq_ok_iff, convertible_sequence]
    refine Iff.trans (forall₂_congr fun x hx => ?_) forall_mem_zipIdx_iff
    exact ih x.1 (List.fst_mem_of_mem_zipIdx hx) _
  | mapping members ih =>
    intro p
    rw [toDocument_mapping, exists_map_eq_ok_iff, exists_mapM_eq_ok_iff, convertible_mapping]
    exact forall₂_congr fun m hm => exists_toMember_iff (ih m hm)
  | tagged tag y ih =>
    intro p
    rw [toDocument, convertible_tagged]
    exact ih p

/-! ### What a tree denotes -/

/-- The value of the last member whose key has the text. -/
def last? (name : String) (members : List (Yaml × Yaml)) : Option Yaml :=
  (members.reverse.find? fun m => m.1.keyText? == some name).map Prod.snd

/-- The tree denotes the document. -/
inductive Denotes : Yaml → Document → Prop
  | null : Denotes null .null
  | bool (b : Bool) : Denotes (bool b) (.bool b)
  | integer (n : Int) (least : -0x8000000000000000 ≤ n) (below : n < 0x10000000000000000) :
    Denotes (integer n least below) (.number (.integer n least below))
  | float (x : Double) (finite : x.isFinite = true) :
    Denotes (float x) (.number (.float x finite))
  | string (text : String) : Denotes (string text) (.string text)
  | sequence {items : List Yaml} {ds : List Document} : ds.length = items.length →
    (∀ (i : Nat) (y : Yaml) (d : Document), items[i]? = some y → ds[i]? = some d → Denotes y d) →
    Denotes (sequence items) (.array ds)
  | mapping {members : List (Yaml × Yaml)} {entries : List (String × Document)} :
    Table.Ascending entries →
    (∀ name, (Table.find? name entries).isSome = (last? name members).isSome) →
    (∀ name y d, last? name members = some y → Table.find? name entries = some d → Denotes y d) →
    Denotes (mapping members) (.object entries)
  | tagged {tag : String} {y : Yaml} {d : Document} : Denotes y d → Denotes (tagged tag y) d

theorem Denotes.unique {y : Yaml} {d : Document} (h : Denotes y d) :
    ∀ {e : Document}, Denotes y e → d = e := by
  induction h with
  | null | bool | integer | float | string =>
    intro e he
    cases he
    rfl
  | @sequence items ds hlen _ ih =>
    intro e he
    cases he with
    | @sequence _ es hlen' hes =>
      refine congrArg Document.array (List.ext_getElem (hlen.trans hlen'.symm) fun i hi hi' => ?_)
      have hlt : i < items.length := hlen ▸ hi
      have hitem : items[i]? = some items[i] := List.getElem?_eq_getElem hlt
      have hd : ds[i]? = some ds[i] := List.getElem?_eq_getElem hi
      have he : es[i]? = some es[i] := List.getElem?_eq_getElem hi'
      exact ih i items[i] ds[i] hitem hd (hes i items[i] es[i] hitem he)
  | @mapping members entries hasc hnames _ ih =>
    intro e he
    cases he with
    | @mapping _ others hasc' hnames' hothers =>
      -- both are tables, so it is enough that they look up alike
      refine congrArg Document.object (hasc.ext hasc' fun name => ?_)
      have hentry := hnames name
      have hother := hnames' name
      cases hy : last? name members with
      | none =>
        rw [hy, Option.isSome_none, Option.isSome_eq_false_iff, Option.isNone_iff_eq_none] at hentry
        rw [hy, Option.isSome_none, Option.isSome_eq_false_iff, Option.isNone_iff_eq_none] at hother
        rw [hentry, hother]
      | some y =>
        rw [hy, Option.isSome_some, Option.isSome_iff_exists] at hentry hother
        obtain ⟨d, hd⟩ := hentry
        obtain ⟨d', hd'⟩ := hother
        have heq : d = d' := ih name y d hy hd (hothers name y d' hy hd')
        rw [hd, hd', heq]
  | tagged _ ih =>
    intro e he
    cases he with
    | tagged he => exact ih he

theorem Denotes.ofMembers {members : List (Yaml × Yaml)} {entries : List (String × Document)}
    (h : List.Forall₂ (fun m e => m.1.keyText? = some e.1 ∧ Denotes m.2 e.2) members entries) :
    Denotes (Yaml.mapping members) (.ofMembers entries) := by
  -- of members and entries that go together, the last ones of a name do so too
  have hlast : ∀ name, Option.Rel (fun m e => m.1.keyText? = some e.1 ∧ Denotes m.2 e.2)
      (members.reverse.find? fun m => m.1.keyText? == some name)
      (entries.reverse.find? fun e => e.1 == name) := by
    refine fun name => rel_find? (List.rel_reverse h) fun m e hme => ?_
    rw [hme.1]
    rfl
  refine .mapping (Table.ascending_ofList entries) (fun name => ?_) (fun name y d hy hd => ?_)
  · rw [Table.find?_ofList, Table.find?, last?, Option.isSome_map, Option.isSome_map]
    exact (isSome_eq_of_rel (hlast name)).symm
  · rw [Table.find?_ofList] at hd
    obtain ⟨m, hm, rfl⟩ := Option.map_eq_some_iff.1 hy
    obtain ⟨e, he, rfl⟩ := Option.map_eq_some_iff.1 hd
    obtain ⟨e', he', hme⟩ := exists_eq_some_of_rel (hm ▸ hlast name)
    obtain rfl := Option.some.inj (he.symm.trans he')
    exact hme.2

theorem denotes_of_toDocument (y : Yaml) :
    ∀ {p d}, toDocument ns key p y = .ok d → Denotes y d := by
  induction y using Yaml.ind with
  | null | bool | integer | string =>
    intro p d h
    cases h
    constructor
  | float x =>
    intro p d h
    rw [toDocument_float] at h
    split at h
    · cases h
      exact .float x _
    · cases h
  | sequence items ih =>
    intro p d h
    rw [toDocument_sequence, map_eq_ok_iff] at h
    obtain ⟨ds, hds, rfl⟩ := h
    have hrow := mapM_eq_ok_iff.1 hds
    refine .sequence (by rw [← hrow.length_eq, List.length_zipIdx]) fun i y d hy hd => ?_
    have hi : items.zipIdx[i]? = some (y, i) := by simp [hy]
    exact ih y (List.mem_of_getElem? hy) (rel_of_getElem? hrow hi hd)
  | mapping members ih =>
    intro p d h
    rw [toDocument_mapping, map_eq_ok_iff] at h
    obtain ⟨entries, hentries, rfl⟩ := h
    have hrow := (List.forall₂_and_left members entries).2 ⟨ih, mapM_eq_ok_iff.1 hentries⟩
    refine .ofMembers (hrow.imp fun m e hme => ?_)
    obtain ⟨hm, he⟩ := hme
    simp only [toMember, bind_eq_ok_iff, map_eq_ok_iff, keyAt_eq_ok_iff] at he
    obtain ⟨name, hname, d, hd, rfl⟩ := he
    exact ⟨hname, hm hd⟩
  | tagged tag y ih =>
    intro p d h
    exact .tagged (ih h)

/-- **The conversion yields exactly what a convertible tree denotes.** -/
theorem toDocument_eq_ok_iff {p : Path} {y : Yaml} {d : Document} :
    toDocument ns key p y = .ok d ↔ y.Convertible ∧ y.Denotes d := by
  constructor
  · exact fun h => ⟨(exists_toDocument_iff y p).1 ⟨d, h⟩, denotes_of_toDocument y h⟩
  · rintro ⟨hy, hd⟩
    obtain ⟨e, he⟩ := (exists_toDocument_iff y p).2 hy
    rw [he, hd.unique (denotes_of_toDocument y he)]

end Yaml

end Conform
