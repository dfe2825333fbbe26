import Conform.Proofs.Canonical.Defects
import Conform.Proofs.Settings.Flat
import Conform.Settings.Session

/-!
# Look-ups after a history

A store may have been written, cleared and loaded many times.  What a look-up of a pair of names
answers depends on one value only: the one that was written last under the pair, unless it was
removed since.  `lastWritten` reads that value off the operations, without a store.

* `Operation.left?` says what one operation leaves under a pair, `get?_perform` that it does so, and
  `get?_run` says it of a row of operations.  Of a load, `left?_load_eq_some_iff` says it from the
  tree.
* `AnswersFor` says how look-ups answer for a value or for its absence; `answersFor_get?` is that
  for the value which is stored.
* `lookup_after_session` puts the two together, with look-ups anywhere in the history.
-/

namespace Conform.Store

/-! ### The value last written -/

/-- What an operation leaves under a pair of names, a value or nothing, if it writes or clears the
pair.  An operation on another pair does neither, nor does a load without the pair or one that is
rejected. -/
def Operation.left? (ns key : String) : Operation → Option (Option Value)
  | set ns' key' v => if ns = ns' ∧ key = key' then some (some v) else none
  | remove ns' key' => if ns = ns' ∧ key = key' then some none else none
  | load none => none
  | load (some tree) =>
    match tree.settings with
    | .ok settings =>
      (settings.reverse.find? fun s => s.ns == ns && s.key == key).map fun s =>
        some (.document s.content)
    | .error _ => none

/-- A load leaves under a pair the document that the value with these names denotes, if the tree is
accepted and has one. -/
theorem Operation.left?_load_eq_some_iff {ns key : String} {tree : Yaml} {w : Option Value} :
    (load (some tree)).left? ns key = some w ↔
      tree.Loadable ∧ ∃ y d, tree.setting? ns key = some y ∧ y.Denotes d ∧
        w = some (.document d) := by
  rw [left?]
  cases hss : tree.settings with
  | error fault =>
    have hrefused : tree.Refused fault := Yaml.settings_eq_error_iff.1 hss
    constructor
    · intro h
      cases h
    · rintro ⟨hloadable, _⟩
      exact absurd hrefused (Yaml.loadable_iff_not_refused.1 hloadable fault)
  | ok ss =>
    have hloadable : tree.Loadable := (Yaml.exists_settings_iff tree).1 ⟨ss, hss⟩
    have hrel := Yaml.rel_last_of_settings hss ns key
    show (Option.map _ _ = _) ↔ _
    rw [Yaml.setting?]
    revert hrel
    generalize tree.leaves.reverse.find? _ = leaf
    generalize ss.reverse.find? _ = setting
    intro hrel
    cases hrel with
    | none => simp
    | @some l s hls =>
      constructor
      · rintro ⟨rfl⟩
        exact ⟨hloadable, l.2.2, s.content, rfl, hls.2.2, rfl⟩
      · rintro ⟨_, _, d, ⟨rfl⟩, hd, rfl⟩
        rw [Option.map_some, hd.unique hls.2.2]

/-- The operation writes or clears the pair. -/
def Operation.concerns (ns key : String) (op : Operation) : Bool := (op.left? ns key).isSome

/-- The value that a history wrote last under a pair and did not remove since. -/
def lastWritten (ns key : String) (ops : List Operation) : Option Value :=
  (ops.reverse.findSome? (Operation.left? ns key)).join

/-- **One operation.**  It leaves under a pair what `left?` says, or what was there. -/
theorem get?_perform (store : Store) (op : Operation) (ns key : String) :
    (store.perform op).2.get? ns key = (op.left? ns key).getD (store.get? ns key) := by
  cases op with
  | set ns' key' v =>
    show (store.set ns' key' v).get? ns key = _
    rw [get?_set, Operation.left?]
    split <;> rfl
  | remove ns' key' =>
    show (store.remove ns' key').get? ns key = _
    rw [get?_remove, Operation.left?]
    split <;> rfl
  | load tree =>
    cases tree with
    | none => rfl
    | some tree =>
      simp only [perform, load, Operation.left?]
      cases tree.settings with
      | error fault => rfl
      | ok settings =>
        show (store.merge settings).get? ns key = _
        rw [get?_merge, dlookup_entries]
        dsimp only
        cases settings.reverse.find? fun s => s.ns == ns && s.key == key <;> rfl

/-- **A row of operations.**  Under a pair stands what the last one left that concerns it. -/
theorem get?_run (ns key : String) (ops : List Operation) : ∀ store : Store,
    (store.run ops).2.get? ns key =
      (ops.reverse.findSome? (Operation.left? ns key)).getD (store.get? ns key) := by
  induction ops with
  | nil => intro store; rfl
  | cons op ops ih =>
    intro store
    have hstep : (store.run (op :: ops)).2 = ((store.perform op).2.run ops).2 := rfl
    rw [hstep, ih, get?_perform, List.reverse_cons, List.findSome?_append]
    cases ops.reverse.findSome? (Operation.left? ns key) with
    | some left => rfl
    | none => cases h : op.left? ns key <;> simp [h]

theorem get?_run_empty (ns key : String) (ops : List Operation) :
    (empty.run ops).2.get? ns key = lastWritten ns key ops := by
  rw [get?_run, get?_empty, lastWritten]
  cases ops.reverse.findSome? (Operation.left? ns key) <;> rfl

/-- Operations that do not concern a pair may be left out of the history of its value. -/
theorem lastWritten_filter_concerns (ns key : String) (ops : List Operation) :
    lastWritten ns key (ops.filter (Operation.concerns ns key)) = lastWritten ns key ops := by
  -- an operation that is left out leaves nothing under the pair
  have hrow : ∀ row : List Operation,
      (row.filter (Operation.concerns ns key)).findSome? (Operation.left? ns key) =
        row.findSome? (Operation.left? ns key) := by
    intro row
    induction row with
    | nil => rfl
    | cons op row ih =>
      rw [List.findSome?_cons, ← ih, List.filter_cons, Operation.concerns]
      cases h : op.left? ns key <;> simp [h]
  rw [lastWritten, lastWritten, ← List.filter_reverse, hrow]

/-! ### Sessions -/

/-- **Look-ups change nothing.**  After a session the store is the one after its operations. -/
theorem session_store (defs : Definitions) (requests : List Request) : ∀ store : Store,
    (store.session defs requests).2 = (store.run (requests.filterMap Request.operation?)).2 := by
  induction requests with
  | nil => intro store; rfl
  | cons request requests ih =>
    intro store
    have hstep : (store.session defs (request :: requests)).2 =
        ((store.serve defs request).2.session defs requests).2 := rfl
    rw [hstep, ih]
    cases request with
    | operation op => rfl
    | lookup ns key fallback spec => rfl

/-! ### Look-ups -/

/-- How look-ups of a pair answer when `w` is stored there: without a default an absent value is
missing, a document is matched as a document and a native term as a native term; with a default the
same canonical form is found, and in every other case the answer is the default as it is. -/
structure AnswersFor (defs : Definitions) (store : Store) (ns key : String) (spec : Spec)
    (w : Option Value) : Prop where
  missing : ∀ ns' key', store.lookup defs ns key .required spec = .error (.missing ns' key') ↔
    w = none ∧ ns' = ns ∧ key' = key
  found : ∀ t, store.lookup defs ns key .required spec = .ok t ↔
    (∃ d, w = some (.document d) ∧ defs.validateDocument spec d = .ok t) ∨
      ∃ u, w = some (.native u) ∧ defs.validateNative spec u = .ok t
  invalid : ∀ ns' key' failure,
    store.lookup defs ns key .required spec = .error (.invalid ns' key' failure) ↔
      ((∃ d, w = some (.document d) ∧ defs.validateDocument spec d = .error failure) ∨
        ∃ u, w = some (.native u) ∧ defs.validateNative spec u = .error failure) ∧
        ns' = ns ∧ key' = key
  default : ∀ d, store.lookup defs ns key (.default d) spec =
    .ok (match store.lookup defs ns key .required spec with
      | .ok t => t
      | .error _ => d)

/-- Each value is matched through the door of its own. -/
theorem doors_iff {defs : Definitions} {spec : Spec} {v : Value} {o : Outcome} :
    ((∃ d, v = .document d ∧ defs.validateDocument spec d = o) ∨
      ∃ u, v = .native u ∧ defs.validateNative spec u = o) ↔ defs.validate spec v = o := by
  cases v <;> simp [Definitions.validate]

theorem answersFor_get? (defs : Definitions) (store : Store) (ns key : String) (spec : Spec) :
    AnswersFor defs store ns key spec (store.get? ns key) := by
  cases hw : store.get? ns key with
  | none =>
    have hrequired : store.lookup defs ns key .required spec = .error (.missing ns key) := by
      rw [lookup, hw]
      rfl
    have hdefault : ∀ d, store.lookup defs ns key (.default d) spec = .ok d := by
      intro d
      rw [lookup, hw]
      rfl
    constructor <;> simp [hrequired, hdefault, eq_comm]
  | some v =>
    cases hv : defs.validate spec v with
    | ok t =>
      have hall : ∀ fallback, store.lookup defs ns key fallback spec = .ok t := by
        intro fallback
        simp only [lookup, hw, Conform.lookup, hv]
      constructor <;> simp [hall, hv, doors_iff]
    | error failure =>
      have hrequired : store.lookup defs ns key .required spec =
          .error (.invalid ns key failure) := by
        simp only [lookup, hw, Conform.lookup, hv]
      have hdefault : ∀ d, store.lookup defs ns key (.default d) spec = .ok d := by
        intro d
        simp only [lookup, hw, Conform.lookup, hv]
      refine ⟨?_, fun t => ?_, fun ns' key' failure' => ?_, fun d => ?_⟩
      · simp [hrequired]
      · simp [hrequired, doors_iff, hv]
      · simp only [hrequired, Option.some.injEq, doors_iff, hv, Except.error.injEq,
          SettingsError.invalid.injEq]
        constructor
        · rintro ⟨rfl, rfl, rfl⟩
          exact ⟨rfl, rfl, rfl⟩
        · rintro ⟨rfl, rfl, rfl⟩
          exact ⟨rfl, rfl, rfl⟩
      · rw [hdefault, hrequired]

/-- **Look-ups after any history.**  After any session that begins with the empty store, the store
is the one after the operations of the session, and look-ups of a pair answer for the value that
these wrote there last and did not remove since.  Operations that do not concern the pair may be
left out, whatever they are.  If the names of the specification unfold, a value is invalid only
because of a mismatch of its own. -/
theorem lookup_after_session (defs : Definitions) (requests : List Request) (ns key : String)
    (spec : Spec) :
    let ops := requests.filterMap Request.operation?
    let store := (empty.session defs requests).2
    store = (empty.run ops).2 ∧
      AnswersFor defs store ns key spec (lastWritten ns key ops) ∧
      (∀ fallback, store.lookup defs ns key fallback spec =
        (empty.run (ops.filter (Operation.concerns ns key))).2.lookup defs ns key fallback spec) ∧
      (defs.Unfolds Definitions.longestChain spec → ∀ failure,
        store.lookup defs ns key .required spec = .error (.invalid ns key failure) →
          failure.IsMismatch) := by
  intro ops store
  have hstore : store = (empty.run ops).2 := session_store defs requests empty
  have hget : store.get? ns key = lastWritten ns key ops := by rw [hstore, get?_run_empty]
  have hanswers : AnswersFor defs store ns key spec (lastWritten ns key ops) :=
    hget ▸ answersFor_get? defs store ns key spec
  refine ⟨hstore, hanswers, fun fallback => ?_, fun hunfolds failure hinvalid => ?_⟩
  -- a look-up reads nothing but the value of its pair
  · rw [lookup, lookup, get?_run_empty, lastWritten_filter_concerns, hget]
  · rcases ((hanswers.invalid ns key failure).1 hinvalid).1 with ⟨d, _, hd⟩ | ⟨u, _, hu⟩
    · exact hunfolds.isMismatch_of_eq_error hd
    · exact hunfolds.isMismatch_of_eq_error hu

/-- A native term is overwritten by a load, a later load is rejected after a setting of the pair,
and a default that is no port is passed on. -/
theorem lookup_after_overwritten_and_rejected :
    let defs : Definitions := [("port", .integer)]
    let requests : List Request :=
      [.operation (.set "http" "port" (.native (.int 80))),
        .operation (.load (some (.mapping [(.string "http",
          .mapping [(.string "port", .string "closed")])]))),
        .lookup "http" "port" .required (.named "port"),
        .operation (.load (some (.mapping [(.string "http", .mapping [(.string "port", .bool true),
          (.string "limit", .float (Double.infinity false))])]))),
        .operation (.remove "http" "host")]
    let store := (empty.session defs requests).2
    let failure := Failure.fault Path.root (.wrongType (.str "closed") .string "integer")
    defs.Unfolds Definitions.longestChain (.named "port") ∧
      lastWritten "http" "port" (requests.filterMap Request.operation?) =
        some (.document (.string "closed")) ∧
      store.lookup defs "http" "port" .required (.named "port") =
        .error (.invalid "http" "port" failure) ∧
      store.lookup defs "http" "port" (.default .null) (.named "port") = .ok .null ∧
      failure.IsMismatch := by
  intro defs requests store failure
  have hunfolds : defs.Unfolds Definitions.longestChain (.named "port") := by
    intro name hname
    obtain rfl := List.mem_singleton.1 hname
    exact ⟨.integer, rfl, fun _ h => nomatch h⟩
  obtain ⟨_, hanswers, _, hmismatch⟩ :=
    lookup_after_session defs requests "http" "port" (.named "port")
  have hlast : lastWritten "http" "port" (requests.filterMap Request.operation?) =
      some (.document (.string "closed")) := by rfl
  have hinvalid : store.lookup defs "http" "port" .required (.named "port") =
      .error (.invalid "http" "port" failure) :=
    (hanswers.invalid "http" "port" failure).2 ⟨Or.inl ⟨_, hlast, rfl⟩, rfl, rfl⟩
  refine ⟨hunfolds, hlast, hinvalid, ?_, hmismatch hunfolds failure hinvalid⟩
  rw [hanswers.default, hinvalid]

end Conform.Store
