import Conform.Mismatch.Basic
import Conform.Spec.Describe
import Conform.Table
import Conform.Value

/-!
# Canonical forms

`Spec.canonical` walks a value and a specification in lockstep and yields the canonical form of the
value or the first mismatch.  Elements are visited by index and fields in the order in which they
are declared; what the fields leave over is looked at last.

* A scalar, `any`, and a `satisfy` yield the native form of the value.
* A sequence yields a list, and an object or a proplist a tuple with one slot for each field.
* A `member` yields the literal that the value is the same as, a `convert` what its function yields.
* The stages of a pipeline after the first see native terms, whatever the first one saw.

The walk is a recursion on the specification.  What a name stands for is not part of it, so the walk
is given a way to match against a name; `Definitions.refer` is one that looks names up in a table
and follows them up to a bound.
-/

namespace Conform

/-- Why a match yields no canonical form. -/
inductive Failure where
  /-- The value does not have the shape. -/
  | mismatch (m : Mismatch)
  /-- Names were followed as often as the bound allows. -/
  | endless
  /-- A name has no definition. -/
  | undefined (name : String)

/-- What a match yields. -/
abbrev Outcome := Except Failure Term

/-- A way to match values, at their paths. -/
abbrev Matcher := Value → Path → Outcome

namespace Failure

/-- The failure of a fault at a path. -/
def fault (p : Path) (f : Fault) : Failure := mismatch { path := p, fault := f }

/-- The failure of a value of another type than expected. -/
def wrongType (v : Value) (spec : Spec) (p : Path) : Failure :=
  fault p (.wrongType v.toTerm v.kind spec.label)

end Failure

/-- The description under which the conversion of a rest directive fails. -/
def restCapture : String := "rest capture"

/-- Matches elements from an index on, in order. -/
def Matcher.items (m : Matcher) (p : Path) : Nat → List Value → Except Failure (List Term)
  | _, [] => .ok []
  | i, v :: vs => do
    let t ← m v (p.index i)
    let ts ← items m p (i + 1) vs
    return t :: ts

namespace Entry

/-- The entries that a row of fields leaves over: of each name it does not declare the first one, in
ascending order of the names. -/
def residual (fields : List Field) (entries : List Entry) : List Entry :=
  let undeclared := entries.filter fun e => !Field.declares fields e.name
  (Table.firsts (undeclared.map fun e => (e.name, e))).map Prod.snd

end Entry

/-- The tuple of a row of slots, once the slot of the rest directive can be filled too. -/
def closeFields (fields : List Field) (entries : List Entry) (p : Path)
    (slots : List (Option Term)) : Outcome :=
  let residual := Entry.residual fields entries
  match Field.rest? fields with
  | some transform =>
    let captured := Term.list (residual.map Entry.pair)
    match transform captured with
    | .ok t => .ok (.tuple (slots.map fun slot => slot.getD t))
    | .error reason => .error (.fault p (.conversionFailed restCapture captured reason))
  | none =>
    if residual.isEmpty then .ok (.tuple (slots.map fun slot => slot.getD .null))
    else .error (.fault p (.superfluousFields (residual.map Entry.name)))

namespace Spec

/-- The native form of a value whose kind is accepted. -/
def ofKind (accepts : Kind → Bool) (spec : Spec) (v : Value) (p : Path) : Outcome :=
  if accepts v.kind then .ok v.toTerm else .error (.wrongType v spec p)

mutual

/-- The canonical form of a value at a path, given a way to match against names. -/
def canonical (refer : String → Matcher) : Spec → Matcher
  | any, v, _ => .ok v.toTerm
  | string, v, p => ofKind (· == .string) string v p
  | number, v, p => ofKind Kind.isNumeric number v p
  | integer, v, p => ofKind (· == .integer) integer v p
  | boolean, v, p => ofKind (· == .boolean) boolean v p
  | array element, v, p =>
    match v.elements? with
    | some items => (Matcher.items (canonical refer element) p 0 items).map .list
    | none => .error (.wrongType v (array element) p)
  | list element, v, p =>
    match v.elements? with
    | some items => (Matcher.items (canonical refer element) p 0 items).map .list
    | none => .error (.wrongType v (list element) p)
  | object fields, v, p =>
    match v.mapping? with
    | some entries => (slots refer entries p fields).bind (closeFields fields entries p)
    | none => .error (.wrongType v (object fields) p)
  | proplist fields, v, p =>
    match v.proplist? with
    | some entries => (slots refer entries p fields).bind (closeFields fields entries p)
    | none => .error (.wrongType v (proplist fields) p)
  | member literals, v, p =>
    match literals.find? fun literal => literal.same v.toTerm with
    | some literal => .ok literal
    | none => .error (.wrongType v (member literals) p)
  | satisfy predicate description, v, p =>
    if predicate v.toTerm then .ok v.toTerm
    else .error (.fault p (.constraintNotSatisfied description v.toTerm))
  | convert function description, v, p =>
    match function v.toTerm with
    | .ok t => .ok t
    | .error reason => .error (.fault p (.conversionFailed description v.toTerm reason))
  | pipeline [], v, _ => .ok v.toTerm
  | pipeline (stage :: stages), v, p =>
    (canonical refer stage v p).bind fun t => through refer p stages t
  | named name, v, p => refer name v p

/-- The slots of a row of fields, the one of a rest directive still open. -/
def slots (refer : String → Matcher) (entries : List Entry) (p : Path) :
    List Field → Except Failure (List (Option Term))
  | [] => .ok []
  | .required key spec :: fields =>
    match Entry.first? key entries with
    | some v =>
      (canonical refer spec v (p.field key)).bind fun t =>
        (slots refer entries p fields).map (some t :: ·)
    | none => .error (.fault p (.missingField key))
  | .optional key spec default :: fields =>
    match Entry.first? key entries with
    | some v =>
      (canonical refer spec v (p.field key)).bind fun t =>
        (slots refer entries p fields).map (some t :: ·)
    | none => (slots refer entries p fields).map (some default :: ·)
  | .rest _ :: fields => (slots refer entries p fields).map (none :: ·)

/-- What the stages of a pipeline make of a term, one after the other. -/
def through (refer : String → Matcher) (p : Path) : List Spec → Term → Outcome
  | [], t => .ok t
  | stage :: stages, t =>
    (canonical refer stage (.native t) p).bind fun u => through refer p stages u

end

end Spec

/-! ### Names -/

/-- A table of named specifications. -/
abbrev Definitions := List (String × Spec)

namespace Definitions

/-- The specification of a name. -/
def find? (defs : Definitions) (name : String) : Option Spec :=
  (List.find? (fun d => d.1 == name) defs).map Prod.snd

/-- Matching against a name, which may lead on to at most `bound` names in a row. -/
def refer (defs : Definitions) : Nat → String → Matcher
  | 0, _, _, _ => .error .endless
  | bound + 1, name, v, p =>
    match find? defs name with
    | some spec => spec.canonical (refer defs bound) v p
    | none => .error (.undefined name)

/-- The outcome of a match that follows at most `bound` names in a row. -/
def matching (defs : Definitions) (bound : Nat) (spec : Spec) : Matcher :=
  spec.canonical (defs.refer bound)

/-- How many names a match follows in a row before it is given up.  Following names has no limit of
its own: it goes on until there is an answer or the stack is full, and this bound stands for the
stack.  An answer within it is the answer within every greater one (`endsIn_of_ne`), and where the
names are guarded there is a bound from which on no answer depends on it (`matching_settled`). -/
def longestChain : Nat := 10000

/-- The canonical form of a document from its root. -/
def validateDocument (defs : Definitions) (spec : Spec) (d : Document) : Outcome :=
  defs.matching longestChain spec (.document d) Path.root

/-- The canonical form of a native term from its root. -/
def validateNative (defs : Definitions) (spec : Spec) (t : Term) : Outcome :=
  defs.matching longestChain spec (.native t) Path.root

/-- The canonical form of a value from its root, as the document or the native term that it is. -/
def validate (defs : Definitions) (spec : Spec) : Value → Outcome
  | .document d => defs.validateDocument spec d
  | .native t => defs.validateNative spec t

end Definitions

end Conform
