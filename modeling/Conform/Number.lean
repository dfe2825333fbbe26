import Conform.Term.Basic

/-!
# Numbers of documents

A number in a document is an integer of the signed or the unsigned 64-bit range, or else a finite
double.  It can be asked for as a signed integer, as an unsigned one and as a double, and
`Number.toTerm` takes the first of these that there is.

* `toTerm_integer` and `toTerm_float`: an integer has the one variant of term that is for it, `int`
  if it fits, and a double stays a double.
* `toTerm_ne_null`: there always is one of the three, so no number becomes `null`.
-/

namespace Conform

/-- A number of a document.  The ranges and finiteness are part of it, so that no number is without
a term. -/
inductive Number where
  | integer (n : Int) (least : -0x8000000000000000 ≤ n) (below : n < 0x10000000000000000)
  | float (x : Double) (finite : x.isFinite = true)
  deriving DecidableEq

namespace Number

/-- The number of an integer that is in range. -/
def ofInt? (n : Int) : Option Number :=
  if least : -0x8000000000000000 ≤ n then
    if below : n < 0x10000000000000000 then some (integer n least below) else none
  else none

/-- The number of a double that is finite. -/
def ofDouble? (x : Double) : Option Number :=
  if h : x.isFinite = true then some (float x h) else none

/-- The tag of a number. -/
def kind : Number → Kind
  | integer .. => .integer
  | float .. => .number

/-- The value of an integer that fits into a signed word. -/
def asInt64? : Number → Option Int64
  | integer n _ _ => if n < 0x8000000000000000 then some (Int64.ofInt n) else none
  | float .. => none

/-- The value of an integer that is not negative. -/
def asUInt64? : Number → Option UInt64
  | integer n _ _ => if 0 ≤ n then some (UInt64.ofNat n.toNat) else none
  | float .. => none

/-- The value of a number, rounded if need be. -/
def asDouble? : Number → Option Double
  | integer n _ _ => some (Double.ofInt n)
  | float x _ => some x

/-- The term of a number. -/
def toTerm (n : Number) : Term :=
  match n.asInt64?, n.asUInt64? with
  | some i, _ => .int i
  | none, some u => .uint u
  | none, none =>
    match n.asDouble? with
    | some x => .float x
    | none => .null

theorem toTerm_integer (n : Int) (least : -0x8000000000000000 ≤ n)
    (below : n < 0x10000000000000000) :
    (integer n least below).toTerm =
      if n < 0x8000000000000000 then .int (Int64.ofInt n) else .uint (UInt64.ofNat n.toNat) := by
  rw [toTerm, asInt64?, asUInt64?]
  by_cases h : n < 0x8000000000000000
  · rw [if_pos h, if_pos h]
  · have hpos : 0 ≤ n := by omega
    rw [if_neg h, if_neg h, if_pos hpos]

theorem toTerm_float (x : Double) (finite : x.isFinite = true) :
    (float x finite).toTerm = .float x := rfl

/-- No number is without a value. -/
theorem toTerm_ne_null (n : Number) : n.toTerm ≠ .null := by
  cases n with
  | integer n _ _ => rw [toTerm_integer]; split <;> nofun
  | float x finite => rw [toTerm_float]; nofun

@[simp] theorem kind_toTerm (n : Number) : n.toTerm.kind = n.kind := by
  cases n with
  | integer n _ _ => rw [toTerm_integer]; split <;> rfl
  | float x _ => rfl

end Number

end Conform
