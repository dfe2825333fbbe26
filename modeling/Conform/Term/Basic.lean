import Conform.Double.Rounding
import Conform.Kind

/-!
# Terms

A `Term` is a native value, and the canonical form that every match produces.  Lists and tuples are
sequences of different kinds; a `map` is an object of a document carried along as it is, its entries
in order and not necessarily of distinct keys.

A *proplist* is a list whose every element is a pair keyed by an atom or a string.  Keys with the
same text name the same field whichever of the two they are.
-/

namespace Conform

/-- A native value.  An integer is an `int` if it fits; `uint` is for the ones above. -/
inductive Term where
  | null
  | bool (value : Bool)
  | int (value : Int64)
  | uint (value : UInt64)
  | float (value : Double)
  | str (text : String)
  | atom (text : String)
  | list (items : List Term)
  | tuple (items : List Term)
  | map (entries : List (String × Term))

namespace Term

instance : Inhabited Term := ⟨null⟩

/-! ### Construction -/

/-- A pair with a string key. -/
def pair (key : String) (value : Term) : Term := tuple [str key, value]

/-- The proplist of the given pairs, with atom keys. -/
def proplist (pairs : List (String × Term)) : Term :=
  list (pairs.map fun p => tuple [atom p.1, p.2])

/-- The integer of an unsigned word: an `int` whenever it fits. -/
def ofUInt64 (n : UInt64) : Term :=
  if n.toNat < 0x8000000000000000 then int (Int64.ofNat n.toNat) else uint n

/-! ### Views -/

/-- The tag of a term. -/
def kind : Term → Kind
  | null => .null
  | bool _ => .boolean
  | int _ | uint _ => .integer
  | float _ => .number
  | str _ => .string
  | atom _ => .atom
  | list _ => .list
  | tuple _ => .tuple
  | map _ => .object

/-- The text of a term that can be a field key. -/
def keyName? : Term → Option String
  | atom text | str text => some text
  | _ => none

/-- Key and value of a pair keyed by an atom or a string. -/
def keyed? : Term → Option (Term × Term)
  | tuple [key, value] => key.keyName?.map fun _ => (key, value)
  | _ => none

/-- The pairs of a proplist, in order. -/
def asProplist? : Term → Option (List (Term × Term))
  | list items => items.mapM keyed?
  | _ => none

/-- The value of a signed integer term. -/
def asInt64? : Term → Option Int64
  | int n => some n
  | _ => none

/-- The value of an integer term that is not negative. -/
def asUInt64? : Term → Option UInt64
  | int n => if n.toInt < 0 then none else some (UInt64.ofNat n.toInt.toNat)
  | uint n => some n
  | _ => none

/-- The value of a numeric term, rounded if need be. -/
def asDouble? : Term → Option Double
  | int n => some (Double.ofInt n.toInt)
  | uint n => some (Double.ofNat n.toNat)
  | float x => some x
  | _ => none

/-- The text of a string term; atoms have none. -/
def asString? : Term → Option String
  | str text => some text
  | _ => none

/-- The truth value of a boolean term. -/
def asBool? : Term → Option Bool
  | bool b => some b
  | _ => none

/-- The elements of a list. -/
def asList? : Term → Option (List Term)
  | list items => some items
  | _ => none

/-- The elements of a tuple. -/
def asTuple? : Term → Option (List Term)
  | tuple items => some items
  | _ => none

@[simp] theorem asProplist?_nil : (list []).asProplist? = some [] := rfl

end Term

end Conform
