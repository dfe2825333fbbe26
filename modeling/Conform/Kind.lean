/-!
# Kinds of values

The tag a value reports about itself.  Values of a document have the kinds `object`, `array`,
`string`, `number`, `integer`, `boolean` and `null`; terms have `list` for `array`, and also `atom`
and `tuple`.
-/

namespace Conform

/-- The tag of a value.  `integer` is a number in integer representation; `number` is any other. -/
inductive Kind where
  | object
  | array
  | string
  | number
  | integer
  | boolean
  | null
  | atom
  | list
  | tuple
  deriving DecidableEq

namespace Kind

/-- The name of a kind, as messages spell it. -/
def name : Kind → String
  | object => "object"
  | array => "array"
  | string => "string"
  | number => "number"
  | integer => "integer"
  | boolean => "boolean"
  | null => "null"
  | atom => "atom"
  | list => "list"
  | tuple => "tuple"

/-- Every kind, in the order of declaration. -/
def all : List Kind :=
  [object, array, string, number, integer, boolean, null, atom, list, tuple]

/-- The kind of the given name. -/
def ofName? (name : String) : Option Kind := all.find? fun kind => kind.name == name

/-- Integers are numbers too. -/
def isNumeric : Kind → Bool
  | number | integer => true
  | _ => false

@[simp] theorem ofName?_name (kind : Kind) : ofName? kind.name = some kind := by
  cases kind <;> rfl

end Kind

end Conform
