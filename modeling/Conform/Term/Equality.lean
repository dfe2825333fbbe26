import Conform.Term.Basic

/-!
# Equality of terms

Two terms are the *same* if they have the same shape and the same contents, numbers being compared
as numbers: `0.0` and `-0.0` are the same and a NaN is the same as nothing.  An `int` and a `uint`
are never the same, nor are a list and a tuple, nor an atom and a string.  The entries of maps are
compared in order.
-/

namespace Conform.Term

mutual

/-- The terms agree as values. -/
def same : Term → Term → Bool
  | null, null => true
  | bool a, bool b => a == b
  | int a, int b => a == b
  | uint a, uint b => a == b
  | float x, float y => x.same y
  | str s, str t => s == t
  | atom s, atom t => s == t
  | list xs, list ys => sameItems xs ys
  | tuple xs, tuple ys => sameItems xs ys
  | map es, map fs => sameEntries es fs
  | _, _ => false

/-- The sequences have equal lengths and agree element by element. -/
def sameItems : List Term → List Term → Bool
  | [], [] => true
  | x :: xs, y :: ys => x.same y && sameItems xs ys
  | _, _ => false

/-- The entries agree key by key and value by value, in order. -/
def sameEntries : List (String × Term) → List (String × Term) → Bool
  | [], [] => true
  | (k, x) :: es, (l, y) :: fs => k == l && x.same y && sameEntries es fs
  | _, _ => false

end

end Conform.Term
