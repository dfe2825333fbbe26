import Conform.Settings.Tree

/-!
# Histories of a store

What is done to a store, one operation after the other, and what each of them answers.  A load that
is rejected answers with its fault and leaves the store as it was.
-/

namespace Conform.Store

/-- Something that is done to a store. -/
inductive Operation where
  | set (ns key : String) (v : Value)
  | remove (ns key : String)
  /-- Merging the settings of a tree, or of a text that is no tree at all. -/
  | load (tree : Option Yaml)

/-- What an operation answers. -/
inductive Answer where
  /-- The value that was stored under the same two names before. -/
  | previous (v : Option Value)
  /-- The number of settings that were loaded. -/
  | loaded (count : Nat)
  | rejected (fault : LoadFault)

/-- The answer of an operation and the store after it. -/
def perform (op : Operation) (store : Store) : Answer × Store :=
  match op with
  | .set ns key v => (.previous (store.get? ns key), store.set ns key v)
  | .remove ns key => (.previous (store.get? ns key), store.remove ns key)
  | .load tree =>
    match store.load tree with
    | .ok (count, after) => (.loaded count, after)
    | .error fault => (.rejected fault, store)

/-- The answers of a row of operations and the store after them. -/
def run : List Operation → Store → List Answer × Store
  | [], store => ([], store)
  | op :: ops, store =>
    let (answer, next) := store.perform op
    let (answers, last) := run ops next
    (answer :: answers, last)

end Conform.Store
