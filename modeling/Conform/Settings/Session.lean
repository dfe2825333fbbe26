import Conform.Settings.Lookup
import Conform.Settings.Operation

/-!
# Sessions of a store

A session is what a store is asked to do, one request after the other: operations, which may change
it, and look-ups, which are answered from what is stored at that moment.
-/

namespace Conform.Store

/-- The canonical form of the setting under a namespace and a key, or what the fallback says. -/
def lookup (store : Store) (defs : Definitions) (ns key : String) (fallback : Fallback)
    (spec : Spec) : Except SettingsError Term :=
  Conform.lookup defs ns key fallback spec (store.get? ns key)

/-- Something that a store is asked for. -/
inductive Request where
  | operation (op : Operation)
  | lookup (ns key : String) (fallback : Fallback) (spec : Spec)

/-- What a request is replied with. -/
inductive Reply where
  | answer (a : Answer)
  | found (outcome : Except SettingsError Term)

/-- The operation of a request; a look-up is none. -/
def Request.operation? : Request → Option Operation
  | operation op => some op
  | lookup .. => none

/-- The reply to a request and the store after it. -/
def serve (defs : Definitions) (request : Request) (store : Store) : Reply × Store :=
  match request with
  | .operation op =>
    let (answer, after) := store.perform op
    (.answer answer, after)
  | .lookup ns key fallback spec => (.found (store.lookup defs ns key fallback spec), store)

/-- The replies to a row of requests and the store after them. -/
def session (defs : Definitions) : List Request → Store → List Reply × Store
  | [], store => ([], store)
  | request :: requests, store =>
    let (reply, next) := store.serve defs request
    let (replies, last) := session defs requests next
    (reply :: replies, last)

end Conform.Store
