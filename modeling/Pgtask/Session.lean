import Pgtask.Schema

/-!
# One call in progress

A call runs in a session: the database, the number of UUIDs drawn so far, and
the AFTER triggers that its current statement has queued. An error aborts the
call, so no state is kept for it.
-/

open Sql

namespace Pgtask

inductive SqlError
  /-- `RAISE EXCEPTION ... USING ERRCODE`. -/
  | exception (sqlstate message : String)
  | checkViolation (constraint : String)
  | uniqueViolation (constraint : String)
  | foreignKeyViolation (constraint : String)
  /-- An `integer` computation leaves 32 bits. -/
  | integerOutOfRange
  | invalidTextRepresentation
  | negativeLimit
  /-- Triggers nested deeper than the drain was given. -/
  | stackDepthExceeded
  /-- A recursive query on a cycle: its working table never becomes empty. -/
  | endlessRecursion
  deriving DecidableEq

def invalidParameter (message : String) : SqlError := .exception "22023" message

/-- What the server supplies to a call. `uuid n` is the value of the `n`-th
`gen_random_uuid()` of the whole run. `timestampText` renders a `timestamptz` as
JSON does, in the session's time zone. -/
structure Server where
  uuid : Nat → Uuid
  timestampText : Timestamp → String

structure Env extends Server where
  now : Timestamp

/-- A queued AFTER UPDATE trigger, with the rows OLD and NEW it reads. -/
inductive Trigger
  | cancelOwnedChildren (id : Uuid) (new : Task)
  | manageIdempotencyKey (id : Uuid) (old new : Task)
  | resolveTaskResult (id : Uuid) (new : Task)
  deriving DecidableEq

structure Session where
  db : Database
  drawn : Nat
  queued : List Trigger

abbrev Result (α : Type) := Except SqlError α

def require (checks : List (String × Bool)) : Result Unit :=
  match checks.find? fun c => !c.2 with
  | some c => .error (.checkViolation c.1)
  | none => .ok ()

def int4Succ (n : Nat) : Result Nat :=
  if n < 2147483647 then .ok (n + 1) else .error .integerOutOfRange

def limit (n : Int) : Result Nat :=
  if n < 0 then .error .negativeLimit else .ok n.toNat

def lexLe {α β : Type} [DecidableEq α] (le : α → α → Bool) (le' : β → β → Bool) (x y : α × β) : Bool :=
  if x.1 = y.1 then le' x.2 y.2 else le x.1 y.1

/-- The fence: the row that a call with this lease may change. -/
def fenced (db : Database) (id : Uuid) (attempt : Nat) (leaseToken : Uuid) : Option Task :=
  (db.tasks.get? id).filter fun t =>
    t.state = .running && t.attempt = attempt && t.leaseToken = some leaseToken

/-- `COALESCE(failed_attempts, (SELECT count(*) FROM attempts ... IN ('failed', 'lost')))`. -/
def historicalFailures (db : Database) (id : Uuid) (t : Task) : Nat :=
  t.failedAttempts.getD (db.attempts.count fun k a => k.1 = id && a.state.failure)

end Pgtask
