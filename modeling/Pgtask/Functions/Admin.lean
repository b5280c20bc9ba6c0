import Pgtask.Functions.Durable
import Pgtask.Functions.Registry

/-! # Retention and administration -/

open Sql

namespace Pgtask

/-! ## Retention -/

def byCompletion (x y : Uuid × Task) : Bool :=
  lexLe (· ≤ ·) (· ≤ ·) (x.2.completedAt.getD 0, x.1) (y.2.completedAt.getD 0, y.1)

/-- A finished task of the queue that is past its retention and owns no child. -/
def expiredTerminal (e : Env) (db : Database) (queueName : String) (id : Uuid) (t : Task) : Bool :=
  t.queueName = queueName && t.state.terminal &&
    ((db.queues.get? queueName).any fun q => t.completedAt.any fun c =>
      c ≤ e.now - seconds q.terminalRetentionSeconds) &&
    !db.tasks.rows.any fun x => x.2.parentTaskId = some id

def deleteExpiredTerminal (e : Env) (queueName : String) (count : Int) (s : Session) :
    Result (Nat × Session) := do
  let n ← limit count
  let rows := ((s.db.tasks.select (expiredTerminal e s.db queueName)).insertionSort
    fun x y => byCompletion x y).take n
  .ok (rows.length, { s with db := rows.foldl (deleteTask e) s.db })

def byKeyExpiry (x y : (String × String) × Reservation) : Bool :=
  lexLe (· ≤ ·) (fun a b => decide (a ≤ b)) (x.2.expiresAt.getD 0, x.1.2) (y.2.expiresAt.getD 0, y.1.2)

def deleteExpiredIdempotencyKeys (e : Env) (queueName : String) (count : Int) (s : Session) :
    Result (Nat × Session) := do
  let n ← limit count
  let rows := ((s.db.idempotencyKeys.select fun k r => k.1 = queueName &&
    r.expiresAt.any (· ≤ e.now)).insertionSort fun x y => byKeyExpiry x y).take n
  let gone := rows.map Prod.fst
  .ok (rows.length, { s with db := { s.db with
    idempotencyKeys := s.db.idempotencyKeys.delete fun k _ => gone.contains k } })

/-! ## Cancellation -/

def cancelTask (e : Env) (id : Uuid) (s : Session) : Result (Option (String × String) × Session) :=
  match (s.db.tasks.get? id).filter fun t => t.state.outstanding with
  | none => .ok (none, s)
  | some t => do
    let s ← cancelRow e (.obj [("type", .str "cancelled")]) s (id, t)
    let s ← fireTriggers e s
    .ok (some (t.queueName, t.taskName), s)

def validActor (actor : Option String) : Result String :=
  argument actor (fun a => a ≠ "" && a.utf8ByteSize ≤ 255) "invalid administrator actor"

def recordAudit (actor : String) (action : AuditAction) (target : Uuid) (s : Session) : Session :=
  { s with db := { s.db with
      administratorAudit := s.db.administratorAudit ++ [⟨actor, action, target⟩] } }

def adminCancelTask (e : Env) (id : Uuid) (actor : Option String) (s : Session) :
    Result (Bool × Session) := do
  let actor ← validActor actor
  let (cancelled, s) ← cancelTask e id s
  .ok (cancelled.isSome, if cancelled.isSome then recordAudit actor .taskCancel id s else s)

/-! ## Retry -/

/-- The row that `admin_retry_task` writes. The attempt counter and the failures stay. -/
def Task.retried (now : Timestamp) (maxAttempts : Int) (t : Task) : Task :=
  { t with
    state := .pending, runAt := now, maxAttempts := maxAttempts, leaseToken := none,
    leaseOwner := none, leaseExpiresAt := none, cancelRequestedAt := none, completedAt := none,
    result := none, error := none }

def adminRetryTask (e : Env) (id : Uuid) (actor : Option String) (s : Session) :
    Result (Bool × Session) := do
  let actor ← validActor actor
  match (s.db.tasks.get? id).filter fun t => t.state = .failed || t.state = .cancelled with
  | none => .ok (false, s)
  | some t =>
    let budget ← int4Succ (historicalFailures s.db id t)
    let s ← updateTask id t (t.retried e.now (max t.maxAttempts budget)) s
    let s ← fireTriggers e s
    .ok (true, recordAudit actor .taskRetry id s)

def adminSetSchedulePaused (e : Env) (id : Uuid) (paused : Bool) (actor : Option String)
    (s : Session) : Result (Bool × Session) := do
  let actor ← validActor actor
  let (changed, s) := setSchedulePaused e id paused s
  let action : AuditAction := if paused then .schedulePause else .scheduleResume
  .ok (changed.isSome, if changed.isSome then recordAudit actor action id s else s)

end Pgtask
