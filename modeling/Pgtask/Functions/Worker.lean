import Pgtask.Functions.Enqueue
import Pgtask.Lib.Forest
import Mathlib.Data.List.Sort

/-!
# The worker protocol

Claims, lease renewal, and the transitions that a lease allows. Every one of
these transitions reads its row through `fenced`.
-/

open Sql

namespace Pgtask

/-! ## Claim -/

def byRunAt (x y : Uuid × Task) : Bool :=
  lexLe (· ≤ ·) (· ≤ ·) (x.2.runAt, x.1) (y.2.runAt, y.1)

def byPriority (x y : Uuid × Task) : Bool :=
  lexLe (· ≥ ·) (lexLe (· ≤ ·) (· ≤ ·)) (x.2.priority, x.2.runAt, x.1) (y.2.priority, y.2.runAt, y.1)

/-- What `starved` and `priority_candidates` both require of a task, up to the time limit. -/
def claimable (db : Database) (queueName : String) (handlers : List (String × Int))
    (readyBy : Timestamp) (id : Uuid) (t : Task) : Bool :=
  t.queueName = queueName && t.state = .pending && t.runAt ≤ readyBy &&
    (historicalFailures db id t : Int) < t.maxAttempts && handlers.contains (t.taskName, t.handlerVersion)

def claimCandidates (e : Env) (db : Database) (queueName : String) (handlers : List (String × Int))
    (limit : Int) : List (Uuid × Task) :=
  match (db.queues.get? queueName).filter fun q => q.pausedAt.isNone with
  | none => []
  | some q =>
    let starved := ((db.tasks.select (claimable db queueName handlers
      (e.now - seconds q.starvationTimeoutSeconds))).insertionSort fun x y => byRunAt x y).take
        (if 0 < limit then 1 else 0)
    let priorityCandidates := ((db.tasks.select fun id t =>
      claimable db queueName handlers e.now id t && !starved.any (·.1 = id)).insertionSort
        fun x y => byPriority x y).take (limit - starved.length).toNat
    starved ++ priorityCandidates

def RetryColumns.coalesce (r policy : RetryColumns) : RetryColumns where
  kind := r.kind.or policy.kind
  baseDelayMilliseconds := r.baseDelayMilliseconds.or policy.baseDelayMilliseconds
  factor := r.factor.or policy.factor
  maxDelayMilliseconds := r.maxDelayMilliseconds.or policy.maxDelayMilliseconds

def Task.claimed (e : Env) (db : Database) (id : Uuid) (t : Task) (attempt : Nat)
    (leaseToken workerId : Uuid) (leaseMilliseconds : Int) : Task :=
  let policy := (db.handlerPolicies.get? ⟨t.queueName, t.taskName, t.handlerVersion⟩).getD {}
  { t with
    state := .running
    failedAttempts := some (historicalFailures db id t)
    attempt := attempt
    leaseToken := some leaseToken
    leaseOwner := some workerId
    leaseExpiresAt := some (e.now + milliseconds leaseMilliseconds)
    retry := t.retry.coalesce policy }

def claimRow (e : Env) (workerId : Uuid) (leaseMilliseconds : Int) (row : Uuid × Task)
    (s : Session) : Result ((Uuid × Task) × Session) := do
  let (id, t) := row
  let attempt ← int4Succ t.attempt
  let (leaseToken, s) := genRandomUuid e s
  let new := t.claimed e s.db id attempt leaseToken workerId leaseMilliseconds
  let s ← updateTask id t new s
  if (s.db.attempts.get? (id, attempt)).isSome then .error (.uniqueViolation "attempts_pkey")
  else
    let a : Attempt := { leaseToken, workerId }
    .ok ((id, new), { s with db := { s.db with attempts := s.db.attempts.put (id, attempt) a } })

def claimRows (e : Env) (workerId : Uuid) (leaseMilliseconds : Int) :
    List (Uuid × Task) → Session → Result (List (Uuid × Task) × Session)
  | [], s => .ok ([], s)
  | row :: rows, s => do
    let (claimed, s) ← claimRow e workerId leaseMilliseconds row s
    let (rest, s) ← claimRows e workerId leaseMilliseconds rows s
    .ok (claimed :: rest, s)

def claim (e : Env) (queueName : String) (workerId : Uuid) (taskNames : List String)
    (handlerVersions : List Int) (limit leaseMilliseconds : Int) (s : Session) :
    Result (List (Uuid × Task) × Session) :=
  claimRows e workerId leaseMilliseconds
    (claimCandidates e s.db queueName (taskNames.zip handlerVersions) limit) s

/-! ## Renewal and release -/

structure Lease where
  taskId : Uuid
  attempt : Nat
  leaseToken : Uuid
  deriving DecidableEq

def Lease.owns (l : Lease) (id : Uuid) (t : Task) : Bool :=
  l.taskId = id && t.state = .running && t.attempt = l.attempt && t.leaseToken = some l.leaseToken

def parentOf (db : Database) (id : Uuid) : Option Uuid :=
  ((db.tasks.get? id).bind Task.parentTaskId).filter fun p => (db.tasks.get? p).isSome

/-- Rounds that a walk over the tasks can need: each task once, and one to stop. -/
def walkBound (db : Database) : Nat := db.tasks.rows.length + 1

/-- `ancestry` walks up from every requested task. On a cycle it has no end. -/
def walkAncestry (db : Database) (ids : List Uuid) : Result Unit :=
  if ids.all fun id => (db.tasks.get? id).isNone || (Forest.walk (parentOf db) (walkBound db) id).isSome
  then .ok () else .error .endlessRecursion

def renewLeases (e : Env) (leases : List Lease) (leaseMilliseconds : Int) (s : Session) :
    Result (List Uuid × Session) := do
  walkAncestry s.db (leases.map Lease.taskId)
  let rows := s.db.tasks.select fun id t =>
    leases.any (·.owns id t) && t.cancelRequestedAt.isNone
  let s ← rows.foldlM (fun s (id, t) => updateTaskColumns id { t with
    leaseExpiresAt := some (e.now + milliseconds leaseMilliseconds) } s) s
  .ok (rows.map Prod.fst, s)

/-- A running task goes back to `pending` without its lease. -/
def Task.yielded (runAt : Timestamp) (t : Task) : Task :=
  { t with state := .pending, runAt := runAt, leaseToken := none, leaseOwner := none,
           leaseExpiresAt := none }

def releaseRow (e : Env) (s : Session) (row : Uuid × Task) : Result Session := do
  let (id, t) := row
  let s ← updateTask id t (t.yielded e.now) s
  updateAttempt (id, t.attempt) (fun a =>
    { a with state := .released, finishedAt := some e.now }) s

def releaseTasks (e : Env) (leases : List Lease) (s : Session) : Result (List Uuid × Session) := do
  walkAncestry s.db (leases.map Lease.taskId)
  let rows := s.db.tasks.select fun id t => leases.any (·.owns id t)
  let s ← rows.foldlM (releaseRow e) s
  .ok (rows.map Prod.fst, s)

/-! ## Completion and failure -/

def completeRow (e : Env) (id : Uuid) (t : Task) (result : Option Json) (s : Session) :
    Result Session := do
  let s ← updateTask id t { t with
    state := .succeeded, leaseToken := none, leaseOwner := none, leaseExpiresAt := none,
    completedAt := some e.now, result := result, error := none } s
  updateAttempt (id, t.attempt) (fun a =>
    { a with state := .succeeded, finishedAt := some e.now, error := none }) s

def completeTask (e : Env) (id : Uuid) (attempt : Nat) (leaseToken : Uuid) (result : Option Json)
    (s : Session) : Result (Bool × Session) :=
  match fenced s.db id attempt leaseToken with
  | none => .ok (false, s)
  | some t => do
    let s ← completeRow e id t result s
    let s ← fireTriggers e s
    .ok (true, s)

/-- The row that a failure leaves: `pending` again at `runAt` if `retry` and the budget allows
it, `failed` otherwise. `recover_expired` keeps `run_at` when it fails the task; `fail_task`
moves it whenever a delay was given. -/
def Task.failedWith (e : Env) (t : Task) (failures : Nat) (error : Option Json) (retry : Bool)
    (runAt : Timestamp) : Task :=
  let again := retry && (failures : Int) < t.maxAttempts
  { t with
    state := if again then .pending else .failed
    runAt := runAt
    leaseToken := none, leaseOwner := none, leaseExpiresAt := none
    completedAt := if again then none else some e.now
    error := error
    failedAttempts := some failures }

def failRow (e : Env) (id : Uuid) (t : Task) (error : Option Json) (retryMilliseconds : Option Int)
    (s : Session) : Result (TaskState × Session) := do
  let failures ← int4Succ (historicalFailures s.db id t)
  let runAt := match retryMilliseconds with
    | some ms => e.now + milliseconds ms
    | none => t.runAt
  let new := t.failedWith e failures error retryMilliseconds.isSome runAt
  let s ← updateTask id t new s
  let s ← updateAttempt (id, t.attempt) (fun a =>
    { a with state := .failed, finishedAt := some e.now, error := error }) s
  .ok (new.state, s)

def failTask (e : Env) (id : Uuid) (attempt : Nat) (leaseToken : Uuid) (error : Option Json)
    (retryMilliseconds : Option Int) (s : Session) : Result (Option TaskState × Session) :=
  match fenced s.db id attempt leaseToken with
  | none => .ok (none, s)
  | some t => do
    let (state, s) ← failRow e id t error retryMilliseconds s
    let s ← fireTriggers e s
    .ok (some state, s)

/-- One element of `p_completions`. `spelling` is the text of its task id, by which
`complete_tasks` looks for duplicates. -/
structure Completion where
  spelling : String
  lease : Lease
  result : Option Json

/-- The batch UPDATE: `act` runs on each request that passes the fence, and the others get the
answer `lost`. -/
def forFenced {α β : Type} (lease : α → Lease) (lost : β)
    (act : α → Task → Session → Result (β × Session)) : List α → Session → Result (List β × Session)
  | [], s => .ok ([], s)
  | a :: as, s => match fenced s.db (lease a).taskId (lease a).attempt (lease a).leaseToken with
    | none => do
      let (replies, s) ← forFenced lease lost act as s
      .ok (lost :: replies, s)
    | some t => do
      let (reply, s) ← act a t s
      let (replies, s) ← forFenced lease lost act as s
      .ok (reply :: replies, s)

def completeRequest (e : Env) (c : Completion) (t : Task) (s : Session) : Result (Bool × Session) := do
  let s ← completeRow e c.lease.taskId t c.result s
  .ok (true, s)

def completeRows (e : Env) : List Completion → Session → Result (List Bool × Session) :=
  forFenced Completion.lease false (completeRequest e)

def completeTasks (e : Env) (completions : List Completion) (s : Session) :
    Result (List Bool × Session) := do
  if (completions.map Completion.spelling).Nodup then
    let (replies, s) ← completeRows e completions s
    let s ← fireTriggers e s
    .ok (replies, s)
  else
    .error (invalidParameter "completions contain duplicate task IDs")

structure Failure where
  spelling : String
  lease : Lease
  error : Option Json
  retryMilliseconds : Option Int

def failRequest (e : Env) (f : Failure) (t : Task) (s : Session) :
    Result (Option TaskState × Session) := do
  let (state, s) ← failRow e f.lease.taskId t f.error f.retryMilliseconds s
  .ok (some state, s)

def failRows (e : Env) : List Failure → Session → Result (List (Option TaskState) × Session) :=
  forFenced Failure.lease none (failRequest e)

def failTasks (e : Env) (failures : List Failure) (s : Session) :
    Result (List (Option TaskState) × Session) := do
  if (failures.map Failure.spelling).Nodup then
    let (replies, s) ← failRows e failures s
    let s ← fireTriggers e s
    .ok (replies, s)
  else
    .error (invalidParameter "failures contain duplicate task IDs")

/-! ## Lease recovery -/

def byLeaseExpiry (x y : Uuid × Task) : Bool :=
  lexLe (· ≤ ·) (· ≤ ·) (x.2.leaseExpiresAt.getD 0, x.1) (y.2.leaseExpiresAt.getD 0, y.1)

def leaseExpired : Json := .obj [("type", .str "lease_expired")]

def recoverRow (e : Env) (s : Session) (row : Uuid × Task) : Result Session := do
  let (id, t) := row
  let failures ← int4Succ (historicalFailures s.db id t)
  let runAt := if (failures : Int) < t.maxAttempts then e.now else t.runAt
  let s ← updateTask id t (t.failedWith e failures (some leaseExpired) true runAt) s
  updateAttempt (id, t.attempt) (fun a =>
    { a with state := .lost, finishedAt := some e.now, error := some leaseExpired }) s

def expiredLeases (e : Env) (db : Database) (queueName : String) (n : Nat) : List (Uuid × Task) :=
  ((db.tasks.select fun _ t => t.queueName = queueName && t.state = .running &&
    t.leaseExpiresAt.any (· ≤ e.now)).insertionSort fun x y => byLeaseExpiry x y).take n

def recoverExpired (e : Env) (queueName : String) (count : Int) (s : Session) :
    Result (Nat × Session) := do
  let n ← limit count
  let expired := expiredLeases e s.db queueName n
  let s ← expired.foldlM (recoverRow e) s
  let s ← fireTriggers e s
  .ok (expired.length, s)

end Pgtask
