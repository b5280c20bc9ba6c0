import Pgtask.Session

/-!
# Row writes and triggers

`updateTask` and `insertTask` are the only ways a row of `tasks` changes its
state or appears. They run the BEFORE triggers and the CHECK constraints and
queue the AFTER triggers. `fireTriggers` runs what a statement has queued: an
AFTER trigger's own statements fire their triggers before the next one starts.
-/

open Sql

namespace Pgtask

/-! ## BEFORE triggers -/

def changeCapacity (db : Database) (queueName : String) (f : Int → Int) : Database :=
  match db.queues.get? queueName with
  | some q =>
    let q := { q with capacityOutstandingTasks := f q.capacityOutstandingTasks }
    { db with queues := db.queues.put queueName q }
  | none => db

/-- `enforce_queue_capacity`. `old` is `none` for an INSERT. -/
def enforceQueueCapacity (old : Option TaskState) (new : TaskState) (queueName : String)
    (db : Database) : Result Database :=
  let limited := (db.queues.get? queueName).bind Queue.maxOutstandingTasks
  if old.any TaskState.outstanding && new.terminal then
    .ok (if limited.isSome then changeCapacity db queueName fun n => max (n - 1) 0 else db)
  else if old.any TaskState.outstanding || new.terminal then
    .ok db
  else
    match limited with
    | none => .ok db
    | some maximum =>
      if ((db.queues.get? queueName).map Queue.capacityOutstandingTasks).any (· < maximum) then
        .ok (changeCapacity db queueName (· + 1))
      else
        .error (.exception "PT001" s!"queue {queueName} has reached its capacity of {maximum} outstanding tasks")

def snapshotTaskRetryPolicy (db : Database) (new : Task) : Task :=
  match new.retry.kind with
  | some _ => new
  | none =>
    let policy := db.handlerPolicies.get? ⟨new.queueName, new.taskName, new.handlerVersion⟩
    { new with retry := policy.getD {} }

/-! ## Row writes -/

/-- The AFTER triggers that `UPDATE OF state` queues, in the order of their names.
`manage_idempotency_key` also fires when the row stays on its side of the
terminal boundary, but then it does nothing. -/
def afterUpdate (id : Uuid) (old new : Task) : List Trigger :=
  if old.state.outstanding && new.state.terminal then
    [.cancelOwnedChildren id new, .manageIdempotencyKey id old new, .resolveTaskResult id new]
  else if old.state.terminal && new.state.outstanding then
    [.manageIdempotencyKey id old new]
  else
    []

/-- `UPDATE tasks SET state = ...` on one row. -/
def updateTask (id : Uuid) (old new : Task) (s : Session) : Result Session := do
  let db ← enforceQueueCapacity (some old.state) new.state new.queueName s.db
  require (new.checks id)
  .ok { s with
    db := { db with tasks := db.tasks.put id new }
    queued := s.queued ++ afterUpdate id old new }

/-- `UPDATE tasks` on one row that leaves `state` out of its SET list: no trigger fires. -/
def updateTaskColumns (id : Uuid) (new : Task) (s : Session) : Result Session := do
  require (new.checks id)
  .ok { s with db := { s.db with tasks := s.db.tasks.put id new } }

/-- The BEFORE triggers and the checks of `INSERT INTO tasks`, and the row they leave. -/
def beforeInsertTask (id : Uuid) (new : Task) (s : Session) : Result (Task × Session) := do
  let db ← enforceQueueCapacity none new.state new.queueName s.db
  let new := snapshotTaskRetryPolicy db new
  require (new.checks id)
  .ok (new, { s with db := db })

/-- `INSERT INTO tasks` of one row, without an ON CONFLICT clause. -/
def insertTask (id : Uuid) (new : Task) (s : Session) : Result Session := do
  let (new, s) ← beforeInsertTask id new s
  if (s.db.tasks.get? id).isSome then .error (.uniqueViolation "tasks_pkey")
  else if (s.db.queues.get? new.queueName).isNone then
    .error (.foreignKeyViolation "tasks_queue_name_fkey")
  else .ok { s with db := { s.db with tasks := s.db.tasks.put id new } }

def updateAttempt (k : Uuid × Nat) (f : Attempt → Attempt) (s : Session) : Result Session :=
  match s.db.attempts.get? k with
  | none => .ok s
  | some a => do
    require (f a).checks
    .ok { s with db := { s.db with attempts := s.db.attempts.put k (f a) } }

/-- `INSERT INTO checkpoints ... DO UPDATE SET value = checkpoints.value RETURNING value`:
a value that is already there stays. -/
def saveCheckpoint (k : StepKey) (value : Json) (s : Session) : Result (Json × Session) := do
  require (checkpointChecks k value)
  match s.db.checkpoints.get? k with
  | some stored => .ok (stored, s)
  | none =>
    if (s.db.tasks.get? k.taskId).isNone then
      .error (.foreignKeyViolation "checkpoints_task_id_fkey")
    else .ok (value, { s with db := { s.db with checkpoints := s.db.checkpoints.put k value } })

/-- `UPDATE tasks SET state = 'pending', run_at = now WHERE id = ... AND state = 'waiting'`. -/
def wake (e : Env) (id : Uuid) (s : Session) : Result Session :=
  match s.db.tasks.get? id with
  | some t =>
    if t.state = .waiting then updateTask id t { t with state := .pending, runAt := e.now } s
    else .ok s
  | none => .ok s

def Task.cancelledAt (now : Timestamp) (error : Json) (t : Task) : Task :=
  { t with
    state := .cancelled, cancelRequestedAt := some now, leaseToken := none, leaseOwner := none,
    leaseExpiresAt := none, completedAt := some now, error := some error }

/-- Cancels one task row and, if its current attempt is still running, that attempt.
Three functions do this and differ in the error they record. -/
def cancelRow (e : Env) (error : Json) (s : Session) (row : Uuid × Task) : Result Session := do
  let (id, t) := row
  let s ← updateTask id t (t.cancelledAt e.now error) s
  updateAttempt (id, t.attempt) (fun a =>
    if a.state = .running then
      { a with state := .cancelled, finishedAt := some e.now, error := some error }
    else a) s

/-! ## AFTER triggers -/

def cancelOwnedChildren (e : Env) (id : Uuid) (new : Task) (s : Session) : Result Session :=
  let children := s.db.tasks.select fun _ t => t.parentTaskId = some id && t.state.outstanding
  let error := .obj [("type", .str "parent_finished"), ("parent_state", .str new.state.text),
    ("parent_task_id", .str id.text)]
  children.foldlM (cancelRow e error) s

/-- `manage_idempotency_key`, past its test for a NULL key. The reservation is touched only
while it still names this task. -/
def manageReservation (e : Env) (id : Uuid) (old new : Task) (key : String) (db : Database) :
    Database :=
  match db.idempotencyKeys.get? (new.queueName, key) with
  | none => db
  | some r =>
    if r.taskId ≠ id then db
    else if new.state.terminal && !old.state.terminal then
      let expiresAt := (db.queues.get? new.queueName).map fun q =>
        new.completedAt.getD e.now + seconds q.idempotencyRetentionSeconds
      { db with idempotencyKeys := db.idempotencyKeys.put (new.queueName, key) ⟨id, expiresAt⟩ }
    else if !new.state.terminal && old.state.terminal then
      { db with idempotencyKeys := db.idempotencyKeys.put (new.queueName, key) ⟨id, none⟩ }
    else db

def manageIdempotencyKey (e : Env) (id : Uuid) (old new : Task) (db : Database) : Database :=
  match new.idempotencyKey with
  | none => db
  | some key => manageReservation e id old new key db

/-- The value a finished child leaves for the parent that waits for it. -/
def resultCheckpoint (state : String) (result error : Option Json) : Json :=
  .obj [("error", .ofOption error), ("state", .str state), ("result", .ofOption result)]

def TaskState.waitOutcome : TaskState → WaitOutcome
  | .succeeded => .succeeded
  | .failed => .failed
  | .pending | .running | .waiting | .cancelled => .cancelled

def resolveResultWait (e : Env) (value : Json) (outcome : WaitOutcome) (s : Session)
    (row : StepKey × ResultWait) : Result Session := do
  let (k, w) := row
  let (_, s) ← saveCheckpoint k value s
  let s ← wake e k.taskId s
  let w := { w with resolvedAt := some e.now, outcome := some outcome }
  .ok { s with db := { s.db with resultWaits := s.db.resultWaits.put k w } }

/-- The second half of `resolve_task_result`: a finished task's own open waits are over. -/
def cancelOwnWaits (e : Env) (id : Uuid) (db : Database) : Database :=
  { db with
    resultWaits := db.resultWaits.update fun k w =>
      if k.taskId = id ∧ w.resolvedAt = none then
        { w with resolvedAt := some e.now, outcome := some .cancelled }
      else w
    waits := db.waits.update fun k w =>
      if k.taskId = id ∧ w.resolvedAt = none then
        { w with resolvedAt := some e.now, outcome := some .cancelled }
      else w }

def resolveTaskResult (e : Env) (id : Uuid) (new : Task) (s : Session) : Result Session := do
  let matching := s.db.resultWaits.select fun k w =>
    w.resultTaskId = id && w.resolvedAt.isNone &&
      (s.db.tasks.get? k.taskId).any (·.state = .waiting)
  let value := resultCheckpoint new.state.text new.result new.error
  let s ← matching.foldlM (resolveResultWait e value new.state.waitOutcome) s
  .ok { s with db := cancelOwnWaits e id s.db }

def fire (e : Env) (t : Trigger) (s : Session) : Result Session :=
  match t with
  | .cancelOwnedChildren id new => cancelOwnedChildren e id new s
  | .manageIdempotencyKey id old new => .ok { s with db := manageIdempotencyKey e id old new s.db }
  | .resolveTaskResult id new => resolveTaskResult e id new s

/-- Fires queued triggers, at most `depth` of them. The triggers that a trigger queues
come before the ones queued earlier. -/
def drain (e : Env) : Nat → Session → Result Session
  | depth, s => match s.queued with
    | [] => .ok s
    | t :: rest => match depth with
      | 0 => .error .stackDepthExceeded
      | depth + 1 => do
        let s ← fire e t { s with queued := [] }
        drain e depth { s with queued := s.queued ++ rest }

/-- A cancelled task queues three triggers, and no task is cancelled twice. -/
def drainBound (s : Session) : Nat :=
  s.queued.length + 3 * s.db.tasks.count fun _ t => t.state.outstanding

def fireTriggers (e : Env) (s : Session) : Result Session := drain e (drainBound s) s

/-! ## Deletion -/

def preserveDeletedIdempotencyKey (e : Env) (id : Uuid) (old : Task) (db : Database) : Database :=
  match old.idempotencyKey with
  | none => db
  | some key => match db.idempotencyKeys.get? (old.queueName, key) with
    | none => db
    | some r =>
      if r.taskId ≠ id then db
      else
        let fallback := (db.queues.get? old.queueName).map fun q =>
          e.now + seconds q.idempotencyRetentionSeconds
        let r := { r with expiresAt := r.expiresAt.or fallback }
        { db with idempotencyKeys := db.idempotencyKeys.put (old.queueName, key) r }

/-- `DELETE FROM tasks` of one row, with its cascades and its AFTER trigger. -/
def deleteTask (e : Env) (db : Database) (row : Uuid × Task) : Database :=
  let (id, t) := row
  preserveDeletedIdempotencyKey e id t
    { db with
      tasks := (db.tasks.delete fun k _ => k = id).update fun _ c =>
        if c.parentTaskId = some id then { c with parentTaskId := none } else c
      attempts := db.attempts.delete fun k _ => k.1 = id
      checkpoints := db.checkpoints.delete fun k _ => k.taskId = id
      signals := db.signals.delete fun k _ => k.taskId = id
      waits := db.waits.delete fun k _ => k.taskId = id
      resultWaits := db.resultWaits.delete fun k w => k.taskId = id || w.resultTaskId = id }

end Pgtask
