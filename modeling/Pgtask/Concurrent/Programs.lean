import Pgtask.Call
import Pgtask.Lib.Commits

/-!
# Calls as transactions

The calls that start a wait or end one, statement by statement. A statement reads
its own snapshot. A row that it locks or updates it finds in that snapshot, and
tests again on the newest version once it has the lock. An AFTER trigger's
statements read snapshots of their own.
-/

open Sql ReadCommitted

namespace Pgtask.Concurrent

/-! ## Rows -/

inductive RowId
  | queue (name : String)
  | task (id : Uuid)
  | attempt (id : Uuid) (number : Nat)
  | checkpoint (k : StepKey)
  | signal (k : SignalKey)
  | wait (k : StepKey)
  | resultWait (k : StepKey)
  | reservation (queueName key : String)
  | worker (id : Uuid)
  | capability (k : Capability)
  | policy (k : PolicyKey)
  deriving DecidableEq

abbrev Row : RowId → Type
  | .queue _ => Queue
  | .task _ => Task
  | .attempt .. => Attempt
  | .checkpoint _ => Json
  | .signal _ => Json
  | .wait _ => Wait
  | .resultWait _ => ResultWait
  | .reservation .. => Reservation
  | .worker _ => Worker
  | .capability _ => Unit
  | .policy _ => RetryColumns

def getRow (db : Database) : (r : RowId) → Option (Row r)
  | .queue name => db.queues.get? name
  | .task id => db.tasks.get? id
  | .attempt id n => db.attempts.get? (id, n)
  | .checkpoint k => db.checkpoints.get? k
  | .signal k => db.signals.get? k
  | .wait k => db.waits.get? k
  | .resultWait k => db.resultWaits.get? k
  | .reservation q key => db.idempotencyKeys.get? (q, key)
  | .worker id => db.workers.get? id
  | .capability k => db.workerCapabilities.get? k
  | .policy k => db.handlerPolicies.get? k

def setRow (db : Database) : (r : RowId) → Option (Row r) → Database
  | .queue name, v => { db with queues := db.queues.set name v }
  | .task id, v => { db with tasks := db.tasks.set id v }
  | .attempt id n, v => { db with attempts := db.attempts.set (id, n) v }
  | .checkpoint k, v => { db with checkpoints := db.checkpoints.set k v }
  | .signal k, v => { db with signals := db.signals.set k v }
  | .wait k, v => { db with waits := db.waits.set k v }
  | .resultWait k, v => { db with resultWaits := db.resultWaits.set k v }
  | .reservation q key, v => { db with idempotencyKeys := db.idempotencyKeys.set (q, key) v }
  | .worker id, v => { db with workers := db.workers.set id v }
  | .capability k, v => { db with workerCapabilities := db.workerCapabilities.set k v }
  | .policy k, v => { db with handlerPolicies := db.handlerPolicies.set k v }

theorem getRow_setRow_self (db : Database) (r : RowId) (v : Option (Row r)) :
    getRow (setRow db r v) r = v := by
  cases r <;> simp [getRow, setRow, Table.get?_set]

theorem getRow_setRow_of_ne (db : Database) {r s : RowId} (v : Option (Row r)) (h : s ≠ r) :
    getRow (setRow db r v) s = getRow db s := by
  cases r <;> cases s <;> simp_all [getRow, setRow, Table.get?_set]

instance : Store Database RowId Row where
  get := getRow
  set := setRow
  get_set_self := getRow_setRow_self
  get_set_of_ne := getRow_setRow_of_ne

abbrev Tx (α : Type) := Prog Database RowId Row α

abbrev Locks := ReadCommitted.Held RowId

def lockQueue (name : String) (m : LockMode) : Tx (Option Queue) := Prog.lockRow (RowId.queue name) m

def lockTask (id : Uuid) (m : LockMode) : Tx (Option Task) := Prog.lockRow (RowId.task id) m

def lockAttempt (id : Uuid) (n : Nat) (m : LockMode) : Tx (Option Attempt) :=
  Prog.lockRow (RowId.attempt id n) m

def lockCheckpoint (k : StepKey) (m : LockMode) : Tx (Option Json) := Prog.lockRow (RowId.checkpoint k) m

def lockSignal (k : SignalKey) (m : LockMode) : Tx (Option Json) := Prog.lockRow (RowId.signal k) m

def lockWait (k : StepKey) (m : LockMode) : Tx (Option Wait) := Prog.lockRow (RowId.wait k) m

def lockResultWait (k : StepKey) (m : LockMode) : Tx (Option ResultWait) :=
  Prog.lockRow (RowId.resultWait k) m

def lockReservation (queueName key : String) (m : LockMode) : Tx (Option Reservation) :=
  Prog.lockRow (RowId.reservation queueName key) m

/-! ## Statements -/

def ofResult {α : Type} : Result α → Tx α
  | .ok a => pure a
  | .error _ => .raise

def foreignKey (id : Uuid) : Tx Unit := do
  let t ← lockTask id .keyShare
  match t with
  | some _ => pure ()
  | none => .raise

def queueForeignKey (name : String) : Tx Unit := do
  let q ← lockQueue name .keyShare
  match q with
  | some _ => pure ()
  | none => .raise

def addQueue (name : String) : Tx Unit := do
  ofResult (require (({} : Queue).checks name))
  let _ ← Prog.insertRow (.queue name) ({} : Queue)
  pure ()

/-- `INSERT INTO checkpoints ... DO UPDATE SET value = checkpoints.value RETURNING value`, and the
foreign keys that are to be checked when the statement ends. -/
def saveCheckpoint (value : Json) (k : StepKey) : Tx (Json × List Uuid) := do
  ofResult (require (checkpointChecks k value))
  let row ← lockCheckpoint k .noKeyUpdate
  match row with
  | some stored => do
    Prog.put (.checkpoint k) stored
    pure (stored, [])
  | none => do
    Prog.put (.checkpoint k) value
    pure (value, [k.taskId])

def saveCheckpoints (value : Json) (ks : List StepKey) : Tx (List Uuid) :=
  Prog.collect (fun k => do
    let (_, keys) ← saveCheckpoint value k
    pure keys) ks

/-- `UPDATE tasks SET state = 'pending' ... WHERE id = ... AND state = 'waiting'`, in a statement
that started with this snapshot. -/
def wake (e : Env) (snapshot : Database) (id : Uuid) : Tx Unit :=
  if (snapshot.tasks.get? id).any (·.state = .waiting) then do
    let row ← lockTask id .noKeyUpdate
    match row with
    | some t =>
      if t.state = .waiting then do
        let new := { t with state := .pending, runAt := e.now }
        ofResult (require (new.checks id))
        Prog.put (.task id) new
      else pure ()
    | none => pure ()
  else pure ()

def closeWait (e : Env) (outcome : WaitOutcome) (k : StepKey) : Tx Unit := do
  let row ← lockWait k .noKeyUpdate
  match row with
  | some w => Prog.put (.wait k) { w with resolvedAt := some e.now, outcome := some outcome }
  | none => pure ()

def closeResultWait (e : Env) (outcome : WaitOutcome) (k : StepKey) : Tx Unit := do
  let row ← lockResultWait k .noKeyUpdate
  match row with
  | some w => Prog.put (.resultWait k) { w with resolvedAt := some e.now, outcome := some outcome }
  | none => pure ()

/-! ## Updates of tasks -/

def enforceQueueCapacity (old new : Task) : Tx Unit :=
  if old.state.outstanding && new.state.terminal then do
    let db ← Prog.snapshot
    if ((db.queues.get? new.queueName).bind Queue.maxOutstandingTasks).isSome then do
      let row ← lockQueue new.queueName .noKeyUpdate
      match row with
      | some q =>
        if q.maxOutstandingTasks.isSome then
          Prog.put (.queue new.queueName)
            { q with capacityOutstandingTasks := max (q.capacityOutstandingTasks - 1) 0 }
        else pure ()
      | none => pure ()
    else pure ()
  else pure ()

/-- One row of an UPDATE of `tasks`, with the UPDATE of `attempts` that hangs on it. -/
structure RowUpdate where
  id : Uuid
  /-- The row as the SET list leaves it, or `none` if it fails the WHERE clause. Subqueries read
  the statement's snapshot. -/
  set : Database → Task → Result (Option Task)
  endAttempt : Attempt → Attempt

def RowUpdate.finds (db : Database) (u : RowUpdate) : Bool :=
  (db.tasks.get? u.id).any fun t => match u.set db t with
    | .ok none => false
    | _ => true

structure Updated where
  id : Uuid
  new : Task
  endAttempt : Attempt → Attempt
  triggers : List Trigger

def updateRow (db : Database) (u : RowUpdate) : Tx (List (Option Updated)) :=
  if u.finds db then do
    let row ← lockTask u.id .noKeyUpdate
    match row with
    | none => pure [none]
    | some t => do
      let new ← ofResult (u.set db t)
      match new with
      | none => pure [none]
      | some new => do
        enforceQueueCapacity t new
        ofResult (require (new.checks u.id))
        Prog.put (.task u.id) new
        pure [some ⟨u.id, new, u.endAttempt, afterUpdate u.id t new⟩]
  else pure [none]

def updateAttempt (id : Uuid) (n : Nat) (f : Attempt → Attempt) : Tx Unit := do
  let row ← lockAttempt id n .noKeyUpdate
  match row with
  | some a => do
    ofResult (require (f a).checks)
    Prog.put (.attempt id n) (f a)
  | none => pure ()

/-- An UPDATE of `tasks` and of their `attempts`, in a statement that started with this snapshot.
Each row asked for gets an answer: what became of it, or `none`. -/
def updateTasks (db : Database) (updates : List RowUpdate) : Tx (List (Option Updated)) := do
  let updated ← Prog.collect (updateRow db) updates
  Prog.forEach (fun u => updateAttempt u.id u.new.attempt u.endAttempt) (updated.filterMap id)
  pure updated

def queuedBy (updated : List (Option Updated)) : List Trigger :=
  (updated.filterMap id).flatMap Updated.triggers

/-- The cancellation of a row. Three functions do this and differ in the error they record and in
the condition they put on the row. -/
def cancelUpdate (e : Env) (error : Json) (cond : Task → Bool) (id : Uuid) : RowUpdate where
  id := id
  set _ t := .ok (if cond t && t.state.outstanding then some (t.cancelledAt e.now error) else none)
  endAttempt a :=
    if a.state = .running then
      { a with state := .cancelled, finishedAt := some e.now, error := some error }
    else a

/-! ## AFTER triggers -/

def cancelOwnedChildren (e : Env) (id : Uuid) (new : Task) : Tx (List Trigger) := do
  let db ← Prog.snapshot
  let children := db.tasks.select fun _ t => t.parentTaskId = some id && t.state.outstanding
  let error := .obj [("type", .str "parent_finished"), ("parent_state", .str new.state.text),
    ("parent_task_id", .str id.text)]
  let updated ← updateTasks db (children.map fun c =>
    cancelUpdate e error (fun t => t.parentTaskId = some id) c.1)
  pure (queuedBy updated)

def manageIdempotencyKey (e : Env) (id : Uuid) (old new : Task) : Tx Unit :=
  match new.idempotencyKey with
  | none => pure ()
  | some key => do
    let db ← Prog.snapshot
    if (db.idempotencyKeys.get? (new.queueName, key)).any (·.taskId = id) &&
        old.state.terminal != new.state.terminal then do
      let row ← lockReservation new.queueName key .noKeyUpdate
      match row with
      | some r =>
        if r.taskId = id then
          let expiresAt := if new.state.terminal then (db.queues.get? new.queueName).map fun q =>
            new.completedAt.getD e.now + seconds q.idempotencyRetentionSeconds else none
          Prog.put (.reservation new.queueName key) ⟨id, expiresAt⟩
        else pure ()
      | none => pure ()
    else pure ()

def lockMatching (id : Uuid) (k : StepKey) : Tx (List StepKey) := do
  let row ← lockResultWait k .update
  match row with
  | some w => pure (if w.resultTaskId = id && w.resolvedAt.isNone then [k] else [])
  | none => pure []

def closeOwn {ρ : Type} (table : Database → Table StepKey ρ) (resolvedAt : ρ → Option Timestamp)
    (close : StepKey → Tx Unit) (id : Uuid) : Tx Unit := do
  let db ← Prog.snapshot
  Prog.forEach close (((table db).select fun k w => k.taskId = id && (resolvedAt w).isNone).map
    Prod.fst)

def resolveTaskResult (e : Env) (id : Uuid) (new : Task) : Tx Unit := do
  let db ← Prog.snapshot
  let found := db.resultWaits.select fun k w =>
    w.resultTaskId = id && w.resolvedAt.isNone &&
      (db.tasks.get? k.taskId).any (·.state = .waiting)
  let matching ← Prog.collect (lockMatching id) (found.map Prod.fst)
  let keys ← saveCheckpoints (resultCheckpoint new.state.text new.result new.error) matching
  Prog.forEach (fun k => wake e db k.taskId) matching
  Prog.forEach (closeResultWait e new.state.waitOutcome) matching
  Prog.forEach foreignKey keys
  closeOwn Database.resultWaits ResultWait.resolvedAt (closeResultWait e .cancelled) id
  closeOwn Database.waits Wait.resolvedAt (closeWait e .cancelled) id

def fire (e : Env) : Trigger → Tx (List Trigger)
  | .cancelOwnedChildren id new => cancelOwnedChildren e id new
  | .manageIdempotencyKey id old new => do
    manageIdempotencyKey e id old new
    pure []
  | .resolveTaskResult id new => do
    resolveTaskResult e id new
    pure []

def fireTriggers (e : Env) : Nat → List Trigger → Tx Unit
  | _, [] => pure ()
  | 0, _ :: _ => .raise
  | depth + 1, t :: rest => do
    let nested ← fire e t
    fireTriggers e depth (nested ++ rest)

def updateAndFire (e : Env) (depth : Nat) (updates : List RowUpdate) :
    Tx (List (Option Updated)) := do
  let db ← Prog.snapshot
  let updated ← updateTasks db updates
  fireTriggers e depth (queuedBy updated)
  pure updated

/-! ## Ends of a task -/

def completeUpdate (e : Env) (l : Lease) (result : Option Json) : RowUpdate where
  id := l.taskId
  set _ t := .ok (if l.owns l.taskId t then some { t with
      state := .succeeded, leaseToken := none, leaseOwner := none, leaseExpiresAt := none,
      completedAt := some e.now, result := result, error := none } else none)
  endAttempt a := { a with state := .succeeded, finishedAt := some e.now, error := none }

def completeTask (e : Env) (depth : Nat) (l : Lease) (result : Option Json) : Tx Reply := do
  let updated ← updateAndFire e depth [completeUpdate e l result]
  pure (.flag (updated.any Option.isSome))

def completeTasks (e : Env) (depth : Nat) (completions : List Completion) : Tx Reply :=
  if (completions.map Completion.spelling).Nodup then do
    let updated ← updateAndFire e depth (completions.map fun c => completeUpdate e c.lease c.result)
    pure (.flags (updated.map Option.isSome))
  else .raise

def failUpdate (e : Env) (l : Lease) (error : Option Json) (retryMilliseconds : Option Int) :
    RowUpdate where
  id := l.taskId
  set db t := if l.owns l.taskId t then do
      let failures ← int4Succ (historicalFailures db l.taskId t)
      let runAt := match retryMilliseconds with
        | some ms => e.now + milliseconds ms
        | none => t.runAt
      .ok (some (t.failedWith e failures error retryMilliseconds.isSome runAt))
    else .ok none
  endAttempt a := { a with state := .failed, finishedAt := some e.now, error := error }

def failedStates (updated : List (Option Updated)) : Reply :=
  .states (updated.map fun u => u.map fun u => u.new.state)

def failTask (e : Env) (depth : Nat) (l : Lease) (error : Option Json)
    (retryMilliseconds : Option Int) : Tx Reply := do
  let updated ← updateAndFire e depth [failUpdate e l error retryMilliseconds]
  pure (failedStates updated)

def failTasks (e : Env) (depth : Nat) (failures : List Failure) : Tx Reply :=
  if (failures.map Failure.spelling).Nodup then do
    let updated ← updateAndFire e depth (failures.map fun f =>
      failUpdate e f.lease f.error f.retryMilliseconds)
    pure (failedStates updated)
  else .raise

def leaseExpiredBy (e : Env) (queueName : String) (t : Task) : Bool :=
  t.queueName = queueName && t.state = .running && t.leaseExpiresAt.any (· ≤ e.now)

def lockExpired (e : Env) (queueName : String) : Nat → List Uuid → Tx (List Uuid)
  | 0, _ | _, [] => pure []
  | n + 1, id :: ids => do
    let row ← Prog.tryLockRow (RowId.task id) .noKeyUpdate
    match (row.join : Option Task).filter (leaseExpiredBy e queueName) with
    | some _ => do
      let rest ← lockExpired e queueName n ids
      pure (id :: rest)
    | none => lockExpired e queueName (n + 1) ids

def recoverUpdate (e : Env) (id : Uuid) : RowUpdate where
  id := id
  set db t := do
    let failures ← int4Succ (historicalFailures db id t)
    let runAt := if (failures : Int) < t.maxAttempts then e.now else t.runAt
    .ok (some (t.failedWith e failures (some leaseExpired) true runAt))
  endAttempt a := { a with state := .lost, finishedAt := some e.now, error := some leaseExpired }

def recoverExpired (e : Env) (depth : Nat) (queueName : String) (count : Int) : Tx Reply := do
  let n ← ofResult (limit count)
  let db ← Prog.snapshot
  let found := (db.tasks.select fun _ t => leaseExpiredBy e queueName t).insertionSort
    fun x y => byLeaseExpiry x y
  let expired ← lockExpired e queueName n (found.map Prod.fst)
  let updated ← updateTasks db (expired.map (recoverUpdate e))
  fireTriggers e depth (queuedBy updated)
  pure (.count (updated.filterMap id).length)

def cancelTask (e : Env) (depth : Nat) (id : Uuid) : Tx (Option (String × String)) := do
  let updated ← updateAndFire e depth
    [cancelUpdate e (.obj [("type", .str "cancelled")]) (fun _ => true) id]
  pure ((updated.filterMap fun u => u.map fun u => (u.new.queueName, u.new.taskName)).head?)

/-- The row it adds to the audit log, which nothing reads, is left out. -/
def adminCancelTask (e : Env) (depth : Nat) (id : Uuid) (actor : Option String) : Tx Reply := do
  let _ ← ofResult (validActor actor)
  let cancelled ← cancelTask e depth id
  pure (.flag cancelled.isSome)

/-! ## Signals -/

/-- The first statement of `emit_signal`. A new row is not visible before the commit, so the
check of its foreign key may as well come before it. A row that is there keeps its key, and
nothing is checked. -/
def saveSignal (k : SignalKey) (value : Json) : Tx Json := do
  ofResult (require (signalChecks k value))
  let row ← lockSignal k .noKeyUpdate
  match row with
  | some stored => do
    Prog.put (.signal k) stored
    pure stored
  | none => do
    foreignKey k.taskId
    Prog.put (.signal k) value
    pure value

def asksFor (key : SignalKey) (k : StepKey) (w : Wait) : Bool :=
  k.taskId = key.taskId && w.signalName = key.signalName &&
    w.signalOccurrence = key.occurrence && w.resolvedAt.isNone

def lockAsking (key : SignalKey) (k : StepKey) : Tx (List StepKey) := do
  let row ← lockWait k .update
  match row with
  | some w => pure (if asksFor key k w then [k] else [])
  | none => pure []

def emitSignal (e : Env) (key : SignalKey) (value : Json) : Tx Reply := do
  let stored ← saveSignal key value
  let db ← Prog.snapshot
  let matching ← Prog.collect (lockAsking key) ((db.waits.select (asksFor key)).map Prod.fst)
  let keys ← saveCheckpoints (signalCheckpoint stored) matching
  Prog.forEach (fun k => wake e db k.taskId) matching
  Prog.forEach (closeWait e .signal) matching
  Prog.forEach foreignKey keys
  pure (.signal stored)

/-! ## Waits -/

def lockFenced (l : Lease) : Tx (Option Task) := do
  let db ← Prog.snapshot
  if ((db.tasks.get? l.taskId).filter (l.owns l.taskId)).isSome then do
    let row ← lockTask l.taskId .update
    pure (row.filter (l.owns l.taskId))
  else pure none

def answerReady (k : StepKey) (value : Json) : Tx Reply := do
  let (stored, keys) ← saveCheckpoint value k
  Prog.forEach foreignKey keys
  pure (.wait (some (.ready stored)))

/-- What both waits do once their row is written. The task's row is locked already. -/
def park (e : Env) (id : Uuid) (t : Task) : Tx Reply := do
  ofResult (require (t.parked.checks id))
  Prog.put (.task id) t.parked
  updateAttempt id t.attempt fun a => { a with state := .suspended, finishedAt := some e.now }
  pure (.wait (some .waiting))

def foreignKeyOf {ρ : Type} (id : Uuid) : Option ρ → Tx Unit
  | none => foreignKey id
  | some _ => pure ()

def armWait (k : StepKey) (w : Wait) : Tx Unit := do
  ofResult (require (w.checks k))
  let db ← Prog.snapshot
  if db.waits.rows.any fun x => x.1 ≠ k && x.1.taskId = k.taskId && x.2.resolvedAt.isNone then .raise
  else do
    let row ← lockWait k .noKeyUpdate
    foreignKeyOf k.taskId row
    Prog.put (.wait k) w

def waitForSignal (e : Env) (l : Lease) (stepName : String) (occurrence : Int) (signalName : String)
    (signalOccurrence : Int) (timeoutMilliseconds : Option Int) : Tx Reply :=
  if timeoutMilliseconds.any (· < 0) then .raise
  else do
    let fenced ← lockFenced l
    match fenced with
    | none => pure (.wait none)
    | some t => do
      let k : StepKey := ⟨l.taskId, t.handlerVersion, stepName, occurrence⟩
      let db ← Prog.snapshot
      match db.checkpoints.get? k with
      | some checkpoint => pure (.wait (some (.ready checkpoint)))
      | none => do
        let db ← Prog.snapshot
        match db.signals.get? ⟨l.taskId, signalName, signalOccurrence⟩ with
        | some value => answerReady k (signalCheckpoint value)
        | none => do
          let w : Wait :=
            { signalName, signalOccurrence
              timeoutAt := timeoutMilliseconds.map fun ms => e.now + milliseconds ms }
          armWait k w
          park e l.taskId t

def lockChild (parent child : Uuid) : Tx (Option Task) := do
  let db ← Prog.snapshot
  if (db.tasks.get? child).any (·.parentTaskId = some parent) then do
    let row ← lockTask child .noKeyUpdate
    pure (row.filter (·.parentTaskId = some parent))
  else pure none

def armResultWait (k : StepKey) (w : ResultWait) : Tx Unit := do
  ofResult (require (w.checks k))
  let db ← Prog.snapshot
  if db.resultWaits.rows.any fun x => x.1 ≠ k && x.1.taskId = k.taskId && x.2.resolvedAt.isNone
  then .raise
  else do
    let row ← lockResultWait k .noKeyUpdate
    foreignKeyOf k.taskId row
    foreignKey w.resultTaskId
    Prog.put (.resultWait k) w

def waitForResult (e : Env) (l : Lease) (stepName : String) (occurrence : Int) (resultTaskId : Uuid)
    (timeoutMilliseconds : Option Int) : Tx Reply :=
  if l.taskId = resultTaskId || timeoutMilliseconds.any (· ≤ 0) then .raise
  else do
    let fenced ← lockFenced l
    match fenced with
    | none => pure (.wait none)
    | some t => do
      let k : StepKey := ⟨l.taskId, t.handlerVersion, stepName, occurrence⟩
      let db ← Prog.snapshot
      match db.checkpoints.get? k with
      | some checkpoint => pure (.wait (some (.ready checkpoint)))
      | none => do
        let child ← lockChild l.taskId resultTaskId
        match child with
        | none => .raise
        | some c =>
          if c.state.terminal then
            answerReady k (resultCheckpoint c.state.text c.result c.error)
          else do
            let w : ResultWait :=
              { resultTaskId
                timeoutAt := timeoutMilliseconds.map fun ms => e.now + milliseconds ms }
            armResultWait k w
            park e l.taskId t

/-! ## Timeouts of result waits -/

/-- `FOR UPDATE SKIP LOCKED`: the next `n` due rows, and the rows not looked at yet. -/
def fetchDue (e : Env) : Nat → List StepKey → Tx (List (StepKey × Uuid) × List StepKey)
  | 0, rest => pure ([], rest)
  | _, [] => pure ([], [])
  | n + 1, k :: rest => do
    let row ← Prog.tryLockRow (RowId.resultWait k) .update
    match (row.join : Option ResultWait).filter fun w => due e.now w.timeoutAt w.resolvedAt with
    | some w => do
      let (rows, rest) ← fetchDue e n rest
      pure ((k, w.resultTaskId) :: rows, rest)
    | none => fetchDue e (n + 1) rest

def timeOutResultWait (e : Env) (depth : Nat) (row : StepKey × Uuid) : Tx Unit := do
  let (k, child) := row
  let (_, keys) ← saveCheckpoint (resultCheckpoint "timeout" none none) k
  Prog.forEach foreignKey keys
  closeResultWait e .timeout k
  let db ← Prog.snapshot
  wake e db k.taskId
  let _ ← updateAndFire e depth [cancelUpdate e (timeoutError k.taskId) (fun _ => true) child]
  pure ()

/-- The loop fetches its rows in batches, and locks a batch when it fetches it. -/
def sweep (e : Env) (depth : Nat) : List Nat → Nat → List StepKey → Tx Nat
  | [], _, _ => pure 0
  | size :: sizes, n, found => do
    let (rows, rest) ← fetchDue e (min size n) found
    Prog.forEach (timeOutResultWait e depth) rows
    let more ← sweep e depth sizes (n - rows.length) rest
    pure (rows.length + more)

def recoverResultWaitTimeouts (e : Env) (depth : Nat) (batches : List Nat) (count : Int) :
    Tx Reply := do
  let n ← ofResult (limit count)
  let db ← Prog.snapshot
  let found := (db.resultWaits.select fun _ w => due e.now w.timeoutAt w.resolvedAt).insertionSort
    fun x y => byTimeout (x.2.timeoutAt, x.1.taskId) (y.2.timeoutAt, y.1.taskId)
  let n ← sweep e depth batches n (found.map Prod.fst)
  pure (.count n)

/-! ## Operations -/

inductive Operation
  | waitForSignal (lease : Lease) (stepName : String) (occurrence : Int) (signalName : String)
      (signalOccurrence : Int) (timeoutMilliseconds : Option Int)
  | waitForResult (lease : Lease) (stepName : String) (occurrence : Int) (resultTaskId : Uuid)
      (timeoutMilliseconds : Option Int)
  | emitSignal (key : SignalKey) (value : Json)
  | completeTask (lease : Lease) (result : Option Json)
  | completeTasks (completions : List Completion)
  | failTask (lease : Lease) (error : Option Json) (retryMilliseconds : Option Int)
  | failTasks (failures : List Failure)
  | recoverExpired (queueName : String) (limit : Int)
  | recoverResultWaitTimeouts (batches : List Nat) (limit : Int)
  | cancelTask (id : Uuid)
  | adminCancelTask (id : Uuid) (actor : Option String)

def Operation.program (e : Env) (depth : Nat) : Operation → Tx Reply
  | .waitForSignal l stepName occurrence signalName signalOccurrence timeoutMilliseconds =>
    Concurrent.waitForSignal e l stepName occurrence signalName signalOccurrence timeoutMilliseconds
  | .waitForResult l stepName occurrence resultTaskId timeoutMilliseconds =>
    Concurrent.waitForResult e l stepName occurrence resultTaskId timeoutMilliseconds
  | .emitSignal key value => Concurrent.emitSignal e key value
  | .completeTask l result => Concurrent.completeTask e depth l result
  | .completeTasks completions => Concurrent.completeTasks e depth completions
  | .failTask l error retryMilliseconds => Concurrent.failTask e depth l error retryMilliseconds
  | .failTasks failures => Concurrent.failTasks e depth failures
  | .recoverExpired queueName limit => Concurrent.recoverExpired e depth queueName limit
  | .recoverResultWaitTimeouts batches limit =>
    Concurrent.recoverResultWaitTimeouts e depth batches limit
  | .cancelTask id => do
    let cancelled ← Concurrent.cancelTask e depth id
    pure (.cancelled cancelled)
  | .adminCancelTask id actor => Concurrent.adminCancelTask e depth id actor

/-! ## Rules -/

section Rules

variable {p : Promise Database RowId Row} {quiet : RowId → Prop} {A : Promise.Assn Database RowId Row}
  {held : Locks} {ws : Writes RowId Row} {db : Database} {α β : Type}

theorem wp_ofResult {Q : α → Promise.Assn Database RowId Row} {r : Result β} {f : β → Tx α}
    (next : ∀ a, r = .ok a → p.wp Q (f a) held ws db) : p.wp Q (ofResult r >>= f) held ws db := by
  cases r with
  | error _ => trivial
  | ok a => exact next a rfl

theorem queueForeignKey_wp (hA : p.Frame quiet A) {name : String} (h : A held ws db) :
    p.wp (fun _ => A) (queueForeignKey name) held ws db := by
  refine Promise.wp_lockRow hA.stable h fun db' h' => ?_
  split
  · exact hA.lock _ h'
  · trivial

theorem addQueue_wp (hA : p.Frame quiet A) {name : String} (hq : quiet (.queue name))
    (h : A held ws db) : p.wp (fun _ => A) (addQueue name) held ws db := by
  refine wp_ofResult fun _ _ => ?_
  refine Promise.wp_insertRow hA.stable h fun db' h' => ⟨fun _ => h', fun _ => ?_⟩
  exact hA.write (hA.lock _ h') ⟨_, List.mem_cons_self, rfl⟩ hq

end Rules

end Pgtask.Concurrent
