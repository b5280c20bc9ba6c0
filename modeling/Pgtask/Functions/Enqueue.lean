import Pgtask.Triggers

/-! # Queue configuration and enqueue -/

open Sql

namespace Pgtask

def genRandomUuid (e : Env) (s : Session) : Uuid × Session :=
  (e.uuid s.drawn, { s with drawn := s.drawn + 1 })

def addQueue (name : String) (s : Session) : Result Session := do
  require (({} : Queue).checks name)
  match s.db.queues.get? name with
  | some _ => .ok s
  | none => .ok { s with db := { s.db with queues := s.db.queues.put name {} } }

def outstandingIn (db : Database) (queueName : String) : Nat :=
  db.tasks.count fun _ t => t.queueName = queueName && t.state.outstanding

/-! ## Queue configuration -/

structure QueueConfig where
  terminalRetentionSeconds : Int
  idempotencyRetentionSeconds : Int
  maxOutstandingTasks : Option Int
  starvationTimeoutSeconds : Int

def putQueue (name : String) (config : QueueConfig) (s : Session) : Result (Queue × Session) := do
  let current := s.db.queues.get? name
  let initialCapacity : Int := match config.maxOutstandingTasks with
    | none => 0
    | some _ => match current.bind fun q => q.maxOutstandingTasks.map fun _ =>
        q.capacityOutstandingTasks with
      | some capacity => capacity
      | none => outstandingIn s.db name
  let q := { current.getD {} with
    terminalRetentionSeconds := config.terminalRetentionSeconds
    idempotencyRetentionSeconds := config.idempotencyRetentionSeconds
    maxOutstandingTasks := config.maxOutstandingTasks
    starvationTimeoutSeconds := config.starvationTimeoutSeconds
    capacityOutstandingTasks := initialCapacity }
  require (q.checks name)
  .ok (q, { s with db := { s.db with queues := s.db.queues.put name q } })

def setQueuePaused (e : Env) (name : String) (paused : Bool) (s : Session) :
    Option Queue × Session :=
  match s.db.queues.get? name with
  | none => (none, s)
  | some q =>
    let q := { q with pausedAt := if paused then some (q.pausedAt.getD e.now) else none }
    (some q, { s with db := { s.db with queues := s.db.queues.put name q } })

/-! ## Enqueue -/

/-- The parameters of `enqueue` with their defaults. `none` is NULL. -/
structure EnqueueRequest where
  taskName : Option String
  payload : Option Json
  queueName : Option String := some "default"
  handlerVersion : Option Int := some 1
  runAt : Option Timestamp := none
  priority : Int := 0
  maxAttempts : Option Int := some 5
  idempotencyKey : Option String := none
  headers : Option Json := some (.obj [])

def argument {α : Type} (value : Option α) (valid : α → Bool) (message : String) : Result α :=
  match value with
  | some a => if valid a then .ok a else .error (invalidParameter message)
  | none => .error (invalidParameter message)

/-- The argument checks of `enqueue`, in order, and the row it would insert. -/
def enqueueRow (e : Env) (r : EnqueueRequest) : Result Task := do
  let taskName ← argument r.taskName (validName 255) "invalid task name"
  let queueName ← argument r.queueName (validName 128) "invalid queue name"
  let handlerVersion ← argument r.handlerVersion (0 < ·) "handler version must be positive"
  let maxAttempts ← argument r.maxAttempts (0 < ·) "max attempts must be positive"
  let payload ← argument r.payload (fun _ => true) "payload must not be null"
  let headers ← argument r.headers Json.isObject "headers must be a JSON object"
  .ok { queueName, taskName, handlerVersion, payload, headers, priority := r.priority,
        runAt := r.runAt.getD e.now, maxAttempts, idempotencyKey := r.idempotencyKey }

/-- The reservation that an enqueue with this key finds still active. -/
def activeReservation (e : Env) (db : Database) (queueName key : String) : Option Reservation :=
  (db.idempotencyKeys.get? (queueName, key)).filter fun r => !r.expiresAt.any (· ≤ e.now)

def reserve (queueName key : String) (id : Uuid) (s : Session) : Session :=
  { s with db := { s.db with
      idempotencyKeys := s.db.idempotencyKeys.put (queueName, key) ⟨id, none⟩ } }

def enqueue (e : Env) (r : EnqueueRequest) (s : Session) : Result ((Uuid × Bool) × Session) := do
  let (candidateId, s) := genRandomUuid e s
  let row ← enqueueRow e r
  let s ← addQueue row.queueName s
  match r.idempotencyKey with
  | none =>
    let s ← insertTask candidateId row s
    .ok ((candidateId, true), s)
  | some key => match activeReservation e s.db row.queueName key with
    | some reservation => .ok ((reservation.taskId, false), s)
    | none =>
      let s ← insertTask candidateId row (reserve row.queueName key candidateId s)
      .ok ((candidateId, true), s)

/-- One element of the array given to `enqueue_many`, each field as its cast reads it. -/
structure EnqueueItem where
  taskName : Option String := none
  payload : Option Json := none
  queueName : Option String := none
  handlerVersion : Option Int := none
  runAt : Option Timestamp := none
  priority : Option Int := none
  maxAttempts : Option Int := none
  idempotencyKey : Option String := none
  headers : Option Json := none

def EnqueueItem.request (i : EnqueueItem) : EnqueueRequest where
  taskName := i.taskName
  payload := i.payload
  queueName := some (i.queueName.getD "default")
  handlerVersion := some (i.handlerVersion.getD 1)
  runAt := i.runAt
  priority := i.priority.getD 0
  maxAttempts := some (i.maxAttempts.getD 5)
  idempotencyKey := i.idempotencyKey
  headers := some (i.headers.getD (.obj []))

def enqueueMany (e : Env) : List EnqueueItem → Session → Result (List (Uuid × Bool) × Session)
  | [], s => .ok ([], s)
  | item :: items, s => do
    let (reply, s) ← enqueue e item.request s
    let (replies, s) ← enqueueMany e items s
    .ok (reply :: replies, s)

end Pgtask
