import Pgtask.Call
import Pgtask.Lib.Checked
import Pgtask.Lib.Path

/-!
# Effects

Everything a call does to the database is a sequence of the effects below. An
effect names the rows it reads and writes, and its hypotheses are what the code
has checked at that point. A property that every effect keeps is kept by every
call.
-/

open Sql

namespace Pgtask

/-! ## Writes -/

def Queue.released (q : Queue) : Queue :=
  if q.maxOutstandingTasks.isSome then
    { q with capacityOutstandingTasks := max (q.capacityOutstandingTasks - 1) 0 }
  else q

def Queue.taken (q : Queue) : Queue :=
  if q.maxOutstandingTasks.isSome then
    { q with capacityOutstandingTasks := q.capacityOutstandingTasks + 1 }
  else q

def Queue.hasRoom (q : Queue) : Prop := ∀ m, q.maxOutstandingTasks = some m → q.capacityOutstandingTasks < m

/-- The queues after a task of `queueName` went from `old` to `new`. -/
def crossed (old new : TaskState) (queueName : String) (queues : Table String Queue) :
    Table String Queue :=
  if old.outstanding && new.terminal then queues.adjust queueName Queue.released
  else if old.terminal && new.outstanding then queues.adjust queueName Queue.taken
  else queues

def Session.write (s : Session) (id : Uuid) (old new : Task) : Session :=
  { s with
    db := { s.db with
      tasks := s.db.tasks.put id new
      queues := crossed old.state new.state new.queueName s.db.queues }
    queued := s.queued ++ afterUpdate id old new }

def Session.endAttempt (s : Session) (k : Uuid × Nat) (f : Attempt → Attempt) : Session :=
  { s with db := { s.db with attempts := s.db.attempts.adjust k f } }

def Task.woken (now : Timestamp) (t : Task) : Task :=
  if t.state = .waiting then { t with state := .pending, runAt := now } else t

def Session.deliver (s : Session) (now : Timestamp) (k : StepKey) (value : Json) : Session :=
  { s with db := { s.db with
      checkpoints := s.db.checkpoints.putNew k value
      tasks := s.db.tasks.adjust k.taskId (Task.woken now) } }

/-- The task's time has come. A queue is checked to have no negative starvation timeout. -/
def Task.Ready (e : Env) (db : Database) (t : Task) : Prop :=
  (∀ q, db.queues.get? t.queueName = some q → 0 ≤ q.starvationTimeoutSeconds) → t.runAt ≤ e.now

def Holds (checks : List (String × Bool)) : Prop := ∀ c ∈ checks, c.2 = true

/-- Each schedule has passed its checks, or its definition was there before. -/
def Planned (db : Database) (schedules : Table Uuid Schedule) : Prop :=
  ∀ id c, schedules.get? id = some c →
    (Holds c.checks ∧ ∃ q, db.queues.get? c.definition.queueName = some q) ∨
      ∃ c₀, db.schedules.get? id = some c₀ ∧ c₀.name = c.name ∧ c₀.definition = c.definition

def Wait.key (w : Wait) (k : StepKey) : SignalKey := ⟨k.taskId, w.signalName, w.signalOccurrence⟩

def Task.completed (now : Timestamp) (result : Option Json) (t : Task) : Task :=
  { t with
    state := .succeeded, leaseToken := none, leaseOwner := none, leaseExpiresAt := none,
    completedAt := some now, result := result, error := none }

def signalTimeout : Json := .obj [("outcome", .str "timeout")]

def resultTimeout : Json := resultCheckpoint "timeout" none none

structure Task.New (t : Task) : Prop where
  state : t.state = .pending
  attempt : t.attempt = 0
  leaseToken : t.leaseToken = none
  leaseOwner : t.leaseOwner = none
  leaseExpiresAt : t.leaseExpiresAt = none
  cancelRequestedAt : t.cancelRequestedAt = none
  completedAt : t.completedAt = none
  parentTaskId : t.parentTaskId = none
  failedAttempts : t.failedAttempts = some 0
  maxAttempts : 0 < t.maxAttempts

def reserved (id : Uuid) (t : Task) (keys : Table (String × String) Reservation) :
    Table (String × String) Reservation :=
  match t.idempotencyKey with
  | some key => keys.put (t.queueName, key) ⟨id, none⟩
  | none => keys

/-! ## Effects -/

inductive Label
  | claim (lease : Lease)
  | renew (id : Uuid)
  | yield (id : Uuid)
  | parkSignal (k : StepKey)
  | parkResult (k : StepKey)
  | complete (id : Uuid)
  | fail (id : Uuid)
  | cancel (id : Uuid)
  | retry (id : Uuid)
  | insert (id : Uuid)
  | materialize (id : Uuid)
  /-- A place of a queue is taken for an occurrence that already has its task. -/
  | phantom (queueName : String)
  | draw
  | adopt (child parent : Uuid)
  /-- A task is adopted because a stored checkpoint names it. -/
  | adoptStored (child parent : Uuid)
  | checkpoint (k : StepKey)
  | signal (k : SignalKey)
  | deliver (k : StepKey)
  | deliverResult (k : StepKey)
  /-- A result wait that an earlier round of the same sweep has resolved times out again. -/
  | staleTimeout (k : StepKey)
  | fireCancel (id : Uuid)
  | fireManage (id : Uuid)
  | fireResolve (id : Uuid)
  | reorder
  | addQueue (name : String)
  | configure (name : String)
  | touchQueue (name : String)
  | delete (id : Uuid)
  | dropKeys
  | policy
  | enroll (worker : Uuid)
  | heartbeat
  | dropWorkers
  | frame
  deriving DecidableEq

inductive Effect (e : Env) : Label → Session → Session → Prop
  /-- A pending task is claimed and gets its next attempt. -/
  | claim {s : Session} {id worker token : Uuid} {t : Task} {attempt : Nat} {ms : Int}
      (row : s.db.tasks.get? id = some t) (pending : t.state = .pending)
      (budget : (historicalFailures s.db id t : Int) < t.maxAttempts)
      (next : attempt = t.attempt + 1) (fresh : token = e.uuid s.drawn)
      (free : s.db.attempts.get? (id, attempt) = none) (ready : t.Ready e s.db)
      (checked : Holds ((t.claimed e s.db id attempt token worker ms).checks id)) :
      Effect e (.claim ⟨id, attempt, token⟩) s
        { s with
          db := { s.db with
            tasks := s.db.tasks.put id (t.claimed e s.db id attempt token worker ms)
            attempts := s.db.attempts.put (id, attempt) { leaseToken := token, workerId := worker } }
          drawn := s.drawn + 1 }
  | renew {s : Session} {id : Uuid} {t : Task} {expires : Timestamp}
      (row : s.db.tasks.get? id = some t) (running : t.state = .running)
      (checked : Holds (Task.checks id { t with leaseExpiresAt := some expires })) :
      Effect e (.renew id) s
        { s with db := { s.db with
            tasks := s.db.tasks.put id { t with leaseExpiresAt := some expires } } }
  /-- A running task goes back to the queue: it sleeps, or its worker stops. -/
  | yield {s : Session} {id : Uuid} {t : Task} {runAt : Timestamp} {ended : AttemptState}
      (row : s.db.tasks.get? id = some t) (running : t.state = .running)
      (kind : ended = .suspended ∨ ended = .released)
      (checked : Holds ((t.yielded runAt).checks id)) :
      Effect e (.yield id) s
        ((s.write id t (t.yielded runAt)).endAttempt (id, t.attempt) fun a =>
          { a with state := ended, finishedAt := some e.now })
  /-- A running task waits for a signal that is not there. -/
  | parkSignal {s : Session} {k : StepKey} {w : Wait} {t : Task}
      (row : s.db.tasks.get? k.taskId = some t) (running : t.state = .running)
      (noCheckpoint : s.db.checkpoints.get? k = none)
      (noSignal : s.db.signals.get? (w.key k) = none)
      (isOpen : w.resolvedAt = none) (armed : Holds (w.checks k))
      (checked : Holds (t.parked.checks k.taskId)) :
      Effect e (.parkSignal k) s
        (({ s with db := { s.db with waits := s.db.waits.put k w } }.write k.taskId t
          t.parked).endAttempt (k.taskId, t.attempt) fun a =>
            { a with state := .suspended, finishedAt := some e.now })
  /-- A running task waits for a child that has not finished. -/
  | parkResult {s : Session} {k : StepKey} {w : ResultWait} {t c : Task}
      (row : s.db.tasks.get? k.taskId = some t) (running : t.state = .running)
      (noCheckpoint : s.db.checkpoints.get? k = none)
      (child : s.db.tasks.get? w.resultTaskId = some c)
      (owned : c.parentTaskId = some k.taskId) (unfinished : c.state.outstanding = true)
      (distinct : k.taskId ≠ w.resultTaskId) (isOpen : w.resolvedAt = none)
      (armed : Holds (w.checks k)) (checked : Holds (t.parked.checks k.taskId)) :
      Effect e (.parkResult k) s
        (({ s with db := { s.db with resultWaits := s.db.resultWaits.put k w } }.write k.taskId t
          t.parked).endAttempt (k.taskId, t.attempt) fun a =>
            { a with state := .suspended, finishedAt := some e.now })
  | complete {s : Session} {id : Uuid} {t : Task} {result : Option Json}
      (row : s.db.tasks.get? id = some t) (running : t.state = .running)
      (checked : Holds ((t.completed e.now result).checks id)) :
      Effect e (.complete id) s
        ((s.write id t (t.completed e.now result)).endAttempt (id, t.attempt)
            fun a => { a with state := .succeeded, finishedAt := some e.now, error := none })
  /-- A running task fails or loses its lease. It is pending again, or failed for good. -/
  | fail {s : Session} {id : Uuid} {t : Task} {error : Option Json} {retry : Bool}
      {runAt : Timestamp} {ended : AttemptState}
      (row : s.db.tasks.get? id = some t) (running : t.state = .running)
      (kind : ended = .failed ∨ ended = .lost)
      (checked : Holds ((t.failedWith e (historicalFailures s.db id t + 1) error retry
        runAt).checks id)) :
      Effect e (.fail id) s
        ((s.write id t (t.failedWith e (historicalFailures s.db id t + 1) error retry
          runAt)).endAttempt (id, t.attempt) fun a =>
            { a with state := ended, finishedAt := some e.now, error := error })
  | cancel {s : Session} {id : Uuid} {t : Task} {error : Json}
      (row : s.db.tasks.get? id = some t) (unfinished : t.state.outstanding = true)
      (checked : Holds ((t.cancelledAt e.now error).checks id)) :
      Effect e (.cancel id) s
        ((s.write id t (t.cancelledAt e.now error)).endAttempt (id, t.attempt) fun a =>
          if a.state = .running then
            { a with state := .cancelled, finishedAt := some e.now, error := some error }
          else a)
  | retry {s : Session} {id : Uuid} {t : Task}
      (row : s.db.tasks.get? id = some t) (ended : t.state = .failed ∨ t.state = .cancelled)
      (room : ∀ q, s.db.queues.get? t.queueName = some q → q.hasRoom) (idle : s.queued = [])
      (checked : Holds ((t.retried e.now
        (max t.maxAttempts (historicalFailures s.db id t + 1))).checks id)) :
      Effect e (.retry id) s
        (s.write id t (t.retried e.now (max t.maxAttempts (historicalFailures s.db id t + 1))))
  /-- A task is enqueued. Its key, if it has one, is free or expired. -/
  | insert {s : Session} {id : Uuid} {t : Task} (fresh : id = e.uuid s.drawn)
      (free : s.db.tasks.get? id = none) (new : t.New) (unscheduled : t.scheduleId = none)
      (queue : ∃ q, s.db.queues.get? t.queueName = some q ∧ q.hasRoom)
      (policy : t.retry = (s.db.handlerPolicies.get? ⟨t.queueName, t.taskName, t.handlerVersion⟩).getD {})
      (key : ∀ key, t.idempotencyKey = some key →
        activeReservation e s.db t.queueName key = none)
      (named : validName 255 t.taskName = true) (checked : Holds (t.checks id)) :
      Effect e (.insert id) s
        { s with
          db := { s.db with
            tasks := s.db.tasks.put id t
            queues := s.db.queues.adjust t.queueName Queue.taken
            idempotencyKeys := reserved id t s.db.idempotencyKeys }
          drawn := s.drawn + 1 }
  /-- An occurrence of a schedule becomes a task. -/
  | materialize {s : Session} {id : Uuid} {t : Task} {schedule : Uuid} {instant : Timestamp}
      (fresh : id = e.uuid s.drawn) (free : s.db.tasks.get? id = none) (new : t.New)
      (unkeyed : t.idempotencyKey = none) (occurrence : t.scheduleId = some schedule)
      (time : t.scheduledFor = some instant) (first : materialized s.db schedule instant = false)
      (queue : ∃ q, s.db.queues.get? t.queueName = some q ∧ q.hasRoom)
      (policy : t.retry = (s.db.handlerPolicies.get? ⟨t.queueName, t.taskName, t.handlerVersion⟩).getD {})
      (planned : ∃ c, s.db.schedules.get? schedule = some c ∧
        t = { c.definition.occurrence schedule instant with retry := t.retry })
      (checked : Holds (t.checks id)) :
      Effect e (.materialize id) s
        { s with
          db := { s.db with
            tasks := s.db.tasks.put id t
            queues := s.db.queues.adjust t.queueName Queue.taken }
          drawn := s.drawn + 1 }
  | phantom {s : Session} {queueName : String} :
      Effect e (.phantom queueName) s
        { s with
          db := { s.db with queues := s.db.queues.adjust queueName Queue.taken }
          drawn := s.drawn + 1 }
  | draw {s : Session} : Effect e .draw s { s with drawn := s.drawn + 1 }
  /-- A running task adopts a task that is not above it. -/
  | adopt {s : Session} {child parent : Uuid} {c p : Task}
      (row : s.db.tasks.get? child = some c) (orphan : c.parentTaskId = none)
      (owner : s.db.tasks.get? parent = some p) (running : p.state = .running)
      (apart : Forest.search (parentOf s.db) child (walkBound s.db) parent = some false)
      (checked : Holds (Task.checks child { c with parentTaskId := some parent })) :
      Effect e (.adopt child parent) s
        { s with db := { s.db with
            tasks := s.db.tasks.put child { c with parentTaskId := some parent } } }
  /-- A running task adopts the task that its checkpoint names. -/
  | adoptStored {s : Session} {child parent : Uuid} {c p : Task} {k : StepKey} {v : Json}
      {text : String}
      (row : s.db.tasks.get? child = some c) (orphan : c.parentTaskId = none)
      (owner : s.db.tasks.get? parent = some p) (running : p.state = .running)
      (key : k.taskId = parent) (stored : s.db.checkpoints.get? k = some v)
      (field : v.fieldText "task_id" = some text) (names : Uuid.ofText? text = some child)
      (distinct : child ≠ parent)
      (checked : Holds (Task.checks child { c with parentTaskId := some parent })) :
      Effect e (.adoptStored child parent) s
        { s with db := { s.db with
            tasks := s.db.tasks.put child { c with parentTaskId := some parent } } }
  /-- A running task records a step. -/
  | checkpoint {s : Session} {k : StepKey} {v : Json} {t : Task}
      (row : s.db.tasks.get? k.taskId = some t) (running : t.state = .running)
      (free : s.db.checkpoints.get? k = none) (checked : Holds (checkpointChecks k v)) :
      Effect e (.checkpoint k) s
        { s with db := { s.db with checkpoints := s.db.checkpoints.put k v } }
  /-- A signal is stored once no open wait asks for it. -/
  | signal {s : Session} {k : SignalKey} {v : Json} {t : Task}
      (row : s.db.tasks.get? k.taskId = some t) (free : s.db.signals.get? k = none)
      (answered : ∀ j w, s.db.waits.get? j = some w → w.key j = k → w.resolvedAt ≠ none)
      (checked : Holds (signalChecks k v)) :
      Effect e (.signal k) s { s with db := { s.db with signals := s.db.signals.put k v } }
  /-- A signal wait ends with its signal or its timeout. -/
  | deliver {s : Session} {k : StepKey} {w : Wait} {v : Json} {outcome : WaitOutcome}
      (row : s.db.waits.get? k = some w) (isOpen : w.resolvedAt = none)
      (answer : (outcome = .timeout ∧ v = signalTimeout) ∨
        (outcome = .signal ∧ ∃ stored, v = signalCheckpoint stored)) :
      Effect e (.deliver k) s
        { s.deliver e.now k v with db := { (s.deliver e.now k v).db with
            waits := s.db.waits.put k
              { w with resolvedAt := some e.now, outcome := some outcome } } }
  /-- A result wait ends with its result or its timeout. -/
  | deliverResult {s : Session} {k : StepKey} {w : ResultWait} {v : Json} {outcome : WaitOutcome}
      (row : s.db.resultWaits.get? k = some w) (isOpen : w.resolvedAt = none)
      (answer : (outcome = .timeout ∧ v = resultTimeout) ∨
        ∃ c, s.db.tasks.get? w.resultTaskId = some c ∧ c.state.terminal = true ∧
          outcome = c.state.waitOutcome ∧ v = resultCheckpoint c.state.text c.result c.error) :
      Effect e (.deliverResult k) s
        { s.deliver e.now k v with db := { (s.deliver e.now k v).db with
            resultWaits := s.db.resultWaits.put k
              { w with resolvedAt := some e.now, outcome := some outcome } } }
  | staleTimeout {s : Session} {k : StepKey} {w w' : ResultWait} {v : Json}
      (row : s.db.resultWaits.get? k = some w) (resolved : w.resolvedAt ≠ none)
      (awake : ∀ t, s.db.tasks.get? k.taskId = some t → t.state ≠ .waiting)
      (target : w'.resultTaskId = w.resultTaskId) (still : w'.resolvedAt ≠ none)
      (idle : s.queued = []) (value : v = resultTimeout) (outcome : w'.outcome = some .timeout) :
      Effect e (.staleTimeout k) s
        { s with db := { s.db with
            checkpoints := s.db.checkpoints.putNew k v
            resultWaits := s.db.resultWaits.put k w' } }
  /-- The children of a finished task are all cancelled. -/
  | fireCancel {s : Session} {id : Uuid} {new : Task} {rest : List Trigger}
      (queue : s.queued = .cancelOwnedChildren id new :: rest)
      (row : s.db.tasks.get? id = some new) (finished : new.state.terminal = true)
      (childless : ∀ j c, s.db.tasks.get? j = some c → c.parentTaskId = some id →
        c.state.terminal = true) :
      Effect e (.fireCancel id) s { s with queued := rest }
  | fireManage {s : Session} {id : Uuid} {old new : Task} {rest : List Trigger}
      (queue : s.queued = .manageIdempotencyKey id old new :: rest)
      (row : s.db.tasks.get? id = some new) (crossing : old.state.terminal ≠ new.state.terminal) :
      Effect e (.fireManage id) s
        { s with db := manageIdempotencyKey e id old new s.db, queued := rest }
  /-- Nobody waits for a finished task any more, and its own waits are over. -/
  | fireResolve {s : Session} {id : Uuid} {new : Task} {rest : List Trigger}
      (queue : s.queued = .resolveTaskResult id new :: rest)
      (row : s.db.tasks.get? id = some new) (finished : new.state.terminal = true)
      (unwatched : ∀ k w, s.db.resultWaits.get? k = some w → w.resultTaskId = id →
        w.resolvedAt = none → ∀ t, s.db.tasks.get? k.taskId = some t → t.state ≠ .waiting) :
      Effect e (.fireResolve id) s { s with db := cancelOwnWaits e id s.db, queued := rest }
  | reorder {s : Session} {queue : List Trigger} (perm : queue.Perm s.queued) :
      Effect e .reorder s { s with queued := queue }
  | addQueue {s : Session} {name : String} (free : s.db.queues.get? name = none)
      (checked : Holds (({} : Queue).checks name)) :
      Effect e (.addQueue name) s { s with db := { s.db with queues := s.db.queues.put name {} } }
  /-- `put_queue`. The counter is recounted exactly when a limit is turned on. -/
  | configure {s : Session} {name : String} {q : Queue}
      (counter : ∀ m, q.maxOutstandingTasks = some m → q.capacityOutstandingTasks =
        match (s.db.queues.get? name).bind fun c => c.maxOutstandingTasks.map fun _ =>
          c.capacityOutstandingTasks with
        | some capacity => capacity
        | none => outstandingIn s.db name)
      (checked : Holds (q.checks name)) :
      Effect e (.configure name) s { s with db := { s.db with queues := s.db.queues.put name q } }
  /-- A queue changes in its other columns. -/
  | touchQueue {s : Session} {name : String} {q q' : Queue}
      (row : s.db.queues.get? name = some q)
      (limit : q'.maxOutstandingTasks = q.maxOutstandingTasks)
      (counter : q'.capacityOutstandingTasks = q.capacityOutstandingTasks)
      (retention : q'.idempotencyRetentionSeconds = q.idempotencyRetentionSeconds)
      (same : q'.checks = q.checks) :
      Effect e (.touchQueue name) s { s with db := { s.db with queues := s.db.queues.put name q' } }
  | delete {s : Session} {id : Uuid} {t : Task}
      (row : s.db.tasks.get? id = some t) (finished : t.state.terminal = true)
      (childless : ∀ j c, s.db.tasks.get? j = some c → c.parentTaskId ≠ some id)
      (idle : s.queued = []) :
      Effect e (.delete id) s { s with db := deleteTask e s.db (id, t) }
  | dropKeys {s : Session} {gone : List (String × String)}
      (expired : ∀ k ∈ gone, ∃ r, s.db.idempotencyKeys.get? k = some r ∧
        r.expiresAt.any (· ≤ e.now) = true) :
      Effect e .dropKeys s
        { s with db := { s.db with
            idempotencyKeys := s.db.idempotencyKeys.delete fun k _ => gone.contains k } }
  | policy {s : Session} {k : PolicyKey} {r : RetryColumns}
      (free : s.db.handlerPolicies.get? k = none) (checked : Holds (policyChecks k r)) :
      Effect e .policy s
        { s with db := { s.db with handlerPolicies := s.db.handlerPolicies.put k r } }
  /-- A registration writes the rows of one worker. -/
  | enroll {s : Session} {worker : Uuid} {workers : Table Uuid Worker}
      {capabilities : Table Capability Unit}
      (others : ∀ id, id ≠ worker → workers.get? id = s.db.workers.get? id)
      (theirs : ∀ c, c.workerId ≠ worker → capabilities.get? c = s.db.workerCapabilities.get? c) :
      Effect e (.enroll worker) s
        { s with db := { s.db with workers := workers, workerCapabilities := capabilities } }
  | heartbeat {s : Session} {worker : Uuid} {w w' : Worker} (row : s.db.workers.get? worker = some w)
      (queue : w'.queueName = w.queueName) :
      Effect e .heartbeat s { s with db := { s.db with workers := s.db.workers.put worker w' } }
  | dropWorkers {s : Session} {gone : List Uuid} :
      Effect e .dropWorkers s
        { s with db := { s.db with
            workers := s.db.workers.delete fun id _ => gone.contains id
            workerCapabilities := s.db.workerCapabilities.delete fun c _ => gone.contains c.workerId } }
  /-- Tables that no other effect reads. -/
  | frame {s : Session} {schedules : Table Uuid Schedule} {audit : List Audit}
      (planned : Planned s.db schedules) :
      Effect e .frame s
        { s with db := { s.db with schedules := schedules, administratorAudit := audit } }

abbrev Effects (e : Env) : List Label → Session → Session → Prop :=
  Labelled.Path (Effect e)

end Pgtask
