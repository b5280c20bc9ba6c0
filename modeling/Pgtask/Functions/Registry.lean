import Pgtask.Functions.Enqueue
import Mathlib.Data.List.Sort

/-! # Worker registry and schedules -/

open Sql

namespace Pgtask

/-! ## Registration -/

structure Registration where
  taskNames : List String
  handlerVersions : List Int
  retryKinds : List (Option RetryKind)
  baseDelays : List (Option Int)
  factors : List (Option Int)
  maxDelays : List (Option Int)

def Registration.aligned (r : Registration) : Bool :=
  r.taskNames.length ≠ 0 && r.handlerVersions.length = r.taskNames.length &&
    r.retryKinds.length = r.taskNames.length && r.baseDelays.length = r.taskNames.length &&
    r.factors.length = r.taskNames.length && r.maxDelays.length = r.taskNames.length

def Registration.capabilities (r : Registration) : List (String × Int) :=
  r.taskNames.zip r.handlerVersions

def Registration.retries (r : Registration) : List RetryColumns :=
  (r.retryKinds.zip (r.baseDelays.zip (r.factors.zip r.maxDelays))).map fun x =>
    ⟨x.1, x.2.1, x.2.2.1, x.2.2.2⟩

def Registration.policies (r : Registration) (queueName : String) : List (PolicyKey × RetryColumns) :=
  (r.capabilities.map fun c => ⟨queueName, c.1, c.2⟩).zip r.retries

def insertCapability (workerId : Uuid) (s : Session) (c : String × Int) : Result Session := do
  require [("worker_capabilities_handler_version_check", 0 < c.2)]
  .ok { s with db := { s.db with
    workerCapabilities := s.db.workerCapabilities.put ⟨workerId, c.1, c.2⟩ () } }

def insertPolicy (s : Session) (p : PolicyKey × RetryColumns) : Result Session := do
  require (policyChecks p.1 p.2)
  match s.db.handlerPolicies.get? p.1 with
  | some _ => .ok s
  | none => .ok { s with db := { s.db with handlerPolicies := s.db.handlerPolicies.put p.1 p.2 } }

def registerWorker (e : Env) (workerId : Uuid) (queueName version : String) (r : Registration)
    (ttlMilliseconds : Int) (s : Session) : Result Session := do
  if !r.aligned then
    .error (invalidParameter "worker capabilities and retry policies must be nonempty and aligned")
  else if !decide r.capabilities.Nodup then
    .error (invalidParameter "worker capabilities must be unique")
  else if ttlMilliseconds ≤ 0 then
    .error (invalidParameter "worker ttl must be positive")
  else
    let s ← addQueue queueName s
    let w : Worker := { queueName, version, expiresAt := e.now + milliseconds ttlMilliseconds }
    let s := { s with db := { s.db with
      workers := s.db.workers.put workerId w
      workerCapabilities := s.db.workerCapabilities.delete fun c _ => c.workerId = workerId } }
    let s ← r.capabilities.foldlM (insertCapability workerId) s
    if (r.policies queueName).any fun p => (s.db.handlerPolicies.get? p.1).any (· ≠ p.2) then
      .error (.exception "23514" "retry policy is immutable for a queue, task name, and handler version")
    else (r.policies queueName).foldlM insertPolicy s

def heartbeatWorker (e : Env) (workerId : Uuid) (ttlMilliseconds : Int) (draining : Bool)
    (s : Session) : Bool × Session :=
  match (s.db.workers.get? workerId).filter fun _ => 0 < ttlMilliseconds with
  | none => (false, s)
  | some w =>
    let w := { w with draining := draining, expiresAt := e.now + milliseconds ttlMilliseconds }
    (true, { s with db := { s.db with workers := s.db.workers.put workerId w } })

def byWorkerExpiry (x y : Uuid × Worker) : Bool :=
  lexLe (· ≤ ·) (· ≤ ·) (x.2.expiresAt, x.1) (y.2.expiresAt, y.1)

def deleteExpiredWorkers (e : Env) (graceMilliseconds count : Int) (s : Session) :
    Result (Nat × Session) := do
  let n ← limit count
  let rows := ((s.db.workers.select fun _ w => w.expiresAt ≤ e.now - milliseconds graceMilliseconds
    ).insertionSort fun x y => byWorkerExpiry x y).take n
  let gone := rows.map Prod.fst
  .ok (rows.length, { s with db := { s.db with
    workers := s.db.workers.delete fun id _ => gone.contains id
    workerCapabilities := s.db.workerCapabilities.delete fun c _ => gone.contains c.workerId } })

/-! ## Demand -/

def routable (e : Env) (db : Database) (t : Task) : Bool :=
  (db.workers.select fun id w => w.queueName = t.queueName && !w.draining && e.now < w.expiresAt &&
    (db.workerCapabilities.get? ⟨id, t.taskName, t.handlerVersion⟩).isSome).length ≠ 0

structure DemandReply where
  sampled : Bool
  liveWorkers : Int
  routableTasks : Int
  unroutableTasks : Int
  deriving DecidableEq

/-- `sample_queue_demand`. A call is one step, so it always gets its locks. -/
def sampleQueueDemand (e : Env) (queueName : String) (intervalMilliseconds : Int) (s : Session) :
    Result (DemandReply × Session) :=
  if intervalMilliseconds ≤ 0 then .error (invalidParameter "sample interval must be positive")
  else match s.db.queues.get? queueName with
    | none => .ok (⟨false, 0, 0, 0⟩, s)
    | some q =>
      let fresh := q.demandSampledAt.any fun instant =>
        e.now - milliseconds (intervalMilliseconds - intervalMilliseconds / 10) < instant
      if fresh then
        .ok (⟨false, q.demandLiveWorkers, q.demandRoutableTasks, q.demandUnroutableTasks⟩, s)
      else
        let ready := s.db.tasks.select fun _ t => t.queueName = queueName && t.state = .pending &&
          t.runAt ≤ e.now && q.pausedAt.isNone
        let live : Int := s.db.workers.count fun _ w => w.queueName = queueName && e.now < w.expiresAt
        let routed : Int := ready.countP fun x => routable e s.db x.2
        let unrouted : Int := ready.length - routed
        let q := { q with
          demandSampledAt := some e.now, demandLiveWorkers := live, demandRoutableTasks := routed,
          demandUnroutableTasks := unrouted }
        .ok (⟨true, live, routed, unrouted⟩,
          { s with db := { s.db with queues := s.db.queues.put queueName q } })

structure QueueDemand where
  readyTasks : Int
  capableTasks : Int
  unroutableTasks : Int
  deriving DecidableEq

def readyTasks (e : Env) (db : Database) (queueName : String) : List (Uuid × Task) :=
  db.tasks.select fun _ t => t.queueName = queueName && t.state = .pending && t.runAt ≤ e.now &&
    (db.queues.get? t.queueName).any fun q => q.pausedAt.isNone

def queueDemand (e : Env) (queueName : String) (taskNames : List String) (handlerVersions : List Int)
    (db : Database) : Result QueueDemand :=
  if taskNames.length = 0 ∨ taskNames.length ≠ handlerVersions.length then
    .error (invalidParameter "worker capabilities must be nonempty and aligned")
  else
    let ready := readyTasks e db queueName
    .ok {
      readyTasks := ready.length
      capableTasks := ready.countP fun x =>
        (taskNames.zip handlerVersions).contains (x.2.taskName, x.2.handlerVersion)
      unroutableTasks := ready.countP fun x => !routable e db x.2 }

structure QueueOverview where
  name : String
  queue : Queue
  pendingCount : Nat
  runningCount : Nat
  waitingCount : Nat
  terminalCount : Nat
  readyCount : Nat
  routableCount : Nat
  unroutableCount : Nat
  outstandingCount : Nat

def queueOverview (e : Env) (db : Database) : List QueueOverview :=
  db.queues.rows.map fun (name, q) =>
    let count := fun p : Task → Bool => db.tasks.count fun _ t => t.queueName = name && p t
    let ready := fun t : Task => t.state = .pending && t.runAt ≤ e.now && q.pausedAt.isNone
    { name := name
      queue := q
      pendingCount := count fun t => t.state = .pending
      runningCount := count fun t => t.state = .running
      waitingCount := count fun t => t.state = .waiting
      terminalCount := count fun t => t.state.terminal
      readyCount := count ready
      routableCount := count fun t => ready t && routable e db t
      unroutableCount := count fun t => ready t && !routable e db t
      outstandingCount := count fun t => t.state.outstanding }

/-! ## Schedules -/

def scheduleNamed (db : Database) (name : String) : Option (Uuid × Schedule) :=
  db.schedules.rows.find? fun x => x.2.name = name

def putSchedule (id : Uuid) (name : String) (definition : ScheduleDefinition)
    (nextRunAt : Timestamp) (s : Session) : Result ((Uuid × Schedule) × Session) := do
  let s ← addQueue definition.queueName s
  let new : Schedule := { name, definition, nextRunAt }
  require new.checks
  match scheduleNamed s.db name with
  | some (old, current) =>
    if current.definition = definition then .ok ((old, current), s)
    else
      let changed := { current with definition := definition, nextRunAt := nextRunAt }
      .ok ((old, changed), { s with db := { s.db with schedules := s.db.schedules.put old changed } })
  | none =>
    if (s.db.schedules.get? id).isSome then .error (.uniqueViolation "schedules_pkey")
    else .ok ((id, new), { s with db := { s.db with schedules := s.db.schedules.put id new } })

def setSchedulePaused (e : Env) (id : Uuid) (paused : Bool) (s : Session) :
    Option Schedule × Session :=
  match s.db.schedules.get? id with
  | none => (none, s)
  | some c =>
    let c := { c with pausedAt := if paused then some (c.pausedAt.getD e.now) else none }
    (some c, { s with db := { s.db with schedules := s.db.schedules.put id c } })

def deleteSchedule (id : Uuid) (s : Session) : Bool × Session :=
  ((s.db.schedules.get? id).isSome,
    { s with db := { s.db with schedules := s.db.schedules.delete fun k _ => k = id } })

def byNextRun (x y : Uuid × Schedule) : Bool :=
  lexLe (· ≤ ·) (· ≤ ·) (x.2.nextRunAt, x.1) (y.2.nextRunAt, y.1)

def claimDueSchedules (e : Env) (count : Int) (db : Database) : Result (List (Uuid × Schedule)) := do
  let n ← limit count
  .ok (((db.schedules.select fun _ c => c.pausedAt.isNone && c.nextRunAt ≤ e.now).insertionSort
    fun x y => byNextRun x y).take n)

def ScheduleDefinition.occurrence (d : ScheduleDefinition) (id : Uuid) (instant : Timestamp) : Task where
  queueName := d.queueName
  taskName := d.taskName
  handlerVersion := d.handlerVersion
  payload := d.payload
  headers := d.headers
  priority := d.priority
  runAt := instant
  maxAttempts := d.maxAttempts
  scheduleId := some id
  scheduledFor := some instant

/-- A task of this schedule for this instant: a conflict on `tasks_schedule_occurrence_idx`. -/
def materialized (db : Database) (id : Uuid) (instant : Timestamp) : Bool :=
  db.tasks.rows.any fun x => x.2.scheduleId = some id && x.2.scheduledFor = some instant

/-- `INSERT ... ON CONFLICT (schedule_id, scheduled_for) DO NOTHING` of one occurrence. The
BEFORE triggers run first, so their effects stay also when the row is skipped. -/
def materializeOccurrence (e : Env) (id : Uuid) (d : ScheduleDefinition) (instant : Timestamp)
    (s : Session) : Result (Bool × Session) := do
  let (taskId, s) := genRandomUuid e s
  let (row, s) ← beforeInsertTask taskId (d.occurrence id instant) s
  if materialized s.db id instant then .ok (false, s)
  else if (s.db.tasks.get? taskId).isSome then .error (.uniqueViolation "tasks_pkey")
  else if (s.db.queues.get? row.queueName).isNone then
    .error (.foreignKeyViolation "tasks_queue_name_fkey")
  else .ok (true, { s with db := { s.db with tasks := s.db.tasks.put taskId row } })

def materializeOccurrences (e : Env) (id : Uuid) (d : ScheduleDefinition) :
    List Timestamp → Session → Result (Nat × Session)
  | [], s => .ok (0, s)
  | instant :: rest, s => do
    let (inserted, s) ← materializeOccurrence e id d instant s
    let (count, s) ← materializeOccurrences e id d rest s
    .ok ((if inserted then 1 else 0) + count, s)

def allowedCount (db : Database) (queueName : String) (occurrences : Nat) : Nat :=
  match db.queues.get? queueName with
  | none => occurrences
  | some q => match q.maxOutstandingTasks with
    | none => occurrences
    | some maximum => (max (min (occurrences : Int) (maximum - q.capacityOutstandingTasks)) 0).toNat

def materializeSchedule (e : Env) (id : Uuid) (expectedNextRunAt : Timestamp)
    (occurrences : List Timestamp) (nextRunAt : Timestamp) (s : Session) : Result (Nat × Session) :=
  match (s.db.schedules.get? id).filter fun c =>
    c.pausedAt.isNone && c.nextRunAt = expectedNextRunAt with
  | none => .ok (0, s)
  | some c =>
    let allowed := allowedCount s.db c.definition.queueName occurrences.length
    let c := { c with nextRunAt := occurrences[allowed]?.getD nextRunAt }
    materializeOccurrences e id c.definition (occurrences.take allowed)
      { s with db := { s.db with schedules := s.db.schedules.put id c } }

end Pgtask
