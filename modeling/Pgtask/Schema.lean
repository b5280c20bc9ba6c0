import Pgtask.Lib.Table
import Pgtask.Lib.Uuid

/-!
# The schema

The tables of `migrations/` as they stand after the newest migration, each as
its primary key and the columns that some function reads. Columns that are only
written (`created_at`, `updated_at` and the like) are left out.
-/

open Sql

namespace Pgtask

/-- A `timestamptz`, in microseconds. -/
abbrev Timestamp := Int

def milliseconds (n : Int) : Int := n * 1000

def seconds (n : Int) : Int := n * 1000000

/-! ## Queues -/

structure Queue where
  terminalRetentionSeconds : Int := 604800
  pausedAt : Option Timestamp := none
  idempotencyRetentionSeconds : Int := 2592000
  maxOutstandingTasks : Option Int := none
  starvationTimeoutSeconds : Int := 300
  capacityOutstandingTasks : Int := 0
  demandSampledAt : Option Timestamp := none
  demandLiveWorkers : Int := 0
  demandRoutableTasks : Int := 0
  demandUnroutableTasks : Int := 0
  deriving DecidableEq

/-! ## Tasks and attempts -/

inductive TaskState
  | pending | running | waiting | succeeded | failed | cancelled
  deriving DecidableEq, Repr

/-- `state IN ('succeeded', 'failed', 'cancelled')`. -/
def TaskState.terminal : TaskState → Bool
  | .succeeded | .failed | .cancelled => true
  | .pending | .running | .waiting => false

/-- `state IN ('pending', 'running', 'waiting')`. -/
def TaskState.outstanding (s : TaskState) : Bool := !s.terminal

def TaskState.text : TaskState → String
  | .pending => "pending"
  | .running => "running"
  | .waiting => "waiting"
  | .succeeded => "succeeded"
  | .failed => "failed"
  | .cancelled => "cancelled"

inductive RetryKind
  | never | fixed | exponential
  deriving DecidableEq, Repr

structure RetryColumns where
  kind : Option RetryKind := none
  baseDelayMilliseconds : Option Int := none
  factor : Option Int := none
  maxDelayMilliseconds : Option Int := none
  deriving DecidableEq

structure Task where
  queueName : String
  taskName : String
  handlerVersion : Int
  payload : Json
  headers : Json
  state : TaskState := .pending
  priority : Int
  runAt : Timestamp
  attempt : Nat := 0
  maxAttempts : Int
  leaseToken : Option Uuid := none
  leaseOwner : Option Uuid := none
  leaseExpiresAt : Option Timestamp := none
  cancelRequestedAt : Option Timestamp := none
  idempotencyKey : Option String := none
  completedAt : Option Timestamp := none
  result : Option Json := none
  error : Option Json := none
  scheduleId : Option Uuid := none
  scheduledFor : Option Timestamp := none
  parentTaskId : Option Uuid := none
  retry : RetryColumns := {}
  failedAttempts : Option Nat := some 0
  deriving DecidableEq

inductive AttemptState
  | running | succeeded | failed | lost | cancelled | suspended | released
  deriving DecidableEq, Repr

/-- `state IN ('failed', 'lost')`: the attempts that count against the budget. -/
def AttemptState.failure : AttemptState → Bool
  | .failed | .lost => true
  | .running | .succeeded | .cancelled | .suspended | .released => false

structure Attempt where
  leaseToken : Uuid
  workerId : Uuid
  state : AttemptState := .running
  finishedAt : Option Timestamp := none
  error : Option Json := none
  deriving DecidableEq

/-! ## Workers -/

structure Worker where
  queueName : String
  version : String
  draining : Bool := false
  expiresAt : Timestamp
  deriving DecidableEq

/-- The key of `worker_capabilities`, which has no other column. -/
structure Capability where
  workerId : Uuid
  taskName : String
  handlerVersion : Int
  deriving DecidableEq

structure PolicyKey where
  queueName : String
  taskName : String
  handlerVersion : Int
  deriving DecidableEq

/-! ## Durable steps -/

/-- The key of `checkpoints`, `waits` and `result_waits`. -/
structure StepKey where
  taskId : Uuid
  handlerVersion : Int
  stepName : String
  occurrence : Int
  deriving DecidableEq

structure SignalKey where
  taskId : Uuid
  signalName : String
  occurrence : Int
  deriving DecidableEq

inductive WaitOutcome
  | signal | succeeded | failed | cancelled | timeout
  deriving DecidableEq, Repr

structure Wait where
  signalName : String
  signalOccurrence : Int
  timeoutAt : Option Timestamp
  resolvedAt : Option Timestamp := none
  outcome : Option WaitOutcome := none
  deriving DecidableEq

structure ResultWait where
  resultTaskId : Uuid
  timeoutAt : Option Timestamp
  resolvedAt : Option Timestamp := none
  outcome : Option WaitOutcome := none
  deriving DecidableEq

/-! ## Schedules -/

inductive ScheduleKind
  | interval | cron
  deriving DecidableEq, Repr

inductive MisfirePolicy
  | skip | latest | catchUp
  deriving DecidableEq, Repr

/-- The columns that `put_schedule` compares to tell whether a schedule changed. -/
structure ScheduleDefinition where
  kind : ScheduleKind
  intervalMilliseconds : Option Int
  cronExpression : Option String
  misfirePolicy : MisfirePolicy
  catchUpLimit : Option Int
  queueName : String
  taskName : String
  handlerVersion : Int
  payload : Json
  headers : Json
  priority : Int
  maxAttempts : Int
  deriving DecidableEq

structure Schedule where
  name : String
  definition : ScheduleDefinition
  nextRunAt : Timestamp
  pausedAt : Option Timestamp := none
  deriving DecidableEq

/-! ## Reservations and audit -/

/-- A row of `idempotency_keys`: its key is the queue and the idempotency key. -/
structure Reservation where
  taskId : Uuid
  expiresAt : Option Timestamp := none
  deriving DecidableEq

inductive AuditAction
  | taskCancel | taskRetry | schedulePause | scheduleResume
  deriving DecidableEq, Repr

structure Audit where
  actor : String
  action : AuditAction
  target : Uuid
  deriving DecidableEq

/-! ## The database -/

structure Database where
  queues : Table String Queue := .empty
  tasks : Table Uuid Task := .empty
  attempts : Table (Uuid × Nat) Attempt := .empty
  workers : Table Uuid Worker := .empty
  workerCapabilities : Table Capability Unit := .empty
  handlerPolicies : Table PolicyKey RetryColumns := .empty
  checkpoints : Table StepKey Json := .empty
  schedules : Table Uuid Schedule := .empty
  signals : Table SignalKey Json := .empty
  waits : Table StepKey Wait := .empty
  resultWaits : Table StepKey ResultWait := .empty
  idempotencyKeys : Table (String × String) Reservation := .empty
  administratorAudit : List Audit := []

/-! ## Constraints -/

/-- `^[A-Za-z0-9._:-]+$`, one character of it. -/
def nameChar (c : Char) : Bool :=
  c.isAlphanum || c = '.' || c = '_' || c = ':' || c = '-'

/-- Not empty, at most `limit` bytes, and only name characters. -/
def validName (limit : Nat) (s : String) : Bool :=
  s ≠ "" && s.utf8ByteSize ≤ limit && s.toList.all nameChar

/-- `tasks_retry_policy_check`. -/
def RetryColumns.wellFormed (r : RetryColumns) : Bool :=
  match r.kind with
  | none | some .never =>
    r.baseDelayMilliseconds.isNone && r.factor.isNone && r.maxDelayMilliseconds.isNone
  | some .fixed =>
    r.baseDelayMilliseconds.any (0 ≤ ·) && r.factor.isNone && r.maxDelayMilliseconds.isNone
  | some .exponential =>
    r.baseDelayMilliseconds.any (0 ≤ ·) && r.factor.any (0 < ·) &&
      r.maxDelayMilliseconds.any fun m => r.baseDelayMilliseconds.any (· ≤ m)

/-- The CHECK constraints of `tasks`, each with its name. -/
def Task.checks (id : Uuid) (t : Task) : List (String × Bool) :=
  [("tasks_handler_version_check", 0 < t.handlerVersion),
   ("tasks_headers_check", t.headers.isObject),
   ("tasks_max_attempts_check", 0 < t.maxAttempts),
   ("tasks_check", t.state ≠ .running ||
     (t.leaseToken.isSome && t.leaseOwner.isSome && t.leaseExpiresAt.isSome)),
   ("tasks_payload_size_check", t.payload.octetLength ≤ 1048576),
   ("tasks_headers_size_check", t.headers.octetLength ≤ 65536),
   ("tasks_result_size_check", t.result.all (·.octetLength ≤ 1048576)),
   ("tasks_error_size_check", t.error.all (·.octetLength ≤ 262144)),
   ("tasks_schedule_occurrence_check", t.scheduleId.isSome = t.scheduledFor.isSome),
   ("tasks_parent_check", t.parentTaskId ≠ some id),
   ("tasks_retry_policy_check", t.retry.wellFormed),
   ("tasks_failed_attempts_check", t.failedAttempts.all (· ≤ t.attempt))]

def Attempt.checks (a : Attempt) : List (String × Bool) :=
  [("attempts_error_size_check", a.error.all (·.octetLength ≤ 262144))]

/-- The checks on a step's key. They are the same in `checkpoints`, `waits` and `result_waits`. -/
def StepKey.checks (table : String) (k : StepKey) : List (String × Bool) :=
  [(table ++ "_handler_version_check", 0 < k.handlerVersion),
   (table ++ "_step_name_check", validName 255 k.stepName),
   (table ++ "_occurrence_check", 0 ≤ k.occurrence)]

def checkpointChecks (k : StepKey) (value : Json) : List (String × Bool) :=
  k.checks "checkpoints" ++ [("checkpoints_value_check", decide (value.octetLength ≤ 1048576))]

def signalChecks (k : SignalKey) (value : Json) : List (String × Bool) :=
  [("signals_signal_name_check", validName 255 k.signalName),
   ("signals_occurrence_check", 0 ≤ k.occurrence),
   ("signals_value_check", value.octetLength ≤ 1048576)]

def Wait.checks (k : StepKey) (w : Wait) : List (String × Bool) :=
  k.checks "waits" ++
    [("waits_signal_name_check", validName 255 w.signalName),
     ("waits_signal_occurrence_check", 0 ≤ w.signalOccurrence)]

def ResultWait.checks (k : StepKey) (w : ResultWait) : List (String × Bool) :=
  k.checks "result_waits" ++ [("result_waits_check", decide (k.taskId ≠ w.resultTaskId))]

def Queue.checks (name : String) (q : Queue) : List (String × Bool) :=
  [("queues_terminal_retention_seconds_check", 0 ≤ q.terminalRetentionSeconds),
   ("queues_idempotency_retention_seconds_check", 0 ≤ q.idempotencyRetentionSeconds),
   ("queues_max_outstanding_tasks_check", q.maxOutstandingTasks.all (0 < ·)),
   ("queues_starvation_timeout_seconds_check", 0 ≤ q.starvationTimeoutSeconds),
   ("queues_capacity_outstanding_tasks_check", 0 ≤ q.capacityOutstandingTasks),
   ("queues_name_check", validName 128 name)]

def policyChecks (k : PolicyKey) (r : RetryColumns) : List (String × Bool) :=
  [("handler_policies_handler_version_check", 0 < k.handlerVersion),
   ("handler_policies_retry_kind_not_null", r.kind.isSome),
   ("handler_policies_check", r.wellFormed)]

def Schedule.checks (s : Schedule) : List (String × Bool) :=
  let d := s.definition
  [("schedules_name_check", validName 255 s.name),
   ("schedules_interval_milliseconds_check", d.intervalMilliseconds.all (0 < ·)),
   ("schedules_catch_up_limit_check", d.catchUpLimit.all fun n => 0 < n && n ≤ 65535),
   ("schedules_task_name_check", validName 255 d.taskName),
   ("schedules_handler_version_check", 0 < d.handlerVersion),
   ("schedules_payload_check", d.payload.octetLength ≤ 1048576),
   ("schedules_headers_check", d.headers.isObject && d.headers.octetLength ≤ 65536),
   ("schedules_max_attempts_check", 0 < d.maxAttempts),
   ("schedules_check", match d.kind with
     | .interval => d.intervalMilliseconds.isSome && d.cronExpression.isNone
     | .cron => d.intervalMilliseconds.isNone && d.cronExpression.isSome),
   ("schedules_check1", (d.misfirePolicy = .catchUp) = d.catchUpLimit.isSome)]

end Pgtask
