import Pgtask.Worker.Claims
import Pgtask.Worker.Schedule

/-!
# Starting a worker

`HandlerRegistry` and `Worker::new` of `pgtask-worker`, and the registration that
`Worker::run` makes before its loops start. Durations are in nanoseconds.
-/

open Sql

namespace Pgtask

namespace Core

inductive RetryPolicy
  | never
  | fixed (delay : Nat)
  | exponential (baseDelay factor maxDelay : Nat)
  deriving DecidableEq

end Core

/-! ## Handlers -/

structure RegisteredHandler (F : Type) where
  function : F
  retryPolicy : Core.RetryPolicy
  deriving DecidableEq

/-- The handlers by task name and version. The queue is not part of the key. -/
structure HandlerRegistry (F : Type) where
  handlers : Table (String × Nat) (RegisteredHandler F) := .empty

namespace HandlerRegistry

variable {F : Type}

def registerDurable (registry : HandlerRegistry F) (taskName : String) (handlerVersion : Nat)
    (retryPolicy : Core.RetryPolicy) (handler : F) : Bool × HandlerRegistry F :=
  ((registry.handlers.get? (taskName, handlerVersion)).isNone,
    ⟨registry.handlers.put (taskName, handlerVersion) ⟨handler, retryPolicy⟩⟩)

def capabilities (registry : HandlerRegistry F) : List (String × Nat) :=
  registry.handlers.rows.map Prod.fst

def registrations (registry : HandlerRegistry F) : List ((String × Nat) × Core.RetryPolicy) :=
  registry.handlers.rows.map fun (key, handler) => (key, handler.retryPolicy)

def get (registry : HandlerRegistry F) (taskName : String) (handlerVersion : Nat) :
    Option (RegisteredHandler F) :=
  registry.handlers.get? (taskName, handlerVersion)

end HandlerRegistry

/-! ## Registration -/

namespace Store

def milliseconds (duration : Nat) (error : PostgresError) : Except PostgresError Int :=
  if 9223372036854775807 < duration / 1000000 then .error error else .ok (duration / 1000000 : Nat)

def integer (n : Nat) (error : PostgresError) : Except PostgresError Int :=
  if 2147483647 < n then .error error else .ok n

def retryPolicyColumns : Core.RetryPolicy → Except PostgresError RetryColumns
  | .never => .ok { kind := some .never }
  | .fixed delay => do
    let delay ← milliseconds delay .invalidRetryPolicy
    .ok { kind := some .fixed, baseDelayMilliseconds := some delay }
  | .exponential baseDelay factor maxDelay => do
    let baseDelay ← milliseconds baseDelay .invalidRetryPolicy
    let factor ← integer factor .invalidRetryPolicy
    let maxDelay ← milliseconds maxDelay .invalidRetryPolicy
    .ok { kind := some .exponential, baseDelayMilliseconds := some baseDelay, factor := some factor
          maxDelayMilliseconds := some maxDelay }

/-- `Store::register_worker`, up to the call it makes. -/
def registerWorker (workerId : Uuid) (queueName version : String)
    (capabilities : List ((String × Nat) × Core.RetryPolicy)) (ttl : Nat) :
    Except PostgresError Call := do
  if capabilities = [] then .error .missingCapabilities
  else
    let ttlMilliseconds ← milliseconds ttl .invalidLeaseDuration
    if ttlMilliseconds = 0 then .error .invalidLeaseDuration
    else
      let handlerVersions ← capabilities.mapM fun c => integer c.1.2 .invalidHandlerVersion
      let policies ← capabilities.mapM fun c => retryPolicyColumns c.2
      .ok (.registerWorker workerId queueName version
        { taskNames := capabilities.map fun c => c.1.1
          handlerVersions
          retryKinds := policies.map RetryColumns.kind
          baseDelays := policies.map RetryColumns.baseDelayMilliseconds
          factors := policies.map RetryColumns.factor
          maxDelays := policies.map RetryColumns.maxDelayMilliseconds }
        ttlMilliseconds)

/-- `Store::claim`, up to the call it makes. -/
def claim (queueName : String) (workerId : Uuid) (capabilities : List (String × Nat)) (limit : Nat)
    (leaseDuration : Nat) : Except PostgresError Call := do
  if limit = 0 then .error .invalidClaimLimit
  else if leaseDuration = 0 then .error .invalidLeaseDuration
  else if capabilities = [] then .error .missingCapabilities
  else
    let handlerVersions ← capabilities.mapM fun c => integer c.2 .invalidHandlerVersion
    let leaseMilliseconds ← milliseconds leaseDuration .invalidLeaseDuration
    .ok (.claim queueName workerId (capabilities.map Prod.fst) handlerVersions limit leaseMilliseconds)

end Store

/-! ## Workers -/

namespace Runtime

/-- `minimumConcurrency` is the one of `overload_protection`. -/
structure WorkerConfig where
  queues : List String
  concurrency : Nat := 10
  claimBatchSize : Nat := 10
  leaseDuration : Nat := 30000000000
  pollInterval : Nat := 30000000000
  workerHeartbeatInterval : Nat := 10000000000
  workerTtl : Nat := 30000000000
  scheduleReconciliationInterval : Nat := 30000000000
  retentionInterval : Nat := 60000000000
  declaredSchedules : List Core.ScheduleConfig := []
  supervisorInterval : Nat := 1000000000
  minimumConcurrency : Nat := 1

/-- A worker that `Worker::new` has accepted. -/
structure Worker (F : Type) where
  registry : HandlerRegistry F
  config : WorkerConfig
  id : Uuid
  handlers : registry.capabilities ≠ []
  queues : config.queues ≠ []
  distinct : config.queues.Nodup

variable {F : Type}

/-- The values that `Worker::new` refuses, in the order of its tests. -/
def WorkerConfig.refusals (config : WorkerConfig) : List (Bool × WorkerError) :=
  [(config.leaseDuration < 3000000, .invalidLeaseDuration),
   (config.pollInterval = 0, .invalidPollInterval),
   (config.workerHeartbeatInterval < 1000000 || config.workerTtl ≤ config.workerHeartbeatInterval,
     .invalidWorkerHeartbeat),
   (config.scheduleReconciliationInterval = 0, .invalidScheduleReconciliationInterval),
   (config.retentionInterval = 0, .invalidRetentionInterval),
   (config.supervisorInterval = 0, .invalidSupervisorInterval),
   (config.concurrency < config.minimumConcurrency, .invalidMinimumConcurrency)]

def Worker.new (registry : HandlerRegistry F) (config : WorkerConfig) (id : Uuid) :
    Except WorkerError (Worker F) :=
  match config.refusals.find? Prod.fst with
  | some (_, error) => .error error
  | none =>
    if handlers : registry.capabilities = [] then .error .missingHandlers
    else if queues : config.queues = [] then .error .missingQueues
    else if distinct : config.queues.Nodup then
      match config.declaredSchedules.find? fun schedule =>
          !config.queues.contains schedule.task.queueName ||
            (registry.get schedule.task.taskName schedule.task.handlerVersion).isNone with
      | some schedule => .error (.invalidDeclaredSchedule schedule.name)
      | none => .ok ⟨registry, config, id, handlers, queues, distinct⟩
    else .error .duplicateQueues

namespace Worker

def firstQueue (w : Worker F) : String := w.config.queues.head w.queues

def registration (w : Worker F) (version : String) : Except PostgresError Call :=
  Store.registerWorker w.id w.firstQueue version w.registry.registrations w.config.workerTtl

def claim (w : Worker F) (queueName : String) (limit : Nat) : Except PostgresError Call :=
  Store.claim queueName w.id w.registry.capabilities limit w.config.leaseDuration

def claims (w : Worker F) : Pgtask.WorkerConfig where
  id := w.id
  queues := w.config.queues
  claimBatchSize := w.config.claimBatchSize
  leaseMilliseconds := (w.config.leaseDuration / 1000000 : Nat)
  capabilities := w.registry.capabilities

end Worker

end Runtime

end Pgtask
