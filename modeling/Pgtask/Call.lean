import Pgtask.Functions.Admin

/-!
# Calls and runs

A call of a `pgtask` function, with the triggers it fires, is one step. A run is
a list of calls, each at its own `statement_timestamp()`, that starts from the
database the migrations leave.
-/

open Sql

namespace Pgtask

inductive Call
  | putQueue (name : String) (config : QueueConfig)
  | setQueuePaused (name : String) (paused : Bool)
  | enqueue (request : EnqueueRequest)
  | enqueueMany (items : List EnqueueItem)
  | claim (queueName : String) (workerId : Uuid) (taskNames : List String)
      (handlerVersions : List Int) (limit leaseMilliseconds : Int)
  | renewLeases (leases : List Lease) (leaseMilliseconds : Int)
  | completeTask (lease : Lease) (result : Option Json)
  | completeTasks (completions : List Completion)
  | failTask (lease : Lease) (error : Option Json) (retryMilliseconds : Option Int)
  | failTasks (failures : List Failure)
  | releaseTasks (leases : List Lease)
  | recoverExpired (queueName : String) (limit : Int)
  | suspendTask (lease : Lease) (stepName : String) (occurrence : Int) (wakeAt : Option Timestamp)
      (delayMilliseconds : Option Int)
  | spawnTask (lease : Lease) (stepName : String) (occurrence : Int) (request : EnqueueRequest)
  | commitCheckpoint (lease : Lease) (stepName : String) (occurrence : Int) (value : Json)
  | getCheckpoint (key : StepKey)
  | emitSignal (key : SignalKey) (value : Json)
  | waitForSignal (lease : Lease) (stepName : String) (occurrence : Int) (signalName : String)
      (signalOccurrence : Int) (timeoutMilliseconds : Option Int)
  | recoverWaitTimeouts (limit : Int)
  | waitForResult (lease : Lease) (stepName : String) (occurrence : Int) (resultTaskId : Uuid)
      (timeoutMilliseconds : Option Int)
  | recoverResultWaitTimeouts (limit : Int)
  | registerWorker (workerId : Uuid) (queueName version : String) (registration : Registration)
      (ttlMilliseconds : Int)
  | heartbeatWorker (workerId : Uuid) (ttlMilliseconds : Int) (draining : Bool)
  | deleteExpiredWorkers (graceMilliseconds limit : Int)
  | sampleQueueDemand (queueName : String) (intervalMilliseconds : Int)
  | putSchedule (id : Uuid) (name : String) (definition : ScheduleDefinition)
      (nextRunAt : Timestamp)
  | setSchedulePaused (id : Uuid) (paused : Bool)
  | deleteSchedule (id : Uuid)
  | claimDueSchedules (limit : Int)
  | materializeSchedule (id : Uuid) (expectedNextRunAt : Timestamp) (occurrences : List Timestamp)
      (nextRunAt : Timestamp)
  | deleteExpiredTerminal (queueName : String) (limit : Int)
  | deleteExpiredIdempotencyKeys (queueName : String) (limit : Int)
  | cancelTask (id : Uuid)
  | adminCancelTask (id : Uuid) (actor : Option String)
  | adminRetryTask (id : Uuid) (actor : Option String)
  | adminSetSchedulePaused (id : Uuid) (paused : Bool) (actor : Option String)

inductive Reply
  | done
  | flag (value : Bool)
  | flags (values : List Bool)
  | count (value : Nat)
  | queue (row : Option Queue)
  | enqueued (tasks : List (Uuid × Bool))
  | tasks (rows : List (Uuid × Task))
  | ids (values : List Uuid)
  | states (values : List (Option TaskState))
  | wakeAt (value : Option Timestamp)
  | spawned (child : Option (Uuid × Bool))
  | checkpoint (value : Option Json)
  | signal (value : Json)
  | wait (reply : Option WaitReply)
  | demand (reply : DemandReply)
  | schedules (rows : List (Uuid × Schedule))
  | schedule (row : Option Schedule)
  | cancelled (task : Option (String × String))
  deriving DecidableEq

def reply {α : Type} (f : α → Reply) (r : α × Session) : Reply × Session := (f r.1, r.2)

def exec (e : Env) (c : Call) (s : Session) : Result (Reply × Session) :=
  match c with
  | .putQueue name config => (putQueue name config s).map (reply (.queue ∘ some))
  | .setQueuePaused name paused => .ok (reply .queue (setQueuePaused e name paused s))
  | .enqueue request => (enqueue e request s).map (reply fun r => .enqueued [r])
  | .enqueueMany items => (enqueueMany e items s).map (reply .enqueued)
  | .claim queueName workerId taskNames handlerVersions limit leaseMilliseconds =>
    (claim e queueName workerId taskNames handlerVersions limit leaseMilliseconds s).map
      (reply .tasks)
  | .renewLeases leases leaseMilliseconds =>
    (renewLeases e leases leaseMilliseconds s).map (reply .ids)
  | .completeTask l result =>
    (completeTask e l.taskId l.attempt l.leaseToken result s).map (reply .flag)
  | .completeTasks completions => (completeTasks e completions s).map (reply .flags)
  | .failTask l error retryMilliseconds =>
    (failTask e l.taskId l.attempt l.leaseToken error retryMilliseconds s).map
      (reply fun r => .states [r])
  | .failTasks failures => (failTasks e failures s).map (reply .states)
  | .releaseTasks leases => (releaseTasks e leases s).map (reply .ids)
  | .recoverExpired queueName limit => (recoverExpired e queueName limit s).map (reply .count)
  | .suspendTask l stepName occurrence wakeAt delayMilliseconds =>
    (suspendTask e l.taskId l.attempt l.leaseToken stepName occurrence wakeAt delayMilliseconds s).map
      (reply .wakeAt)
  | .spawnTask l stepName occurrence request =>
    (spawnTask e l.taskId l.attempt l.leaseToken stepName occurrence request s).map (reply .spawned)
  | .commitCheckpoint l stepName occurrence value =>
    (commitCheckpoint l.taskId l.attempt l.leaseToken stepName occurrence value s).map
      (reply .checkpoint)
  | .getCheckpoint key => .ok (.checkpoint (getCheckpoint s.db key), s)
  | .emitSignal key value => (emitSignal e key value s).map (reply .signal)
  | .waitForSignal l stepName occurrence signalName signalOccurrence timeoutMilliseconds =>
    (waitForSignal e l.taskId l.attempt l.leaseToken stepName occurrence signalName
      signalOccurrence timeoutMilliseconds s).map (reply .wait)
  | .recoverWaitTimeouts limit => (recoverWaitTimeouts e limit s).map (reply .count)
  | .waitForResult l stepName occurrence resultTaskId timeoutMilliseconds =>
    (waitForResult e l.taskId l.attempt l.leaseToken stepName occurrence resultTaskId
      timeoutMilliseconds s).map (reply .wait)
  | .recoverResultWaitTimeouts limit => (recoverResultWaitTimeouts e limit s).map (reply .count)
  | .registerWorker workerId queueName version registration ttlMilliseconds =>
    (registerWorker e workerId queueName version registration ttlMilliseconds s).map
      fun s => (.done, s)
  | .heartbeatWorker workerId ttlMilliseconds draining =>
    .ok (reply .flag (heartbeatWorker e workerId ttlMilliseconds draining s))
  | .deleteExpiredWorkers graceMilliseconds limit =>
    (deleteExpiredWorkers e graceMilliseconds limit s).map (reply .count)
  | .sampleQueueDemand queueName intervalMilliseconds =>
    (sampleQueueDemand e queueName intervalMilliseconds s).map (reply .demand)
  | .putSchedule id name definition nextRunAt =>
    (putSchedule id name definition nextRunAt s).map (reply fun r => .schedules [r])
  | .setSchedulePaused id paused => .ok (reply .schedule (setSchedulePaused e id paused s))
  | .deleteSchedule id => .ok (reply .flag (deleteSchedule id s))
  | .claimDueSchedules limit =>
    (claimDueSchedules e limit s.db).map fun rows => (.schedules rows, s)
  | .materializeSchedule id expectedNextRunAt occurrences nextRunAt =>
    (materializeSchedule e id expectedNextRunAt occurrences nextRunAt s).map (reply .count)
  | .deleteExpiredTerminal queueName limit =>
    (deleteExpiredTerminal e queueName limit s).map (reply .count)
  | .deleteExpiredIdempotencyKeys queueName limit =>
    (deleteExpiredIdempotencyKeys e queueName limit s).map (reply .count)
  | .cancelTask id => (cancelTask e id s).map (reply .cancelled)
  | .adminCancelTask id actor => (adminCancelTask e id actor s).map (reply .flag)
  | .adminRetryTask id actor => (adminRetryTask e id actor s).map (reply .flag)
  | .adminSetSchedulePaused id paused actor =>
    (adminSetSchedulePaused e id paused actor s).map (reply .flag)

end Pgtask
