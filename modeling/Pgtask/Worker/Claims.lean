import Pgtask.Run
import Pgtask.Worker.Decode

/-!
# The claim loop

`Worker::claim_tasks` of `pgtask-worker` asks its queues one after another for
tasks, and `run_handlers` passes what it got to `spawn_task`. Between two claims
other clients use the database, so the loop is a state with one move for each
outcome.
-/

open Sql

namespace Pgtask

inductive WorkerError
  | invalidLeaseDuration
  | invalidPollInterval
  | invalidWorkerHeartbeat
  | invalidScheduleReconciliationInterval
  | invalidRetentionInterval
  | invalidSupervisorInterval
  | invalidMinimumConcurrency
  | missingHandlers
  | missingQueues
  | duplicateQueues
  | invalidDeclaredSchedule (name : String)
  | missingLeaseToken (id : Uuid)
  | missingHandler
  deriving DecidableEq

structure WorkerConfig where
  id : Uuid
  queues : List String
  claimBatchSize : Nat
  leaseMilliseconds : Int
  /-- The keys of the handler registry. -/
  capabilities : List (String × Nat)

/-! ## One pass over the queues -/

/-- `for queue_name in &self.config.queues`, with the tasks claimed so far. -/
structure Pass where
  limit : Nat
  queues : List String
  tasks : List TaskRecord := []

namespace Pass

/-- `limit == 0` needs no case of its own: nothing remains, and the pass is over. -/
def start (c : WorkerConfig) (effectiveConcurrency activeHandlers : Nat) : Pass where
  limit := min (effectiveConcurrency - activeHandlers) c.claimBatchSize
  queues := c.queues

/-- A claim returns at most `remaining` tasks, so this does not underflow in Rust either. -/
def remaining (p : Pass) : Nat := p.limit - p.tasks.length

def next (p : Pass) : Option (String × Nat) :=
  match p.queues with
  | [] => none
  | queueName :: _ => if p.remaining = 0 then none else some (queueName, p.remaining)

def extend (p : Pass) (claimed : List TaskRecord) : Pass :=
  { p with queues := p.queues.tail, tasks := p.tasks ++ claimed }

abbrev Claimed := Except PostgresError (List TaskRecord)

inductive Runs : Pass → List Claimed → Option (Nat × List TaskRecord) → Prop
  | done {p : Pass} (ended : p.next = none) : Runs p [] (some (p.limit, p.tasks))
  | ok {p : Pass} {call : String × Nat} {claimed : List TaskRecord} {outcomes : List Claimed}
      {result : Option (Nat × List TaskRecord)} (asks : p.next = some call)
      (tail : Runs (p.extend claimed) outcomes result) : Runs p (.ok claimed :: outcomes) result
  | error {p : Pass} {call : String × Nat} {error : PostgresError} (asks : p.next = some call) :
      Runs p [.error error] none

end Pass

/-! ## Spawning -/

def TaskRecord.executable (c : WorkerConfig) (task : TaskRecord) : Except WorkerError Uuid :=
  match task.leaseToken with
  | none => .error (.missingLeaseToken task.id)
  | some token =>
    if c.capabilities.contains (task.taskName, task.handlerVersion) then .ok token
    else .error .missingHandler

def claimedIn (outcomes : List Pass.Claimed) : List TaskRecord :=
  outcomes.flatMap fun
    | .ok claimed => claimed
    | .error _ => []

variable {c : WorkerConfig} {p : Pass} {outcomes : List Pass.Claimed}
  {result : Option (Nat × List TaskRecord)}

theorem Pass.Runs.returns (h : p.Runs outcomes result) :
    ((∀ x ∈ outcomes, x.isOk = true) ∧ result = some (p.limit, p.tasks ++ claimedIn outcomes)) ∨
      (¬ (∀ x ∈ outcomes, x.isOk = true) ∧ result = none) := by
  induction h with
  | done => simp [claimedIn]
  | @ok p call claimed outcomes result asks tail ih =>
    have hcons : claimedIn (.ok claimed :: outcomes) = claimed ++ claimedIn outcomes := rfl
    rcases ih with ⟨hok, rfl⟩ | ⟨herror, rfl⟩
    · left
      refine ⟨by simpa using ⟨rfl, hok⟩, ?_⟩
      simp [hcons, Pass.extend]
    · right
      refine ⟨fun hok => herror ?_, rfl⟩
      intro x hx
      exact hok x (List.mem_cons_of_mem _ hx)
  | error =>
    right
    refine ⟨fun hok => ?_, rfl⟩
    cases hok _ List.mem_cons_self

/-- What `Store::claim` makes of an answer. `message` is the text of an error of the database. -/
def Outcome.claimed (message : String) : Outcome → Pass.Claimed
  | .returned (.tasks rows) => decodeRows rows
  | _ => .error (.database message)

def WorkerConfig.claim (c : WorkerConfig) (call : String × Nat) : Call :=
  .claim call.1 c.id (c.capabilities.map Prod.fst) (c.capabilities.map fun x => (x.2 : Int)) call.2
    c.leaseMilliseconds

end Pgtask
