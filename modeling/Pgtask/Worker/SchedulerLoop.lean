import Pgtask.Worker.Scheduler
import Pgtask.Lib.Machine

/-!
# The scheduler loop

`materialize_schedules` of the worker: a sweep, the two timeout sweeps, and a
sleep until the next deadline that the database knows.
-/

open Sql

namespace Pgtask

/-! ## Deadlines -/

/-- `GREATEST(0, ceil(...))` of the time to the first deadline. There is no row without a deadline. -/
def delayMilliseconds (now : Timestamp) (deadlines : List Timestamp) : Option Nat :=
  deadlines.min?.map fun deadline => ((deadline - now + 999) / 1000).toNat

def scheduleDeadlines (db : Database) : List Timestamp :=
  (db.schedules.select fun _ c => c.pausedAt.isNone).map fun x => x.2.nextRunAt

def nextScheduleDelayMilliseconds (now : Timestamp) (db : Database) : Option Nat :=
  delayMilliseconds now (scheduleDeadlines db)

def waitDeadlines (db : Database) : List Timestamp :=
  (db.waits.select fun _ w => w.resolvedAt.isNone).filterMap (fun x => x.2.timeoutAt) ++
    (db.resultWaits.select fun _ w => w.resolvedAt.isNone).filterMap fun x => x.2.timeoutAt

def nextWaitDelayMilliseconds (now : Timestamp) (db : Database) : Option Nat :=
  delayMilliseconds now (waitDeadlines db)

/-! ## The loop -/

namespace SchedulerLoop

/-- What `Worker::new` accepts. Durations are in nanoseconds. -/
structure Config where
  enabled : Bool
  scheduleBatchSize : Core.NonZeroU16
  waitBatchSize : Core.NonZeroU16
  reconciliationInterval : Nat
  positive : 0 < reconciliationInterval

inductive Query
  | materializeDueSchedules
  | recoverWaitTimeouts
  | recoverResultWaitTimeouts
  | nextScheduleDelay
  | nextWaitDelay
  deriving DecidableEq

/-- The connection is lost before or after the database has run a query. -/
inductive Fault
  | unsent
  | unanswered
  deriving DecidableEq

/-- What happens around a query: the calls of other clients before it, its instant, and a fault. -/
structure Surroundings where
  others : List Request := []
  now : Timestamp
  fault : Option Fault := none

structure Round where
  refuses : Uuid × Schedule → Option PostgresError := fun _ => none
  around : Query → Surroundings

structure Answer where
  before : World
  after : World
  failed : Bool

structure State where
  world : World
  errorBackoff : Option Nat := none

section Loop

variable (server : Server) (calendar : Calendar) (config : Config)

def skipped (w : World) : Answer := ⟨w, w, false⟩

def attempt (around : Surroundings) (query : Timestamp → World → Bool × World) (w : World) : Answer :=
  let before := runFrom server w around.others
  match around.fault with
  | none => ⟨before, (query around.now before).2, (query around.now before).1⟩
  | some .unsent => ⟨before, before, true⟩
  | some .unanswered => ⟨before, (query around.now before).2, true⟩

/-- Both statements of the sweep read one instant. -/
def materialize (refuses : Uuid × Schedule → Option PostgresError) (now : Timestamp) (w : World) :
    Bool × World :=
  let (result, w) := sweep server calendar refuses now now config.scheduleBatchSize.get w
  (result.toOption.isNone, w)

def recover (call : Call) (now : Timestamp) (w : World) : Bool × World :=
  match step server w ⟨now, call⟩ with
  | (.returned _, w) => (false, w)
  | (.raised _, w) => (true, w)

def read (_ : Timestamp) (w : World) : Bool × World := (false, w)

structure Queries where
  materialized : Answer
  waits : Answer
  resultWaits : Answer
  scheduleDelay : Answer
  waitDelay : Answer

def queries (round : Round) (w : World) : Queries :=
  let materialized :=
    if config.enabled then
      attempt server (round.around .materializeDueSchedules) (materialize server calendar config round.refuses) w
    else skipped w
  let waits := attempt server (round.around .recoverWaitTimeouts)
    (recover server (.recoverWaitTimeouts config.waitBatchSize.get)) materialized.after
  let resultWaits := attempt server (round.around .recoverResultWaitTimeouts)
    (recover server (.recoverResultWaitTimeouts config.waitBatchSize.get)) waits.after
  let scheduleDelay :=
    if config.enabled then attempt server (round.around .nextScheduleDelay) read resultWaits.after
    else skipped resultWaits.after
  let waitDelay := attempt server (round.around .nextWaitDelay) read scheduleDelay.after
  { materialized, waits, resultWaits, scheduleDelay, waitDelay }

def Queries.failed (q : Queries) : Bool :=
  q.materialized.failed || q.waits.failed || q.resultWaits.failed || q.scheduleDelay.failed ||
    q.waitDelay.failed

def shorten (delay : Nat) (failed : Bool) (milliseconds : Option Nat) : Nat :=
  if failed then delay else match milliseconds with
    | some ms => min delay (ms * 1000000)
    | none => delay

def Queries.delay (q : Queries) (round : Round) : Nat :=
  let delay := config.reconciliationInterval
  let delay :=
    if config.enabled then
      shorten delay q.scheduleDelay.failed
        (nextScheduleDelayMilliseconds (round.around .nextScheduleDelay).now q.scheduleDelay.before.db)
    else delay
  shorten delay q.waitDelay.failed
    (nextWaitDelayMilliseconds (round.around .nextWaitDelay).now q.waitDelay.before.db)

def scheduleErrorBackoffStart : Nat := 100000000

def scheduleErrorBackoff (previous : Option Nat) (failed : Bool) (cap : Nat) : Option Nat :=
  if failed then
    some (min (match previous with
      | some backoff => backoff * 2
      | none => scheduleErrorBackoffStart) cap)
  else none

def State.backoff (s : State) (round : Round) : Option Nat :=
  scheduleErrorBackoff s.errorBackoff (queries server calendar config round s.world).failed
    config.reconciliationInterval

def State.sleep (s : State) (round : Round) : Nat :=
  let delay := (queries server calendar config round s.world).delay config round
  match s.backoff server calendar config round with
  | some backoff => max delay backoff
  | none => delay

def State.next (s : State) (round : Round) : Option State :=
  some ⟨(queries server calendar config round s.world).waitDelay.after, s.backoff server calendar config round⟩

end Loop

end SchedulerLoop

end Pgtask
