import Pgtask.Call
import Pgtask.Worker.Decode

/-!
# Schedules in Rust

`ScheduleDefinition` of `pgtask-core`, which computes when a schedule runs, and
the two functions of `Store` that write the cursor `next_run_at`.
-/

open Sql

namespace Pgtask

/-- What `chrono` and `cron` supply: the range of `DateTime<Utc>`, and for an expression that parses
its first occurrence after an instant. Cron has whole seconds. -/
structure Calendar where
  supported : Timestamp → Bool
  fromStr : String → Except String (Timestamp → Option Timestamp)
  later : ∀ text next t t', fromStr text = .ok next → next t = some t' → t < t'
  whole : ∀ text next t t', fromStr text = .ok next → next t = some t' → t' % 1000000 = 0

def unixTime (t : Timestamp) : Int := t / 1000000

def whitespace (c : Char) : Bool :=
  (9 ≤ c.toNat && c.toNat ≤ 13) || (8192 ≤ c.toNat && c.toNat ≤ 8202) ||
    [32, 133, 160, 5760, 8232, 8233, 8239, 8287, 12288].contains c.toNat

namespace Core

/-- Durations are in nanoseconds. -/
inductive ScheduleDefinition
  | interval (every : Nat)
  | cron (expression : String)
  deriving DecidableEq

structure NonZeroU16 where
  get : Nat
  positive : 0 < get
  fits : get ≤ 65535
  deriving DecidableEq

inductive MisfirePolicy
  | skip
  | latest
  | catchUp (limit : NonZeroU16)
  deriving DecidableEq

structure EnqueueRequest where
  taskName : String
  handlerVersion : Nat := 1
  payload : Json
  queueName : String := "default"
  priority : Int := 0
  maxAttempts : Nat := 5
  headers : List (String × Json) := []
  deriving DecidableEq

structure ScheduleConfig where
  id : Uuid
  name : String
  definition : ScheduleDefinition
  misfirePolicy : MisfirePolicy := .latest
  task : EnqueueRequest
  startAt : Option Timestamp := none
  deriving DecidableEq

structure Materialization where
  occurrences : List Timestamp
  nextRunAt : Timestamp
  skipped : Nat
  deriving DecidableEq

/-! ## Occurrences -/

def intervalMilliseconds (every : Nat) : Except ScheduleError Int :=
  if every = 0 then .error .zeroInterval
  else if every % 1000000 ≠ 0 then .error .unsupportedIntervalPrecision
  else if 9223372036854775807 < every / 1000000 then .error .intervalOutOfRange
  else .ok (every / 1000000 : Nat)

/-- `TimeDelta::from_std`, in microseconds. -/
def timeDelta (every : Nat) : Except ScheduleError Int :=
  if 9223372036854775807 * 1000000 < every then .error .intervalOutOfRange
  else .ok (every / 1000 : Nat)

def ScheduleDefinition.ofInterval (every : Nat) : Except ScheduleError ScheduleDefinition := do
  let _ ← intervalMilliseconds every
  let _ ← timeDelta every
  .ok (.interval every)

section Occurrences

variable (calendar : Calendar)

def parseCron (expression : String) : Except ScheduleError (Timestamp → Option Timestamp) :=
  if (expression.toList.splitOnP whitespace).countP (· ≠ []) ≠ 6 then .error .invalidCronFieldCount
  else match calendar.fromStr (expression ++ " *") with
    | .ok next => .ok next
    | .error message => .error (.invalidCron message)

def ScheduleDefinition.ofCron (expression : String) : Except ScheduleError ScheduleDefinition := do
  let _ ← parseCron calendar expression
  .ok (.cron expression)

def checkedAdd (t delta : Int) : Except ScheduleError Timestamp :=
  if calendar.supported (t + delta) then .ok (t + delta) else .error .dateOutOfRange

def fromUnixTime (n : Int) : Except ScheduleError Timestamp :=
  if calendar.supported (n * 1000000) then .ok (n * 1000000) else .error .dateOutOfRange

/-- `after(..).next()`, with an error for the end of the calendar. -/
def firstAfter (next : Timestamp → Option Timestamp) (t : Timestamp) : Except ScheduleError Timestamp :=
  match next t with
  | some t' => .ok t'
  | none => .error .noFutureOccurrence

namespace ScheduleDefinition

def nextAfter (d : ScheduleDefinition) (after : Timestamp) : Except ScheduleError Timestamp :=
  match d with
  | .interval every => do checkedAdd calendar after (← timeDelta every)
  | .cron expression => do firstAfter (← parseCron calendar expression) after

def dueCountLimit : Nat := 10000

def countDue (d : ScheduleDefinition) (now : Timestamp) : Nat → Timestamp → Except ScheduleError Nat
  | 0, _ => .ok 0
  | rounds + 1, occurrence =>
    if occurrence ≤ now then do
      let occurrence ← d.nextAfter calendar occurrence
      let count ← countDue d now rounds occurrence
      .ok (count + 1)
    else .ok 0

def dueCount (d : ScheduleDefinition) (firstDue now : Timestamp) : Except ScheduleError Nat :=
  match d with
  | .interval every => do
    let everyMilliseconds ← intervalMilliseconds every
    let elapsedMilliseconds := max ((now - firstDue).tdiv 1000) 0
    .ok ((elapsedMilliseconds / everyMilliseconds).toNat + 1)
  | .cron _ => d.countDue calendar now dueCountLimit firstDue

def bisect (next : Timestamp → Option Timestamp) (now : Timestamp) (low high : Int) :
    Except ScheduleError Int :=
  if low + 1 < high then do
    let middle := low + (high - low) / 2
    let t ← fromUnixTime calendar middle
    let occurrence ← firstAfter next t
    if occurrence ≤ now then bisect next now middle high else bisect next now low middle
  else .ok low
termination_by (high - low).toNat

def latestDue (d : ScheduleDefinition) (firstDue now : Timestamp) : Except ScheduleError Timestamp :=
  match d with
  | .interval every => do
    let everyMilliseconds ← intervalMilliseconds every
    let intervals := (now - firstDue).tdiv 1000 / everyMilliseconds
    checkedAdd calendar firstDue (milliseconds (intervals * everyMilliseconds))
  | .cron expression => do
    let next ← parseCron calendar expression
    let low ← bisect calendar next now (unixTime firstDue - 1) (unixTime now + 1)
    let low ← fromUnixTime calendar low
    match (next low).filter (· ≤ now) with
    | some occurrence => .ok occurrence
    | none => .error .noFutureOccurrence

/-- The loop of `materialize` for `CatchUp`, with the occurrences that its limit leaves. -/
def catchUp (d : ScheduleDefinition) (now : Timestamp) :
    Nat → Timestamp → Except ScheduleError (List Timestamp)
  | 0, _ => .ok []
  | limit + 1, occurrence =>
    if occurrence ≤ now then do
      let next ← d.nextAfter calendar occurrence
      let rest ← catchUp d now limit next
      .ok (occurrence :: rest)
    else .ok []

def dueOccurrences (d : ScheduleDefinition) (nextRunAt now : Timestamp) (policy : MisfirePolicy) :
    Except ScheduleError (List Timestamp) :=
  match policy with
  | .skip => .ok [nextRunAt]
  | .latest => do
    let occurrence ← d.latestDue calendar nextRunAt now
    .ok [occurrence]
  | .catchUp limit => d.catchUp calendar now limit.get nextRunAt

def materialize (d : ScheduleDefinition) (nextRunAt now : Timestamp) (policy : MisfirePolicy) :
    Except ScheduleError Materialization :=
  if now < nextRunAt then .ok ⟨[], nextRunAt, 0⟩
  else do
    let occurrences ← d.dueOccurrences calendar nextRunAt now policy
    let due ← d.dueCount calendar nextRunAt now
    let next ← d.nextAfter calendar now
    .ok ⟨occurrences, next, due - occurrences.length⟩

end ScheduleDefinition

end Occurrences

end Core

/-! ## Store -/

section Store

variable (calendar : Calendar)

def orSchedule {α : Type} (x : Except ScheduleError α) : Except PostgresError α :=
  x.mapError .schedule

def validateRequest (request : Core.EnqueueRequest) : Except PostgresError Unit :=
  if request.maxAttempts = 0 then .error .invalidMaxAttempts else .ok ()

def definitionColumns : Core.ScheduleDefinition →
    Except PostgresError (ScheduleKind × Option Int × Option String)
  | .interval every => do
    let _ ← orSchedule (Core.ScheduleDefinition.ofInterval every)
    let ms ← orSchedule (Core.intervalMilliseconds every)
    .ok (.interval, some ms, none)
  | .cron expression => .ok (.cron, none, some expression)

def misfireColumns : Core.MisfirePolicy → MisfirePolicy × Option Int
  | .skip => (.skip, none)
  | .latest => (.latest, none)
  | .catchUp limit => (.catchUp, some limit.get)

/-- The cursor that `Store::put_schedule` asks for when its first statement has read `now`. -/
def firstRun (config : Core.ScheduleConfig) (now : Timestamp) : Except PostgresError Timestamp := do
  let firstDue := match config.startAt with
    | some startAt => max startAt now
    | none => now
  let nextOccurrence ← orSchedule (config.definition.nextAfter calendar firstDue)
  .ok (config.startAt.getD nextOccurrence)

/-- `Store::put_schedule`, from its first statement, which has read `now`, to its second. -/
def Store.putSchedule (config : Core.ScheduleConfig) (now : Timestamp) : Except PostgresError Call := do
  validateRequest config.task
  let nextRunAt ← firstRun calendar config now
  let (kind, intervalMilliseconds, cronExpression) ← definitionColumns config.definition
  let (misfirePolicy, catchUpLimit) := misfireColumns config.misfirePolicy
  if 2147483647 < config.task.handlerVersion then .error .invalidHandlerVersion
  else
    .ok (.putSchedule config.id config.name
      { kind, intervalMilliseconds, cronExpression, misfirePolicy, catchUpLimit,
        queueName := config.task.queueName, taskName := config.task.taskName,
        handlerVersion := config.task.handlerVersion, payload := config.task.payload,
        headers := .obj config.task.headers, priority := config.task.priority,
        maxAttempts := config.task.maxAttempts } nextRunAt)

def decodeDefinition (d : ScheduleDefinition) : Except PostgresError Core.ScheduleDefinition :=
  match d.kind, d.intervalMilliseconds, d.cronExpression with
  | .interval, some ms, none => do
    let ms ← toUnsigned ms
    orSchedule (Core.ScheduleDefinition.ofInterval (ms * 1000000))
  | .cron, none, some expression => orSchedule (Core.ScheduleDefinition.ofCron calendar expression)
  | _, _, _ => .error (.invalidTask "invalid schedule definition")

def nonZeroU16 (n : Int) : Except PostgresError Core.NonZeroU16 :=
  if h : n < 0 ∨ 65535 < n then .error invalidNumber
  else if h₀ : n.toNat = 0 then .error (.invalidTask "catch-up limit is zero")
  else .ok ⟨n.toNat, Nat.pos_of_ne_zero h₀, by omega⟩

def decodeMisfirePolicy (d : ScheduleDefinition) : Except PostgresError Core.MisfirePolicy :=
  match d.misfirePolicy, d.catchUpLimit with
  | .skip, none => .ok .skip
  | .latest, none => .ok .latest
  | .catchUp, some limit => do .ok (.catchUp (← nonZeroU16 limit))
  | _, _ => .error (.invalidTask "invalid schedule misfire policy")

def decodeScheduleHeaders : Json → Except PostgresError (List (String × Json))
  | .obj fields => .ok fields
  | _ => .error (.invalidTask "schedule headers are not an object")

/-- `Schedule` of `pgtask-core`, without the columns that are only shown. -/
structure ScheduleRecord where
  config : Core.ScheduleConfig
  nextRunAt : Timestamp
  deriving DecidableEq

def ScheduleRecord.tryFrom (row : Uuid × Schedule) : Except PostgresError ScheduleRecord := do
  let (id, c) := row
  let d := c.definition
  let definition ← decodeDefinition calendar d
  let misfirePolicy ← decodeMisfirePolicy d
  let headers ← decodeScheduleHeaders d.headers
  let taskName ← decodeName "task name" 255 d.taskName
  let handlerVersion ← decodeHandlerVersion d.handlerVersion
  let queueName ← decodeName "queue name" 128 d.queueName
  let maxAttempts ← toU16 d.maxAttempts
  let name ← decodeName "schedule name" 255 c.name
  let task : Core.EnqueueRequest :=
    { taskName, handlerVersion, payload := d.payload, queueName, priority := d.priority, maxAttempts,
      headers }
  .ok ⟨{ id, name, definition, misfirePolicy, task }, c.nextRunAt⟩

/-- The call that `materialize_claimed_schedule` makes for a row that was claimed. `now` is what the
first statement of the transaction has read. -/
def materializeClaimedSchedule (row : Uuid × Schedule) (now : Timestamp) : Except PostgresError Call := do
  let schedule ← ScheduleRecord.tryFrom calendar row
  let m ← orSchedule (schedule.config.definition.materialize calendar schedule.nextRunAt now
    schedule.config.misfirePolicy)
  .ok (.materializeSchedule schedule.config.id schedule.nextRunAt m.occurrences m.nextRunAt)

def scheduleFailureRetryDelay : Int := seconds 60

def deferSchedule (row : Uuid × Schedule) (now : Timestamp) : Except PostgresError Call := do
  let retryAt ← orSchedule (Core.checkedAdd calendar now scheduleFailureRetryDelay)
  .ok (.materializeSchedule row.1 row.2.nextRunAt [] retryAt)

end Store

end Pgtask
