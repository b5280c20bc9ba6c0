import Pgtask.Run
import Pgtask.Worker.Schedule

/-!
# Sweeps over due schedules

`Store::materialize_due_schedules`: one transaction that claims due schedules
and materializes each of them in a savepoint of its own.
-/

open Sql

namespace Pgtask

/-! ## Errors -/

/-- The SQLSTATE of an error. A query that never ends has none. -/
def SqlError.sqlstate : SqlError → Option String
  | .exception sqlstate _ => some sqlstate
  | .checkViolation _ => some "23514"
  | .uniqueViolation _ => some "23505"
  | .foreignKeyViolation _ => some "23503"
  | .integerOutOfRange => some "22003"
  | .invalidTextRepresentation => some "22P02"
  | .negativeLimit => some "2201W"
  | .stackDepthExceeded => some "54001"
  | .endlessRecursion => none

/-- A `PostgresError`, with the error of the database in `Database`. -/
inductive StoreError
  | client (error : PostgresError)
  | database (error : SqlError)
  deriving DecidableEq

def StoreError.isRejectedValue : StoreError → Bool
  | .client _ => false
  | .database error => error.sqlstate.any fun code =>
      code.toList.take 2 = ['2', '2'] || code.toList.take 2 = ['2', '3']

def isDeterministicScheduleFailure (error : StoreError) : Bool :=
  (match error with
    | .client (.schedule _) | .client (.invalidTask _) | .client (.invalidName _) => true
    | _ => false) || error.isRejectedValue

def clientResult {α : Type} (x : Except PostgresError α) : Except StoreError α := x.mapError .client

def databaseResult {α : Type} (x : Result α) : Except StoreError α := x.mapError .database

/-! ## One schedule -/

/-- What became of a schedule that was claimed, with the counts that are reported for it. -/
inductive Swept
  | materialized (count skipped : Nat)
  | deferred
  deriving DecidableEq

section Sweep

-- `refuses` is what keeps the worker's release from reading a row. `now` is what the first statement
-- of the transaction has read.
variable (calendar : Calendar) (refuses : Uuid × Schedule → Option PostgresError) (now : Timestamp)
  (e : Env)

/-- The part of `materialize_claimed_schedule` before its query. -/
def planSchedule (row : Uuid × Schedule) : Except PostgresError (ScheduleRecord × Core.Materialization) :=
  match refuses row with
  | some error => .error error
  | none => do
    let schedule ← ScheduleRecord.tryFrom calendar row
    let m ← orSchedule (schedule.config.definition.materialize calendar schedule.nextRunAt now
      schedule.config.misfirePolicy)
    .ok (schedule, m)

def materializeClaimed (row : Uuid × Schedule) (s : Session) : Except StoreError ((Nat × Nat) × Session) := do
  let (schedule, m) ← clientResult (planSchedule calendar refuses now row)
  let (count, s) ← databaseResult (materializeSchedule e schedule.config.id schedule.nextRunAt
    m.occurrences m.nextRunAt s)
  .ok ((count, m.skipped), s)

def deferClaimed (row : Uuid × Schedule) (s : Session) : Except StoreError Session := do
  let retryAt ← clientResult (orSchedule (Core.checkedAdd calendar now scheduleFailureRetryDelay))
  let (_, s) ← databaseResult (materializeSchedule e row.1 row.2.nextRunAt [] retryAt s)
  .ok s

/-- One round of the loop. A failure goes back to the savepoint. -/
def sweepRow (row : Uuid × Schedule) (s : Session) : Except StoreError (Swept × Session) :=
  match materializeClaimed calendar refuses now e row s with
  | .ok ((count, skipped), s) => .ok (.materialized count skipped, s)
  | .error error =>
    if isDeterministicScheduleFailure error then do
      let s ← deferClaimed calendar now e row s
      .ok (.deferred, s)
    else .error error

/-! ## The sweep -/

def checkedTotal (total : Nat) : Swept → Except StoreError Nat
  | .materialized count _ =>
    if 18446744073709551615 < total + count then
      .error (.client (.invalidTask "materialized task count overflowed"))
    else .ok (total + count)
  | .deferred => .ok total

def sweepRows : List (Uuid × Schedule) → Nat → Session →
    Except StoreError ((Nat × List (Uuid × Swept)) × Session)
  | [], total, s => .ok ((total, []), s)
  | row :: rows, total, s => do
    let (swept, s) ← sweepRow calendar refuses now e row s
    let total ← checkedTotal total swept
    let ((total, log), s) ← sweepRows rows total s
    .ok ((total, (row.1, swept) :: log), s)

/-- The transaction. Its result is what it returns and reports. The environment has the
`statement_timestamp()` of the claim. -/
def materializeDueSchedules (limit : Nat) (s : Session) :
    Except StoreError ((Nat × List (Uuid × Swept)) × Session) :=
  if limit = 0 then .error (.client .invalidScheduleLimit)
  else do
    let rows ← databaseResult (claimDueSchedules e limit s.db)
    sweepRows calendar refuses now e rows 0 s

end Sweep

/-- `Store::materialize_due_schedules`: an error rolls the transaction back. -/
def sweep (server : Server) (calendar : Calendar) (refuses : Uuid × Schedule → Option PostgresError)
    (now claimedAt : Timestamp) (limit : Nat) (w : World) :
    Except StoreError (Nat × List (Uuid × Swept)) × World :=
  match materializeDueSchedules calendar refuses now (server.envAt claimedAt) limit w.session with
  | .ok (result, s) => (.ok result, ⟨s.db, s.drawn⟩)
  | .error error => (.error error, w)

/-- A release that reads every row plans what `materialize_claimed_schedule` calls. -/
theorem planSchedule_eq_call (calendar : Calendar) (row : Uuid × Schedule) (now : Timestamp) :
    materializeClaimedSchedule calendar row now =
      (planSchedule calendar (fun _ => none) now row).map fun x =>
        .materializeSchedule x.1.config.id x.1.nextRunAt x.2.occurrences x.2.nextRunAt := by
  unfold materializeClaimedSchedule planSchedule
  cases ScheduleRecord.tryFrom calendar row with
  | error error => rfl
  | ok schedule =>
    cases h : orSchedule (schedule.config.definition.materialize calendar schedule.nextRunAt now
      schedule.config.misfirePolicy) <;> simp [bind, Except.bind, Except.map, h]

end Pgtask
