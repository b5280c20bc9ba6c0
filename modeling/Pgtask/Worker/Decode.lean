import Pgtask.Lib.Checked
import Pgtask.Session

/-!
# Task rows in Rust

`Task::try_from` of `pgtask-postgres` reads a row of `tasks` into the types of
`pgtask-core`. A column that its Rust type cannot hold is an error.
-/

open Sql Checked

namespace Pgtask

/-! ## Errors -/

inductive NameError
  | empty (kind : String)
  | tooLong (kind : String) (maximum actual : Nat)
  | unsupportedCharacter (kind : String) (character : Char)
  deriving DecidableEq

inductive ScheduleError
  | zeroInterval
  | unsupportedIntervalPrecision
  | intervalOutOfRange
  | invalidCronFieldCount
  | invalidCron (message : String)
  | noFutureOccurrence
  | dateOutOfRange
  deriving DecidableEq

inductive PostgresError
  | database (message : String)
  | invalidTask (message : String)
  /-- `InvalidTask` with the message of a name. -/
  | invalidName (error : NameError)
  | invalidMaxAttempts
  | invalidClaimLimit
  | invalidLeaseDuration
  | missingCapabilities
  | missingQueues
  | invalidHandlerVersion
  | invalidScheduleLimit
  | invalidSleepDuration
  | invalidWaitLimit
  | invalidRetryPolicy
  | notification (error : String)
  | notificationReconnected
  | schedule (error : ScheduleError)
  deriving DecidableEq

def NameError.text : NameError → String
  | .empty kind => s!"{kind} must not be empty"
  | .tooLong kind maximum actual => s!"{kind} must be at most {maximum} bytes, got {actual}"
  | .unsupportedCharacter kind character =>
    s!"{kind} contains unsupported character " ++ character.quote

def ScheduleError.text : ScheduleError → String
  | .zeroInterval => "interval must be greater than zero"
  | .unsupportedIntervalPrecision => "interval must use whole-millisecond precision"
  | .intervalOutOfRange => "interval exceeds the supported date range"
  | .invalidCronFieldCount =>
    "cron expression must contain exactly six fields: second minute hour day-of-month month day-of-week"
  | .invalidCron message => "invalid cron expression: " ++ message
  | .noFutureOccurrence => "schedule has no future occurrence"
  | .dateOutOfRange => "schedule date exceeds the supported range"

def PostgresError.text : PostgresError → String
  | .database message => "database operation failed: " ++ message
  | .invalidTask message => "invalid task data returned by Postgres: " ++ message
  | .invalidName error => "invalid task data returned by Postgres: " ++ error.text
  | .invalidMaxAttempts => "max_attempts must be greater than zero"
  | .invalidClaimLimit => "claim limit must be greater than zero"
  | .invalidLeaseDuration => "lease duration must be greater than zero"
  | .missingCapabilities => "at least one handler capability is required"
  | .missingQueues => "at least one queue is required"
  | .invalidHandlerVersion => "handler version exceeds the Postgres integer range"
  | .invalidScheduleLimit => "schedule claim limit must be greater than zero"
  | .invalidSleepDuration => "sleep duration exceeds the PostgreSQL bigint range"
  | .invalidWaitLimit => "wait recovery limit must be greater than zero"
  | .invalidRetryPolicy => "retry policy values exceed the PostgreSQL integer range"
  | .notification error => "notification listener failed: " ++ error
  | .notificationReconnected =>
    "notification listener lost its connection and reconnected; notifications sent meanwhile were missed"
  | .schedule error => error.text

def invalidNumber : PostgresError := .invalidTask "out of range integral type conversion attempted"

/-! ## Columns -/

def validateName (value kind : String) (maximum : Nat) : Except NameError Unit :=
  if value = "" then .error (.empty kind)
  else if maximum < value.utf8ByteSize then .error (.tooLong kind maximum value.utf8ByteSize)
  else match value.toList.find? fun c => !nameChar c with
    | some c => .error (.unsupportedCharacter kind c)
    | none => .ok ()

def decodeName (kind : String) (maximum : Nat) (value : String) : Except PostgresError String :=
  match validateName value kind maximum with
  | .ok () => .ok value
  | .error error => .error (.invalidName error)

/-- `u32::try_from` of an `i32` and `u64::try_from` of an `i64`: only the sign can be wrong. -/
def toUnsigned (n : Int) : Except PostgresError Nat :=
  if n < 0 then .error invalidNumber else .ok n.toNat

def toU16 (n : Int) : Except PostgresError Nat :=
  if n < 0 ∨ 65535 < n then .error invalidNumber else .ok n.toNat

def decodeHeaders : Json → Except PostgresError (List (String × Json))
  | .obj fields => .ok fields
  | _ => .error (.invalidTask "headers are not an object")

def decodeHandlerVersion (n : Int) : Except PostgresError Nat := do
  let version ← toUnsigned n
  if version = 0 then .error (.invalidTask "handler version is zero") else .ok version

/-- `RetryPolicy`, its durations in milliseconds. -/
inductive RetryPolicy
  | never
  | fixed (delay : Nat)
  | exponential (baseDelay factor maxDelay : Nat)
  deriving DecidableEq

def parseRetryPolicy (r : RetryColumns) : Except PostgresError (Option RetryPolicy) :=
  match r.kind, r.baseDelayMilliseconds, r.factor, r.maxDelayMilliseconds with
  | none, none, none, none => .ok none
  | some .never, none, none, none => .ok (some .never)
  | some .fixed, some delay, none, none => do
    let delay ← toUnsigned delay
    .ok (some (.fixed delay))
  | some .exponential, some baseDelay, some factor, some maxDelay => do
    let baseDelay ← toUnsigned baseDelay
    let factor ← toUnsigned factor
    let maxDelay ← toUnsigned maxDelay
    .ok (some (.exponential baseDelay factor maxDelay))
  | _, _, _, _ => .error (.invalidTask "invalid retry policy")

/-! ## Rows -/

structure TaskRecord where
  id : Uuid
  parentTaskId : Option Uuid
  queueName : String
  taskName : String
  handlerVersion : Nat
  payload : Json
  headers : List (String × Json)
  state : TaskState
  priority : Int
  runAt : Timestamp
  attempt : Nat
  failedAttempts : Nat
  maxAttempts : Nat
  retryPolicy : Option RetryPolicy
  leaseToken : Option Uuid
  leaseOwner : Option Uuid
  leaseExpiresAt : Option Timestamp
  completedAt : Option Timestamp
  result : Option Json
  error : Option Json
  deriving DecidableEq

/-- `Task::try_from`. The query has put `attempt` in the place of a NULL `failed_attempts`. -/
def TaskRecord.tryFrom (row : Uuid × Task) : Except PostgresError TaskRecord := do
  let (id, t) := row
  let headers ← decodeHeaders t.headers
  let queueName ← decodeName "queue name" 128 t.queueName
  let taskName ← decodeName "task name" 255 t.taskName
  let handlerVersion ← decodeHandlerVersion t.handlerVersion
  let attempt ← toU16 t.attempt
  let failedAttempts ← toU16 (t.failedAttempts.getD t.attempt)
  let maxAttempts ← toU16 t.maxAttempts
  let retryPolicy ← parseRetryPolicy t.retry
  .ok { id, parentTaskId := t.parentTaskId, queueName, taskName, handlerVersion,
        payload := t.payload, headers, state := t.state, priority := t.priority, runAt := t.runAt,
        attempt, failedAttempts, maxAttempts, retryPolicy, leaseToken := t.leaseToken,
        leaseOwner := t.leaseOwner, leaseExpiresAt := t.leaseExpiresAt,
        completedAt := t.completedAt, result := t.result, error := t.error }

/-- The end of `Store::claim`: one row that does not decode discards all of them. -/
def decodeRows (rows : List (Uuid × Task)) : Except PostgresError (List TaskRecord) :=
  rows.mapM TaskRecord.tryFrom

/-! ## What decodes -/

theorem validateName_ok {value kind : String} {maximum : Nat} :
    validateName value kind maximum = .ok () ↔ validName maximum value = true := by
  unfold validateName validName
  split
  · simp [*]
  · split
    · rename_i hlong
      simp [Nat.not_le.mpr hlong]
    · rename_i hempty hlong
      have hshort : value.utf8ByteSize ≤ maximum := by omega
      cases hfind : value.toList.find? fun c => !nameChar c with
      | some c =>
        have hc := List.find?_some hfind
        have hmem := List.mem_of_find?_eq_some hfind
        have hbad : value.toList.all nameChar = false := by
          rw [List.all_eq_false]
          exact ⟨c, hmem, by simpa using hc⟩
        simp [hempty, hshort, hbad]
      | none =>
        have hall : value.toList.all nameChar = true := by
          rw [List.all_eq_true]
          intro c hc
          simpa using List.find?_eq_none.mp hfind c hc
        simp [hempty, hshort, hall]

theorem toUnsigned_ok {n : Int} {m : Nat} : toUnsigned n = .ok m ↔ n = m := by
  unfold toUnsigned
  split <;> simp <;> omega

theorem toU16_ok {n : Int} {m : Nat} : toU16 n = .ok m ↔ n = m ∧ m ≤ 65535 := by
  unfold toU16
  split <;> simp <;> omega

theorem decodeHandlerVersion_ok {n : Int} {m : Nat} :
    decodeHandlerVersion n = .ok m ↔ n = m ∧ 0 < n := by
  unfold decodeHandlerVersion
  rw [bind_eq_ok]
  constructor
  · rintro ⟨version, hversion, h⟩
    rw [toUnsigned_ok] at hversion
    split at h
    · cases h
    · cases h
      omega
  · rintro ⟨hn, hpos⟩
    refine ⟨m, toUnsigned_ok.mpr hn, ?_⟩
    rw [if_neg (by omega)]

theorem TaskRecord.tryFrom_ok {row : Uuid × Task} {task : TaskRecord}
    (h : TaskRecord.tryFrom row = .ok task) :
    task.id = row.1 ∧ row.2.handlerVersion = task.handlerVersion ∧ task.attempt = row.2.attempt ∧
      task.leaseToken = row.2.leaseToken := by
  obtain ⟨id, t⟩ := row
  simp only [TaskRecord.tryFrom, bind_eq_ok] at h
  obtain ⟨_, -, _, -, _, -, version, hversion, attempt, hattempt, _, -, _, -, _, -, h⟩ := h
  cases h
  rw [decodeHandlerVersion_ok] at hversion
  rw [toU16_ok] at hattempt
  refine ⟨rfl, hversion.1, ?_, rfl⟩
  show attempt = t.attempt
  omega

end Pgtask
