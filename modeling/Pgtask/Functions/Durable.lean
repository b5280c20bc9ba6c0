import Pgtask.Functions.Worker

/-!
# Durable execution

Checkpoints, sleeps, spawned children, signals and the two kinds of wait.
-/

open Sql

namespace Pgtask

/-! ## Checkpoints -/

def commitCheckpoint (id : Uuid) (attempt : Nat) (leaseToken : Uuid) (stepName : String)
    (occurrence : Int) (value : Json) (s : Session) : Result (Option Json × Session) :=
  match fenced s.db id attempt leaseToken with
  | none => .ok (none, s)
  | some t => do
    let (stored, s) ← saveCheckpoint ⟨id, t.handlerVersion, stepName, occurrence⟩ value s
    .ok (some stored, s)

def getCheckpoint (db : Database) (k : StepKey) : Option Json := db.checkpoints.get? k

def suspendAttempt (e : Env) (id : Uuid) (attempt : Nat) (s : Session) : Result Session :=
  updateAttempt (id, attempt) (fun a => { a with state := .suspended, finishedAt := some e.now }) s

/-! ## Sleep -/

/-- The two argument checks of `suspend_task`, and the wake time they leave. -/
def wakeTime (e : Env) (wakeAt : Option Timestamp) (delayMilliseconds : Option Int) :
    Result Timestamp :=
  match wakeAt, delayMilliseconds with
  | none, none => .error (invalidParameter "provide exactly one wake time or delay")
  | some _, some _ => .error (invalidParameter "provide exactly one wake time or delay")
  | some time, none => .ok time
  | none, some ms =>
    if ms < 0 then .error (invalidParameter "sleep delay must not be negative")
    else .ok (e.now + milliseconds ms)

def sleepCheckpoint (e : Env) (wakeAt : Timestamp) : Json :=
  .obj [("wake_at", .str (e.timestampText wakeAt))]

/-- The second checkpoint writer: `ON CONFLICT DO NOTHING`. A step that already has a
checkpoint is reported like a lost lease, and the task keeps running. -/
def suspendTask (e : Env) (id : Uuid) (attempt : Nat) (leaseToken : Uuid) (stepName : String)
    (occurrence : Int) (wakeAt : Option Timestamp) (delayMilliseconds : Option Int) (s : Session) :
    Result (Option Timestamp × Session) := do
  let wakeAt ← wakeTime e wakeAt delayMilliseconds
  match fenced s.db id attempt leaseToken with
  | none => .ok (none, s)
  | some t =>
    let k : StepKey := ⟨id, t.handlerVersion, stepName, occurrence⟩
    let value := sleepCheckpoint e wakeAt
    require (checkpointChecks k value)
    if (s.db.checkpoints.get? k).isSome then .ok (none, s)
    else
      let s := { s with db := { s.db with checkpoints := s.db.checkpoints.put k value } }
      let s ← updateTask id t (t.yielded wakeAt) s
      let s ← suspendAttempt e id attempt s
      .ok (some wakeAt, s)

/-! ## Spawn -/

/-- `UPDATE tasks SET parent_task_id = ... WHERE id = ... AND parent_task_id IS NULL`. -/
def adopt (child parent : Uuid) (s : Session) : Result Session :=
  match s.db.tasks.get? child with
  | some t =>
    if t.parentTaskId.isNone then updateTaskColumns child { t with parentTaskId := some parent } s
    else .ok s
  | none => .ok s

def adoptOrRaise (child parent : Uuid) (message : String) (s : Session) : Result Session := do
  let s ← adopt child parent s
  if (s.db.tasks.get? child).bind Task.parentTaskId = some parent then .ok s
  else .error (.exception "23514" message)

def foreignCheckpoint : String := "spawn checkpoint does not reference a child of this task"

/-- `spawn_task` on a step that has a checkpoint. The child is whatever task the stored value
names; nothing walks the ancestors here. -/
def replaySpawn (parent : Uuid) (checkpoint : Json) (s : Session) :
    Result (Option (Uuid × Bool) × Session) :=
  match checkpoint.fieldText "task_id" with
  | none => .error (.exception "23514" foreignCheckpoint)
  | some text => match Uuid.ofText? text with
    | none => .error .invalidTextRepresentation
    | some child => do
      let s ← adoptOrRaise child parent foreignCheckpoint s
      .ok (some (child, false), s)

def spawnKey (k : StepKey) : String :=
  s!"pgtask:spawn:{k.taskId.text}:{k.handlerVersion}:{k.stepName}:{k.occurrence}"

/-- Raises if `child` is the parent itself or one of its ancestors. -/
def rejectCycle (db : Database) (child parent : Uuid) : Result Unit :=
  match Forest.search (parentOf db) child (walkBound db) parent with
  | none => .error .endlessRecursion
  | some true => .error (.exception "23514" "spawning this task would create an ownership cycle")
  | some false => .ok ()

def insertCheckpoint (k : StepKey) (value : Json) (s : Session) : Result Session := do
  require (checkpointChecks k value)
  if (s.db.checkpoints.get? k).isSome then .error (.uniqueViolation "checkpoints_pkey")
  else .ok { s with db := { s.db with checkpoints := s.db.checkpoints.put k value } }

def freshSpawn (e : Env) (k : StepKey) (request : EnqueueRequest) (s : Session) :
    Result (Option (Uuid × Bool) × Session) := do
  let ((child, created), s) ← enqueue e { request with idempotencyKey := some (spawnKey k) } s
  rejectCycle s.db child k.taskId
  let s ← adoptOrRaise child k.taskId "spawned task already belongs to another parent" s
  let s ← insertCheckpoint k (.obj [("task_id", .str child.text)]) s
  .ok (some (child, created), s)

def spawnTask (e : Env) (id : Uuid) (attempt : Nat) (leaseToken : Uuid) (stepName : String)
    (occurrence : Int) (request : EnqueueRequest) (s : Session) :
    Result (Option (Uuid × Bool) × Session) :=
  match fenced s.db id attempt leaseToken with
  | none => .ok (none, s)
  | some t =>
    let k : StepKey := ⟨id, t.handlerVersion, stepName, occurrence⟩
    match s.db.checkpoints.get? k with
    | some checkpoint => replaySpawn id checkpoint s
    | none => freshSpawn e k request s

/-! ## Signals -/

def signalCheckpoint (value : Json) : Json := .obj [("value", value), ("outcome", .str "signal")]

def resolveWait (e : Env) (value : Json) (outcome : WaitOutcome) (s : Session)
    (row : StepKey × Wait) : Result Session := do
  let (k, w) := row
  let (_, s) ← saveCheckpoint k value s
  let s ← wake e k.taskId s
  let w := { w with resolvedAt := some e.now, outcome := some outcome }
  .ok { s with db := { s.db with waits := s.db.waits.put k w } }

/-- The first statement of `emit_signal`: the first value of a signal stays. -/
def saveSignal (k : SignalKey) (value : Json) (s : Session) : Result (Json × Session) := do
  require (signalChecks k value)
  match s.db.signals.get? k with
  | some stored => .ok (stored, s)
  | none =>
    if (s.db.tasks.get? k.taskId).isNone then
      .error (.foreignKeyViolation "signals_task_id_fkey")
    else .ok (value, { s with db := { s.db with signals := s.db.signals.put k value } })

def emitSignal (e : Env) (k : SignalKey) (value : Json) (s : Session) : Result (Json × Session) := do
  let (stored, s) ← saveSignal k value s
  let matching := s.db.waits.select fun j w =>
    j.taskId = k.taskId && w.signalName = k.signalName && w.signalOccurrence = k.occurrence &&
      w.resolvedAt.isNone
  let s ← matching.foldlM (resolveWait e (signalCheckpoint stored) .signal) s
  .ok (stored, s)

/-! ## Waits -/

inductive WaitReply
  | ready (checkpoint : Json)
  | waiting
  deriving DecidableEq

def Task.parked (t : Task) : Task :=
  { t with state := .waiting, leaseToken := none, leaseOwner := none, leaseExpiresAt := none }

def park (e : Env) (id : Uuid) (t : Task) (s : Session) : Result (Option WaitReply × Session) := do
  let s ← updateTask id t t.parked s
  let s ← suspendAttempt e id t.attempt s
  .ok (some .waiting, s)

def answerReady (k : StepKey) (value : Json) (s : Session) : Result (Option WaitReply × Session) := do
  let (stored, s) ← saveCheckpoint k value s
  .ok (some (.ready stored), s)

/-- Inserts or re-arms a signal wait. `waits_active_task_idx` allows one open wait a task. -/
def armWait (k : StepKey) (w : Wait) (s : Session) : Result Session := do
  require (w.checks k)
  if s.db.waits.rows.any fun x => x.1 ≠ k && x.1.taskId = k.taskId && x.2.resolvedAt.isNone then
    .error (.uniqueViolation "waits_active_task_idx")
  else .ok { s with db := { s.db with waits := s.db.waits.put k w } }

def waitForSignal (e : Env) (id : Uuid) (attempt : Nat) (leaseToken : Uuid) (stepName : String)
    (occurrence : Int) (signalName : String) (signalOccurrence : Int)
    (timeoutMilliseconds : Option Int) (s : Session) : Result (Option WaitReply × Session) := do
  if timeoutMilliseconds.any (· < 0) then
    .error (invalidParameter "signal timeout must not be negative")
  else match fenced s.db id attempt leaseToken with
    | none => .ok (none, s)
    | some t =>
      let k : StepKey := ⟨id, t.handlerVersion, stepName, occurrence⟩
      match s.db.checkpoints.get? k with
      | some checkpoint => .ok (some (.ready checkpoint), s)
      | none => match s.db.signals.get? ⟨id, signalName, signalOccurrence⟩ with
        | some value => answerReady k (signalCheckpoint value) s
        | none => do
          let w : Wait :=
            { signalName, signalOccurrence
              timeoutAt := timeoutMilliseconds.map fun ms => e.now + milliseconds ms }
          let s ← armWait k w s
          park e id t s

def armResultWait (k : StepKey) (w : ResultWait) (s : Session) : Result Session := do
  require (w.checks k)
  if s.db.resultWaits.rows.any fun x => x.1 ≠ k && x.1.taskId = k.taskId && x.2.resolvedAt.isNone
  then .error (.uniqueViolation "result_waits_active_task_idx")
  else .ok { s with db := { s.db with resultWaits := s.db.resultWaits.put k w } }

def waitForResult (e : Env) (id : Uuid) (attempt : Nat) (leaseToken : Uuid) (stepName : String)
    (occurrence : Int) (resultTaskId : Uuid) (timeoutMilliseconds : Option Int) (s : Session) :
    Result (Option WaitReply × Session) := do
  if id = resultTaskId then
    .error (invalidParameter "a task cannot wait for its own result")
  else if timeoutMilliseconds.any (· ≤ 0) then
    .error (invalidParameter "result wait timeout must be positive")
  else match fenced s.db id attempt leaseToken with
    | none => .ok (none, s)
    | some t =>
      let k : StepKey := ⟨id, t.handlerVersion, stepName, occurrence⟩
      match s.db.checkpoints.get? k with
      | some checkpoint => .ok (some (.ready checkpoint), s)
      | none =>
        match (s.db.tasks.get? resultTaskId).filter fun c => c.parentTaskId = some id with
        | none => .error (invalidParameter "result task is not a direct child of this task")
        | some c =>
          if c.state.terminal then
            answerReady k (resultCheckpoint c.state.text c.result c.error) s
          else do
            let w : ResultWait :=
              { resultTaskId
                timeoutAt := timeoutMilliseconds.map fun ms => e.now + milliseconds ms }
            let s ← armResultWait k w s
            park e id t s

/-! ## Timeouts -/

def due (now : Timestamp) (timeoutAt resolvedAt : Option Timestamp) : Bool :=
  resolvedAt.isNone && timeoutAt.any (· ≤ now)

def byTimeout (x y : Option Timestamp × Uuid) : Bool :=
  lexLe (· ≤ ·) (· ≤ ·) (x.1.getD 0, x.2) (y.1.getD 0, y.2)

def recoverWaitTimeouts (e : Env) (count : Int) (s : Session) : Result (Nat × Session) := do
  let n ← limit count
  let rows := ((s.db.waits.select fun _ w => due e.now w.timeoutAt w.resolvedAt).insertionSort
    fun x y => byTimeout (x.2.timeoutAt, x.1.taskId) (y.2.timeoutAt, y.1.taskId)).take n
  let s ← rows.foldlM (resolveWait e (.obj [("outcome", .str "timeout")]) .timeout) s
  .ok ((rows.map fun x => x.1.taskId).dedup.length, s)

def timeoutError (parent : Uuid) : Json :=
  .obj [("type", .str "result_wait_timeout"), ("parent_task_id", .str parent.text)]

def cancelUnfinished (e : Env) (id : Uuid) (error : Json) (s : Session) : Result Session :=
  match (s.db.tasks.get? id).filter fun t => t.state.outstanding with
  | none => .ok s
  | some t => do
    let s ← cancelRow e error s (id, t)
    fireTriggers e s

/-- One round of the loop in `recover_result_wait_timeouts`. The row was fetched before the
loop, so an earlier round may have resolved it. -/
def timeOutResultWait (e : Env) (s : Session) (row : StepKey × ResultWait) : Result Session := do
  let s ← resolveResultWait e (resultCheckpoint "timeout" none none) .timeout s row
  cancelUnfinished e row.2.resultTaskId (timeoutError row.1.taskId) s

def recoverResultWaitTimeouts (e : Env) (count : Int) (s : Session) : Result (Nat × Session) := do
  let n ← limit count
  let rows := ((s.db.resultWaits.select fun _ w => due e.now w.timeoutAt w.resolvedAt).insertionSort
    fun x y => byTimeout (x.2.timeoutAt, x.1.taskId) (y.2.timeoutAt, y.1.taskId)).take n
  let s ← rows.foldlM (timeOutResultWait e) s
  .ok (rows.length, s)

end Pgtask
