import Pgtask.Lib.Client
import Pgtask.Run
import Pgtask.Worker.Decode

/-!
# Durable calls of a handler

`TaskContext` of `pgtask-worker` and the functions of `Store` below it. They run
while other clients use the database, so each is a program whose calls stand
somewhere in the common history.
-/

open Sql

namespace Pgtask

variable {stepName : String} {occurrence : Nat}

/-- A program of a worker. A call without an answer fails with the text of its `sqlx::Error`. -/
abbrev Async := Client Call Reply String

/-- What a request gets after the requests `rs`. A function that raises gives no answer. -/
def answer (server : Server) (rs : List Request) (r : Request) : Option Reply :=
  match (step server (run server rs) r).1 with
  | .returned reply => some reply
  | .raised _ => none

/-- While the database handles `rs'` after `rs`, the program returns `Ok(a)`. -/
def Yields {δ α : Type} (server : Server) (rs : List Request) (p : ExceptT δ Async α)
    (rs' : List Request) (a : α) : Prop :=
  Client.Returns Request.call (answer server) rs p rs' a

/-! ## Store -/

abbrev StoreM := ExceptT PostgresError Async

def query {α : Type} (c : Call) (decode : Reply → α) : StoreM α :=
  ExceptT.mk (Client.bind (Client.ask c) fun
    | .ok reply => .ret (.ok (decode reply))
    | .error message => .ret (.error (.database message)))

def toInt4 (n : Nat) (error : PostgresError) : StoreM Int :=
  if n ≤ 2147483647 then pure n else throw error

/-- The `value` of a `CheckpointRow`. Its other columns are the key that was asked for. -/
def Reply.checkpointRow : Reply → Option Json
  | .checkpoint value => value
  | _ => none

def Reply.wakeTime : Reply → Option Timestamp
  | .wakeAt time => time
  | _ => none

namespace Store

def getCheckpoint (id : Uuid) (handlerVersion : Nat) (stepName : String) (occurrence : Nat) :
    StoreM (Option Json) := do
  let handlerVersion ← toInt4 handlerVersion .invalidHandlerVersion
  let occurrence ← toInt4 occurrence invalidNumber
  query (.getCheckpoint ⟨id, handlerVersion, stepName, occurrence⟩) Reply.checkpointRow

def commitCheckpoint (l : Lease) (stepName : String) (occurrence : Nat) (value : Json) :
    StoreM (Option Json) := do
  let occurrence ← toInt4 occurrence invalidNumber
  query (.commitCheckpoint l stepName occurrence value) Reply.checkpointRow

def suspendTask (l : Lease) (stepName : String) (occurrence : Nat) (wakeAt : Option Timestamp)
    (delayMilliseconds : Option Int) : StoreM (Option Timestamp) := do
  let occurrence ← toInt4 occurrence invalidNumber
  query (.suspendTask l stepName occurrence wakeAt delayMilliseconds) Reply.wakeTime

def sleepUntil (l : Lease) (stepName : String) (occurrence : Nat) (wakeAt : Timestamp) :
    StoreM (Option Timestamp) :=
  suspendTask l stepName occurrence (some wakeAt) none

/-- The duration in milliseconds has to fit an `i64`. -/
def sleepFor (l : Lease) (stepName : String) (occurrence milliseconds : Nat) :
    StoreM (Option Timestamp) := do
  if 9223372036854775807 < milliseconds then throw .invalidSleepDuration
  else suspendTask l stepName occurrence none (some milliseconds)

end Store

/-! ## Handler errors -/

inductive HandlerControl
  | failure | suspended
  deriving DecidableEq

structure HandlerError where
  error : Json
  retryable : Bool
  control : HandlerControl
  deriving DecidableEq

namespace HandlerError

def failure (kind message : String) (retryable : Bool) : HandlerError where
  error := .obj [("type", .str kind), ("message", .str message), ("retryable", .bool retryable)]
  retryable
  control := .failure

def checkpoint (kind message : String) : HandlerError := failure kind message true

def suspended : HandlerError := ⟨.obj [("type", .str "suspended")], false, .suspended⟩

def leaseLost : HandlerError := checkpoint "lease_lost" "task lease is no longer active"

end HandlerError

/-! ## The task context -/

abbrev HandlerM := ExceptT HandlerError Async

def StoreM.orFail {α : Type} (kind : String) (p : StoreM α) : HandlerM α :=
  ExceptT.adapt (fun error => .checkpoint kind error.text) p

structure TaskContext where
  taskId : Uuid
  handlerVersion : Nat
  attempt : Nat
  leaseToken : Uuid
  deriving DecidableEq

namespace TaskContext

def new (task : TaskRecord) (leaseToken : Uuid) : TaskContext :=
  ⟨task.id, task.handlerVersion, task.attempt, leaseToken⟩

def lease (c : TaskContext) : Lease := ⟨c.taskId, c.attempt, c.leaseToken⟩

def key (c : TaskContext) (stepName : String) (occurrence : Nat) : StepKey :=
  ⟨c.taskId, c.handlerVersion, stepName, occurrence⟩

def readCheckpoint (c : TaskContext) (stepName : String) (occurrence : Nat) : HandlerM (Option Json) :=
  (Store.getCheckpoint c.taskId c.handlerVersion stepName occurrence).orFail "checkpoint_read_error"

/-- `cancelled` is what the cancellation token says when the step starts. The operation may make
calls of its own. -/
def step (c : TaskContext) (cancelled : Bool) (stepName : String) (occurrence : Nat)
    (operation : HandlerM Json) : HandlerM Json := do
  if cancelled then throw .leaseLost
  else
    match ← c.readCheckpoint stepName occurrence with
    | some value => pure value
    | none =>
      let value ← operation
      let stored ← (Store.commitCheckpoint c.lease stepName occurrence value).orFail
        "checkpoint_write_error"
      match stored with
      | some value => pure value
      | none => throw .leaseLost

def checkpointExists (c : TaskContext) (stepName : String) (occurrence : Nat) : HandlerM Bool := do
  let checkpoint ← c.readCheckpoint stepName occurrence
  pure checkpoint.isSome

/-- What both sleeps share: `suspend` is the call that goes to sleep. -/
def sleep (c : TaskContext) (stepName : String) (occurrence : Nat)
    (suspend : StoreM (Option Timestamp)) : HandlerM Unit := do
  if ← c.checkpointExists stepName occurrence then pure ()
  else
    match ← suspend.orFail "sleep_write_error" with
    | some _ => throw .suspended
    | none => throw .leaseLost

def sleepUntil (c : TaskContext) (stepName : String) (occurrence : Nat) (wakeAt : Timestamp) :
    HandlerM Unit :=
  c.sleep stepName occurrence (Store.sleepUntil c.lease stepName occurrence wakeAt)

def sleepFor (c : TaskContext) (stepName : String) (occurrence milliseconds : Nat) : HandlerM Unit :=
  c.sleep stepName occurrence (Store.sleepFor c.lease stepName occurrence milliseconds)

end TaskContext

/-! ## What a call that returned has seen -/

variable {server : Server} {rs rs' : List Request} {α : Type}

theorem answer_eq_some {r : Request} {reply : Reply} :
    answer server rs r = some reply ↔ (step server (run server rs) r).1 = .returned reply := by
  unfold answer
  cases (Pgtask.step server (run server rs) r).1 with
  | returned reply' => simp
  | raised error => simp

theorem Yields.of_query {c : Call} {decode : Reply → α} {a : α}
    (h : Yields server rs (query c decode) rs' a) :
    ∃ before r after reply, rs' = before ++ r :: after ∧ r.call = c ∧
      (step server (run server (rs ++ before)) r).1 = .returned reply ∧ decode reply = a := by
  obtain ⟨before, rest, rfl, hcall⟩ := Client.Runs.call_cases h
  rcases hcall with ⟨r, after, reply, rfl, hr, hreply, htail⟩ | ⟨failure, htail⟩
  · have ha := htail.ret_eq
    cases ha
    exact ⟨before, r, after, reply, rfl, hr, answer_eq_some.mp hreply, rfl⟩
  · cases htail.ret_eq

theorem Yields.of_toInt4 {n : Nat} {error : PostgresError} {m : Int}
    (h : Yields server rs (toInt4 n error) rs' m) : m = n := by
  unfold toInt4 at h
  split at h
  · exact Client.Returns.pure_eq h
  · exact (Client.Returns.throw_false h).elim

theorem Yields.of_readCheckpoint {c : TaskContext}
    {v : Option Json} (h : Yields server rs (c.readCheckpoint stepName occurrence) rs' v) :
    ∃ before after, rs' = before ++ after ∧
      (run server (rs ++ before)).db.checkpoints.get? (c.key stepName occurrence) = v := by
  obtain ⟨first, last, rfl, hread⟩ := Client.Returns.of_adapt h
  obtain ⟨a1, b1, version, rfl, hversion, hread⟩ := Client.Returns.bind_split hread
  obtain rfl := Yields.of_toInt4 hversion
  obtain ⟨a2, b2, occ, rfl, hocc, hread⟩ := Client.Returns.bind_split hread
  obtain rfl := Yields.of_toInt4 hocc
  obtain ⟨before, r, after, reply, rfl, hcall, hreply, hv⟩ := Yields.of_query hread
  refine ⟨a1 ++ (a2 ++ before), r :: (after ++ last), by simp, ?_⟩
  rw [List.append_assoc, List.append_assoc] at hreply
  unfold Pgtask.step at hreply
  rw [hcall] at hreply
  cases hreply
  exact hv

theorem Yields.of_commitCheckpoint {l : Lease} {value : Json}
    {v : Option Json} (h : Yields server rs (Store.commitCheckpoint l stepName occurrence value) rs' v) :
    ∃ before r after reply, rs' = before ++ r :: after ∧
      r.call = .commitCheckpoint l stepName occurrence value ∧
      (step server (run server (rs ++ before)) r).1 = .returned reply ∧ reply.checkpointRow = v := by
  obtain ⟨a1, b1, occ, rfl, hocc, hcommit⟩ := Client.Returns.bind_split h
  obtain rfl := Yields.of_toInt4 hocc
  obtain ⟨before, r, after, reply, rfl, hcall, hreply, hv⟩ := Yields.of_query hcommit
  rw [List.append_assoc] at hreply
  exact ⟨a1 ++ before, r, after, reply, by simp, hcall, hreply, hv⟩

theorem Yields.of_step {c : TaskContext} {cancelled : Bool} {operation : HandlerM Json} {v : Json}
    (h : Yields server rs (c.step cancelled stepName occurrence operation) rs' v) :
    (∃ before after, rs' = before ++ after ∧
        (run server (rs ++ before)).db.checkpoints.get? (c.key stepName occurrence) = some v) ∨
      ∃ before r after value reply, rs' = before ++ r :: after ∧
        r.call = .commitCheckpoint c.lease stepName occurrence value ∧
        (step server (run server (rs ++ before)) r).1 = .returned reply ∧
        reply.checkpointRow = some v := by
  unfold TaskContext.step at h
  split at h
  · exact (Client.Returns.throw_false h).elim
  · obtain ⟨a1, b1, read, rfl, hread, hrest⟩ := Client.Returns.bind_split h
    cases read with
    | some value =>
      obtain rfl := Client.Returns.pure_eq hrest
      obtain ⟨before, after, rfl, hstored⟩ := Yields.of_readCheckpoint hread
      exact .inl ⟨before, after ++ b1, by simp, hstored⟩
    | none =>
      obtain ⟨a2, b2, value, rfl, -, hrest⟩ := Client.Returns.bind_split hrest
      obtain ⟨a3, b3, stored, rfl, hcommit, hrest⟩ := Client.Returns.bind_split hrest
      cases stored with
      | none => exact (Client.Returns.throw_false hrest).elim
      | some stored =>
        obtain rfl := Client.Returns.pure_eq hrest
        obtain ⟨first, last, rfl, hstore⟩ := Client.Returns.of_adapt hcommit
        obtain ⟨before, r, after, reply, rfl, hcall, hreply, hv⟩ := Yields.of_commitCheckpoint hstore
        refine .inr ⟨a1 ++ (a2 ++ before), r, after ++ (last ++ b3), value, reply, by simp, hcall,
          ?_, hv⟩
        rwa [List.append_assoc, List.append_assoc] at hreply

end Pgtask
