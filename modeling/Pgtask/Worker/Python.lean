import Pgtask.Worker.Coverage

/-!
# Workers in Python

`Worker.__init__` of the Python SDK collects the task definitions of several
registries, one for each queue, and the native worker registers them one after
another in one `HandlerRegistry`.
-/

open Sql Checked List Table

namespace Pgtask.Python

/-! ## Registries -/

inductive PythonError
  | valueError (message : String)
  | alreadyRegistered (name : String) (version : Int)
  | overflowError
  | runtimeError (error : WorkerError)

/-- `H` are the handler functions, `S` the floats that give a number of seconds. -/
structure TaskDefinition (H S : Type) where
  name : String
  queueName : String
  handler : H
  handlerVersion : Int := 1
  retryDelay : Option S

structure TaskRegistry (H S : Type) where
  queueName : String := "default"
  entries : Table (String × Int) (TaskDefinition H S) := .empty
  keyed : ∀ k d, entries.get? k = some d → k = (d.name, d.handlerVersion) := by simp

variable {H S : Type}

def TaskRegistry.task (registry : TaskRegistry H S) (name : String) (handlerVersion : Int)
    (retryDelay : Option S) (handler : H) :
    Except PythonError (TaskDefinition H S × TaskRegistry H S) :=
  let definition : TaskDefinition H S :=
    { name, queueName := registry.queueName, handler, handlerVersion, retryDelay }
  if (registry.entries.get? (name, handlerVersion)).isSome then
    .error (.alreadyRegistered name handlerVersion)
  else .ok (definition,
    { registry with
      entries := registry.entries.put (name, handlerVersion) definition
      keyed := by
        intro k d hd
        rw [get?_put] at hd
        split at hd
        · rename_i hk
          cases hd
          exact hk
        · exact registry.keyed k d hd })

structure PythonWorkerOptions (S : Type) where
  concurrency : Nat
  pollInterval : S
  leaseDuration : S
  retentionBatchSize : Nat
  retentionInterval : S
  shutdownGrace : S

structure PythonHandler (H : Type) where
  function : H
  name : String
  retryPolicy : Core.RetryPolicy
  version : Nat

structure PythonWorker (H : Type) where
  concurrency : Nat
  leaseDuration : Nat
  pollInterval : Nat
  retentionInterval : Nat
  queues : List String
  handlers : List (PythonHandler H) := []

/-- `QueueName::new` and `TaskName::new`, with `value_error`. -/
def parseName (kind : String) (maximum : Nat) (value : String) : Except PythonError String :=
  match validateName value kind maximum with
  | .ok () => .ok value
  | .error error => .error (.valueError error.text)

section Native

-- `Duration::try_from_secs_f64`, in nanoseconds.
variable (tryFromSecs : S → Except String Nat)

def duration (seconds : S) : Except PythonError Nat :=
  match tryFromSecs seconds with
  | .ok duration => .ok duration
  | .error message => .error (.valueError message)

def PythonWorker.new (queueNames : List String) (options : PythonWorkerOptions S) :
    Except PythonError (PythonWorker H) := do
  if options.concurrency = 0 then .error (.valueError "concurrency must be positive")
  else
    let leaseDuration ← duration tryFromSecs options.leaseDuration
    let pollInterval ← duration tryFromSecs options.pollInterval
    if options.retentionBatchSize = 0 then
      .error (.valueError "retention_batch_size must be positive")
    else
      let retentionInterval ← duration tryFromSecs options.retentionInterval
      if retentionInterval = 0 then .error (.valueError "retention_interval must be positive")
      else
        let _ ← duration tryFromSecs options.shutdownGrace
        let queues ← queueNames.mapM (parseName "queue name" 128)
        .ok { concurrency := options.concurrency, leaseDuration, pollInterval, retentionInterval
              queues }

end Native

def PythonWorker.registry (w : PythonWorker H) : HandlerRegistry H :=
  w.handlers.foldl (fun registry handler =>
    (registry.registerDurable handler.name handler.version handler.retryPolicy handler.function).2) {}

/-- `PythonWorker::run`, up to `Worker::run`. -/
def PythonWorker.run (w : PythonWorker H) (id : Uuid) : Except PythonError (Runtime.Worker H) :=
  if w.handlers = [] then .error (.valueError "at least one handler must be registered")
  else
    match Runtime.Worker.new w.registry
        { queues := w.queues, concurrency := w.concurrency, claimBatchSize := w.concurrency
          leaseDuration := w.leaseDuration, pollInterval := w.pollInterval
          retentionInterval := w.retentionInterval } id with
    | .ok worker => .ok worker
    | .error error => .error (.runtimeError error)

/-! ## What is registered -/

section Registered

variable {tryFromSecs : S → Except String Nat}

theorem parseName_ok {kind value name : String} {maximum : Nat}
    (h : parseName kind maximum value = .ok name) : name = value ∧ validName maximum value = true := by
  unfold parseName at h
  split at h
  · rename_i hvalid
    cases h
    exact ⟨rfl, validateName_ok.mp hvalid⟩
  · cases h

theorem PythonWorker.new_ok {queueNames : List String} {options : PythonWorkerOptions S}
    {native : PythonWorker H} (h : PythonWorker.new tryFromSecs queueNames options = .ok native) :
    native.queues = queueNames ∧ native.handlers = [] ∧
      ∀ queueName ∈ queueNames, validName 128 queueName = true := by
  unfold PythonWorker.new at h
  split at h
  · cases h
  obtain ⟨lease, -, h⟩ := bind_ok h
  obtain ⟨poll, -, h⟩ := bind_ok h
  split at h
  · cases h
  obtain ⟨retention, -, h⟩ := bind_ok h
  split at h
  · cases h
  obtain ⟨grace, -, h⟩ := bind_ok h
  obtain ⟨queues, hqueues, h⟩ := bind_ok h
  cases h
  refine ⟨?_, rfl, fun queueName hmem => ?_⟩
  · exact (mapM_eq_map (g := id) (fun _ _ h => (parseName_ok h).1) hqueues).trans (List.map_id _)
  · obtain ⟨_, -, h⟩ := mapM_mem_zip hqueues hmem
    exact (parseName_ok h).2

end Registered

section Lone

variable {queueName taskName : String} {handlerVersion : Int}

end Lone

/-! ## Ownership -/

section Ownership

variable {tryFromSecs : S → Except String Nat} {registries : List (TaskRegistry H S)}
  {options : PythonWorkerOptions S} {native : PythonWorker H} {id : Uuid} {w : Runtime.Worker H}

end Ownership

/-! ## Two registries -/

end Pgtask.Python
