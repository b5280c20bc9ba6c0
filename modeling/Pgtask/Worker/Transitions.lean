import Pgtask.Lib.Fallback
import Pgtask.Invariant.Refusal
import Pgtask.Worker.Startup

/-!
# Writing transitions

`write_transition_batch` writes the completions and the failures that executions
have asked for, with one call for each kind, and answers every request.
-/

open Sql Fallback Checked Option

namespace Pgtask

variable {s s' : Clocked} {error : PostgresError}

structure TaskCompletion where
  lease : Lease
  result : Option Json
  deriving DecidableEq

/-- The delay is in nanoseconds. -/
structure TaskFailure where
  lease : Lease
  error : Json
  retryAfter : Option Nat
  deriving DecidableEq

/-- `response` is the sender that the execution waits on. -/
inductive TransitionRequest (ρ : Type)
  | complete (completion : TaskCompletion) (response : ρ)
  | fail (failure : TaskFailure) (response : ρ)

namespace TransitionRequest

variable {ρ : Type}

def response : TransitionRequest ρ → ρ
  | .complete _ response | .fail _ response => response

def completion? : TransitionRequest ρ → Option (TaskCompletion × ρ)
  | .complete completion response => some (completion, response)
  | .fail .. => none

def failure? : TransitionRequest ρ → Option (TaskFailure × ρ)
  | .complete .. => none
  | .fail failure response => some (failure, response)

end TransitionRequest

/-- A store, as far as transitions go: `data` is what it holds. A call that `shutdown` cancels has no
answer. -/
structure TransitionStore (σ δ : Type) where
  data : σ → δ
  complete : Writer σ TaskCompletion Bool PostgresError
  fail : Writer σ TaskFailure (Option TaskState) PostgresError
  completes : complete.Lawful data
  fails : fail.Lawful data

structure TransitionsWritten (ρ : Type) where
  completions : Written TaskCompletion Bool PostgresError ρ
  failures : Written TaskFailure (Option TaskState) PostgresError ρ

/-- The requests that have been answered, in the order of the answers. -/
def TransitionsWritten.answered {ρ : Type} (w : TransitionsWritten ρ) : List ρ :=
  w.completions.responses.map Prod.fst ++ w.failures.responses.map Prod.fst

section Write

variable {σ δ ρ : Type}

/-- `none` when `shutdown` fires. -/
def writeTransitionBatch (store : TransitionStore σ δ) (requests : List (TransitionRequest ρ)) (s : σ) :
    Option (TransitionsWritten ρ × σ) := do
  let (completions, s) ← store.complete.batch (requests.filterMap TransitionRequest.completion?) s
  let (failures, s) ← store.fail.batch (requests.filterMap TransitionRequest.failure?) s
  some (⟨completions, failures⟩, s)

theorem responses_perm (requests : List (TransitionRequest ρ)) :
    ((requests.filterMap TransitionRequest.completion?).map Prod.snd ++
      (requests.filterMap TransitionRequest.failure?).map Prod.snd).Perm
        (requests.map TransitionRequest.response) := by
  induction requests with
  | nil => exact .refl _
  | cons request requests ih =>
    cases request with
    | complete completion response => exact ih.cons response
    | fail failure response => exact List.perm_middle.trans (ih.cons response)

/-- One kind of transition has been written: the batch was accepted and each request got its entry's
outcome, or the batch was rejected and each entry was written alone, in order, and each request got
the answer to its own call. The entries around one whose call changed nothing are then written as if
it had not been there. -/
def WrittenFor {α β : Type} (w : Writer σ α β PostgresError) (data : σ → δ) (entries : List (α × ρ))
    (s : σ) (written : Written α β PostgresError ρ) (s' : σ) : Prop :=
  (∃ outcomes, w.many (entries.map Prod.fst) s = some (.ok outcomes, s') ∧
      outcomes.length = entries.length ∧ written.calls = [.many (entries.map Prod.fst)] ∧
      written.responses = (entries.map Prod.snd).zip (outcomes.map .ok)) ∨
    ∃ error s₀ answers, w.many (entries.map Prod.fst) s = some (.error error, s₀) ∧
      data s₀ = data s ∧ w.Answers (entries.map Prod.fst) s₀ answers s' ∧
      written.calls = .many (entries.map Prod.fst) :: entries.map (.one ∘ Prod.fst) ∧
      written.responses = (entries.map Prod.snd).zip answers ∧
      ∀ before a after, entries.map Prod.fst = before ++ a :: after →
        ∃ xs answer ys s₁ s₂, answers = xs ++ answer :: ys ∧ w.Answers before s₀ xs s₁ ∧
          w.one a s₁ = some (answer, s₂) ∧ w.Answers after s₂ ys s' ∧
          (s₂ = s₁ → w.Answers (before ++ after) s₀ (xs ++ ys) s')

theorem writtenFor_of_batch {α β : Type} {w : Writer σ α β PostgresError} {data : σ → δ}
    (lawful : w.Lawful data) {entries : List (α × ρ)} {s s' : σ} {written : Written α β PostgresError ρ}
    (h : w.batch entries s = some (written, s')) : WrittenFor w data entries s written s' := by
  refine (Writer.batch_spec lawful h).imp_right ?_
  rintro ⟨error, s0, answers, hmany, hdata, hanswers, hcalls, hresponses⟩
  refine ⟨error, s0, answers, hmany, hdata, hanswers, hcalls, hresponses, fun before a after heq => ?_⟩
  rw [heq] at hanswers
  exact hanswers.around

/-- If `shutdown` does not fire, `write_transition_batch` gets to its end. There every request has
got one response, and both kinds of transitions are written as `WrittenFor` says. -/
theorem transition_requests_answered (store : TransitionStore σ δ) (requests : List (TransitionRequest ρ))
    (s : σ) :
    (store.complete.Answering ∧ store.fail.Answering → (writeTransitionBatch store requests s).isSome) ∧
      ∀ written s', writeTransitionBatch store requests s = some (written, s') →
        written.answered.Perm (requests.map TransitionRequest.response) ∧
          ∃ s₁, WrittenFor store.complete store.data (requests.filterMap TransitionRequest.completion?) s
              written.completions s₁ ∧
            WrittenFor store.fail store.data (requests.filterMap TransitionRequest.failure?) s₁
              written.failures s' := by
  refine ⟨?_, ?_⟩
  · rintro ⟨completes, fails⟩
    obtain ⟨⟨completions, s₁⟩, hcompletions⟩ := isSome_iff_exists.mp
      (Writer.batch_answers completes (requests.filterMap TransitionRequest.completion?) s)
    obtain ⟨⟨failures, s₂⟩, hfailures⟩ := isSome_iff_exists.mp
      (Writer.batch_answers fails (requests.filterMap TransitionRequest.failure?) s₁)
    simp [writeTransitionBatch, hcompletions, hfailures]
  · intro written s' h
    obtain ⟨⟨completions, s₁⟩, hcompletions, hnext⟩ := bind_eq_some_iff.mp h
    obtain ⟨⟨failures, s₂⟩, hfailures, hdone⟩ := bind_eq_some_iff.mp hnext
    cases hdone
    refine ⟨?_, s₁, writtenFor_of_batch store.completes hcompletions,
      writtenFor_of_batch store.fails hfailures⟩
    unfold TransitionsWritten.answered
    rw [Writer.batch_responses store.completes hcompletions,
      Writer.batch_responses store.fails hfailures]
    exact responses_perm requests

end Write

/-! ## The database -/

theorem forFenced_length {α β : Type} {lease : α → Lease} {lost : β}
    {act : α → Task → Session → Result (β × Session)} {as : List α} {bs : List β} {s s' : Session}
    (h : forFenced lease lost act as s = .ok (bs, s')) : bs.length = as.length := by
  induction as generalizing s bs with
  | nil =>
    cases h
    rfl
  | cons a as ih =>
    unfold forFenced at h
    split at h
    · obtain ⟨⟨replies, s1⟩, hrest, hdone⟩ := bind_ok h
      cases hdone
      simp [ih hrest]
    · obtain ⟨⟨reply, s1⟩, -, hnext⟩ := bind_ok h
      obtain ⟨⟨replies, s2⟩, hrest, hdone⟩ := bind_ok hnext
      cases hdone
      simp [ih hrest]

theorem completeTasks_length {e : Env} {cs : List Completion} {bs : List Bool} {s s' : Session}
    (h : completeTasks e cs s = .ok (bs, s')) : bs.length = cs.length := by
  unfold completeTasks at h
  split at h
  · obtain ⟨⟨replies, s1⟩, hrows, hnext⟩ := bind_ok h
    obtain ⟨s2, -, hdone⟩ := bind_ok hnext
    cases hdone
    exact forFenced_length hrows
  · cases h

theorem failTasks_length {e : Env} {fs : List Failure} {bs : List (Option TaskState)} {s s' : Session}
    (h : failTasks e fs s = .ok (bs, s')) : bs.length = fs.length := by
  unfold failTasks at h
  split at h
  · obtain ⟨⟨replies, s1⟩, hrows, hnext⟩ := bind_ok h
    obtain ⟨s2, -, hdone⟩ := bind_ok hnext
    cases hdone
    exact forFenced_length hrows
  · cases h

namespace Store

/-- The database and the number of calls that it has got. -/
abbrev Clocked := World × Nat

variable (server : Server) (message : SqlError → String) (clock : Nat → Timestamp)

def query {β : Type} (read : Reply → Option β) (call : Call) (s : Clocked) :
    Except PostgresError β × Clocked :=
  let (outcome, w) := step server s.1 ⟨clock s.2, call⟩
  match outcome with
  | .raised error => (.error (.database (message error)), w, s.2 + 1)
  | .returned reply => match read reply with
    | some b => (.ok b, w, s.2 + 1)
    | none => (.error (.database ""), w, s.2 + 1)

def flag? : Reply → Option Bool
  | .flag completed => some completed
  | _ => none

def flags? : Reply → Option (List Bool)
  | .flags completed => some completed
  | _ => none

def state? : Reply → Option (Option TaskState)
  | .states [state] => some state
  | _ => none

def states? : Reply → Option (List (Option TaskState))
  | .states states => some states
  | _ => none

def complete (completion : TaskCompletion) (s : Clocked) : Except PostgresError Bool × Clocked :=
  query server message clock flag? (.completeTask completion.lease completion.result) s

def completeMany (completions : List TaskCompletion) (s : Clocked) :
    Except PostgresError (List Bool) × Clocked :=
  if completions = [] then (.ok [], s)
  else if ¬ (completions.map fun c => c.lease.taskId).Nodup then
    (.error (.invalidTask "batch completions must contain unique task ids"), s)
  else
    query server message clock flags? (.completeTasks (completions.map fun c =>
      ⟨c.lease.taskId.text, c.lease, c.result⟩)) s

def failure (f : TaskFailure) : Except PostgresError Failure := do
  let retryMilliseconds ← f.retryAfter.mapM fun d => milliseconds d .invalidLeaseDuration
  .ok ⟨f.lease.taskId.text, f.lease, some f.error, retryMilliseconds⟩

def fail (f : TaskFailure) (s : Clocked) : Except PostgresError (Option TaskState) × Clocked :=
  match failure f with
  | .error error => (.error error, s)
  | .ok f => query server message clock state? (.failTask f.lease f.error f.retryMilliseconds) s

def failMany (failures : List TaskFailure) (s : Clocked) :
    Except PostgresError (List (Option TaskState)) × Clocked :=
  if failures = [] then (.ok [], s)
  else if ¬ (failures.map fun f => f.lease.taskId).Nodup then
    (.error (.invalidTask "batch failures must contain unique task ids"), s)
  else match failures.mapM failure with
    | .error error => (.error error, s)
    | .ok failures => query server message clock states? (.failTasks failures) s

variable {server : Server} {message : SqlError → String} {clock : Nat → Timestamp}

theorem query_error {β : Type} {read : Reply → Option β} {call : Call}
    (reads : ∀ e t r t', exec e call t = .ok (r, t') → (read r).isSome)
    (h : query server message clock read call s = (.error error, s')) : s'.1 = s.1 := by
  unfold query at h
  cases houtcome : (step server s.1 ⟨clock s.2, call⟩).1 with
  | raised error =>
    simp only [houtcome] at h
    cases h
    exact (step_raised houtcome).2
  | returned reply =>
    obtain ⟨t', hexec, -⟩ := step_returned houtcome
    obtain ⟨b, hread⟩ := isSome_iff_exists.mp (reads _ _ _ _ hexec)
    simp only [houtcome, hread] at h
    cases h

theorem query_ok {β : Type} {read : Reply → Option β} {call : Call} {b : β}
    (h : query server message clock read call s = (.ok b, s')) :
    ∃ r t', exec (server.envAt (clock s.2)) call s.1.session = .ok (r, t') ∧ read r = some b := by
  unfold query at h
  cases houtcome : (step server s.1 ⟨clock s.2, call⟩).1 with
  | raised error =>
    simp only [houtcome] at h
    cases h
  | returned reply =>
    obtain ⟨t', hexec, -⟩ := step_returned houtcome
    cases hread : read reply with
    | none =>
      simp only [houtcome, hread] at h
      cases h
    | some b =>
      simp only [houtcome, hread] at h
      cases h
      exact ⟨reply, t', hexec, hread⟩

theorem completeMany_length {cs : List TaskCompletion} {bs : List Bool}
    (h : completeMany server message clock cs s = (.ok bs, s')) : bs.length = cs.length := by
  unfold completeMany at h
  split at h
  · cases h
    simp [*]
  · split at h
    · cases h
    · obtain ⟨r, t', hexec, hread⟩ := query_ok h
      obtain ⟨flags, hcall, rfl⟩ := reply_ok hexec
      cases hread
      rw [completeTasks_length hcall, List.length_map]

theorem completeMany_error {cs : List TaskCompletion}
    (h : completeMany server message clock cs s = (.error error, s')) : s'.1 = s.1 := by
  unfold completeMany at h
  split at h
  · cases h
  · split at h
    · cases h
      rfl
    · refine query_error (fun e t r t' hexec => ?_) h
      obtain ⟨flags, -, rfl⟩ := reply_ok hexec
      rfl

theorem failMany_length {fs : List TaskFailure} {bs : List (Option TaskState)}
    (h : failMany server message clock fs s = (.ok bs, s')) : bs.length = fs.length := by
  unfold failMany at h
  split at h
  · cases h
    simp [*]
  · split at h
    · cases h
    · split at h
      · cases h
      · rename_i elements hmap
        obtain ⟨r, t', hexec, hread⟩ := query_ok h
        obtain ⟨states, hcall, rfl⟩ := reply_ok hexec
        cases hread
        rw [failTasks_length hcall, (mapM_eq_ok.mp hmap).length_eq]

theorem failMany_error {fs : List TaskFailure}
    (h : failMany server message clock fs s = (.error error, s')) : s'.1 = s.1 := by
  unfold failMany at h
  split at h
  · cases h
  · split at h
    · cases h
      rfl
    · split at h
      · cases h
        rfl
      · refine query_error (fun e t r t' hexec => ?_) h
        obtain ⟨states, -, rfl⟩ := reply_ok hexec
        rfl

variable (server : Server) (message : SqlError → String) (clock : Nat → Timestamp)

def transitions : TransitionStore Clocked World where
  data := Prod.fst
  complete := ⟨fun cs s => some (completeMany server message clock cs s),
    fun c s => some (complete server message clock c s)⟩
  fail := ⟨fun fs s => some (failMany server message clock fs s),
    fun f s => some (fail server message clock f s)⟩
  completes :=
    ⟨fun _ _ _ _ h => completeMany_length (Option.some.inj h),
      fun _ _ _ _ h => completeMany_error (Option.some.inj h)⟩
  fails :=
    ⟨fun _ _ _ _ h => failMany_length (Option.some.inj h),
      fun _ _ _ _ h => failMany_error (Option.some.inj h)⟩

end Store

theorem repeated_completion_written_alone :
    let completion : TaskCompletion := ⟨⟨Uuid.ofNat 1, 1, Uuid.ofNat 2⟩, none⟩
    ∃ written s', writeTransitionBatch (Store.transitions countingServer (fun _ => "") (2 + ·))
        [.complete completion 0, .complete completion 1] (run countingServer (completedRun.take 2), 0) =
          some (written, s') ∧
      (written.completions.responses.map fun r => (r.1, r.2.toOption)) =
        [(0, some true), (1, some false)] ∧
      written.answered.Perm [0, 1] := by
  intro completion
  have answered := transition_requests_answered
    (Store.transitions countingServer (fun _ => "") (2 + ·))
    [.complete completion 0, .complete completion 1] (run countingServer (completedRun.take 2), 0)
  obtain ⟨⟨written, s'⟩, h⟩ := isSome_iff_exists.mp
    (answered.1 ⟨⟨fun _ _ => rfl, fun _ _ => rfl⟩, ⟨fun _ _ => rfl, fun _ _ => rfl⟩⟩)
  refine ⟨written, s', h, ?_, (answered.2 written s' h).1⟩
  have hresponses : ((writeTransitionBatch (Store.transitions countingServer (fun _ => "") (2 + ·))
      [.complete completion 0, .complete completion 1]
      (run countingServer (completedRun.take 2), 0)).map fun x =>
        x.1.completions.responses.map fun r => (r.1, r.2.toOption)) =
          some [(0, some true), (1, some false)] := by decide +kernel
  rw [h] at hresponses
  exact Option.some.inj hresponses

end Pgtask
