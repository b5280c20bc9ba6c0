import Mathlib.Order.CompleteBooleanAlgebra
import Mathlib.Order.CompletePartialOrder
import Pgtask.Concurrent.Fencing
import Pgtask.Concurrent.LockOrder
import Pgtask.Invariant.Finish

/-!
# The end of a child and the end of a wait

A call that finishes a child holds the child's row when its triggers go up to the
queue, the wait and the parent. A call that ends the parent's wait comes down from
there to the child. They wait for each other whenever the first one finishes the
child in earnest. A worker that has lost its lease, or whose attempt fails with
others left, asks for no second row.
-/

open Sql ReadCommitted

namespace Pgtask.Concurrent

/-! ## The calls -/

inductive FinishCall
  | completeTask (lease : Lease) (result : Option Json)
  | failTask (lease : Lease) (error : Option Json) (retryMilliseconds : Option Int)

def FinishCall.lease : FinishCall → Lease
  | .completeTask l _ => l
  | .failTask l _ _ => l

def FinishCall.operation : FinishCall → Operation
  | .completeTask l result => .completeTask l result
  | .failTask l error retryMilliseconds => .failTask l error retryMilliseconds

inductive EndCall
  | cancelTask (id : Uuid)
  | recoverResultWaitTimeouts (batches : List Nat) (limit : Int)

def EndCall.operation : EndCall → Operation
  | .cancelTask id => .cancelTask id
  | .recoverResultWaitTimeouts batches limit => .recoverResultWaitTimeouts batches limit

def contend (e e' : Env) (depth depth' : Nat) (finish : FinishCall) (ending : EndCall) : Fin 2 → Tx Reply
  | 0 => finish.operation.program e depth
  | 1 => ending.operation.program e' depth'

def Watched : RowId → Prop
  | .task _ | .resultWait _ | .queue _ => True
  | _ => False

instance : DecidablePred Watched := fun r => by
  cases r <;> unfold Watched <;> infer_instance

def Deadlocked (s : System Database RowId Row Reply (Fin 2)) : Prop :=
  WaitsFor Watched s 0 1 ∧ WaitsFor Watched s 1 0

instance (s : System Database RowId Row Reply (Fin 2)) : Decidable (Deadlocked s) :=
  inferInstanceAs (Decidable (_ ∧ _))

/-! ## A parent that waits for its child -/

def waitingPair : Database := (run countingServer waitingRun).db

def limitedPair : Database := (run countingServer (pairRun (some 10))).db

/-- The child's row is locked first. Then the other call goes as far as it can, and then the
first one. -/
def meet : List (Turn (Fin 2)) :=
  List.replicate 2 (.advance 0) ++ List.replicate 40 (.advance 1) ++ List.replicate 40 (.advance 0)

/-- Where a finishing call and one that ends the wait meet after the timeout is due. -/
def meeting (db : Database) (finish : FinishCall) (ending : EndCall) : System Database RowId Row Reply (Fin 2) :=
  interleave db (contend (countingServer.envAt 2000000) (countingServer.envAt 2000000) 100 100 finish ending) meet

theorem finish_deadlocks :
    Deadlocked (meeting waitingPair (.completeTask childLease none) (.cancelTask (Uuid.ofNat 1))) ∧
    Deadlocked (meeting waitingPair (.failTask childLease (some .null) none) (.cancelTask (Uuid.ofNat 1))) ∧
    Deadlocked (meeting waitingPair (.completeTask childLease none) (.recoverResultWaitTimeouts [10] 10)) ∧
    Deadlocked (meeting waitingPair (.failTask childLease (some .null) none) (.recoverResultWaitTimeouts [10] 10)) ∧
    Deadlocked (meeting limitedPair (.completeTask childLease none) (.cancelTask (Uuid.ofNat 1))) := by
  decide +kernel

/-! ## Calls that leave the child unfinished -/

def FinishCall.retries (t : Task) : FinishCall → Bool
  | .completeTask _ _ => false
  | .failTask _ _ retryMilliseconds =>
    retryMilliseconds.isSome && t.failedAttempts.any fun n : Nat => ((n + 1 : Nat) : Int) < t.maxAttempts

def FinishCall.Spares (finish : FinishCall) (db : Database) : Prop :=
  ∀ t, db.tasks.get? finish.lease.taskId = some t → finish.lease.owns finish.lease.taskId t = true →
    finish.retries t = true

def FinishCall.Spared (finish : FinishCall) : (r : RowId) → Option (Row r) → Prop
  | .task id, some t => finish.lease.owns id t = true → finish.retries t = true
  | _, _ => True

/-- The rows that matter have one rank, so whoever holds one may not ask for another. -/
def oneRank : RowId → Option Unit
  | .task _ | .resultWait _ | .queue _ => some ()
  | _ => none

theorem oneRank_watched {r : RowId} (h : Watched r) : oneRank r = some () := by
  cases r <;> first | rfl | cases h

variable {e : Env} {depth : Nat} {finish : FinishCall}

theorem spared_of_disowned {r : RowId} {v : Option (Row r)} (h : disowned finish.lease r v) : finish.Spared r v := by
  cases r with
  | task id =>
    cases v with
    | none => trivial
    | some t =>
      intro owns
      rw [show finish.lease.owns id t = false from h] at owns
      cases owns
  | _ => cases v <;> trivial

theorem spared_start {db : Database} (h : finish.Spares db) (r : RowId) : finish.Spared r (Store.get db r) := by
  cases r with
  | task id =>
    change finish.Spared (.task id) (db.tasks.get? id)
    cases ht : db.tasks.get? id with
    | none => trivial
    | some t =>
      intro owns
      have hid : finish.lease.taskId = id := by
        simp only [Lease.owns, Bool.and_eq_true, decide_eq_true_eq] at owns
        exact owns.1.1.1
      exact h t (hid ▸ ht) (hid ▸ owns)
  | _ => exact spared_of_disowned trivial

/-! ## One row -/

/-- The updates that such a call makes: where the row is as it can be, it goes back to the queue. -/
def SendsBack (finish : FinishCall) (u : RowUpdate) : Prop :=
  ∀ db t new, finish.Spared (.task u.id) (some t) → u.set db t = .ok (some new) →
    t.state = .running ∧ new.state = .pending

theorem completeUpdate_sendsBack (l : Lease) (result : Option Json) :
    SendsBack (.completeTask l result) (completeUpdate e l result) := by
  intro db t new spared h
  unfold completeUpdate at h
  dsimp only at h
  split at h
  · rename_i owns
    cases spared owns
  · cases h

theorem failUpdate_sendsBack (l : Lease) (error : Option Json) (retryMilliseconds : Option Int) :
    SendsBack (.failTask l error retryMilliseconds) (failUpdate e l error retryMilliseconds) := by
  intro db t new spared h
  unfold failUpdate at h
  dsimp only at h
  split at h
  · rename_i owns
    have retries : (retryMilliseconds.isSome && t.failedAttempts.any fun n : Nat => ((n + 1 : Nat) : Int) < t.maxAttempts) = true :=
      spared owns
    obtain ⟨hretry, hleft⟩ := Bool.and_eq_true_iff.mp retries
    obtain ⟨n, hn, hlt⟩ := (Option.any_eq_true _ _).mp hleft
    obtain ⟨failures, hfailures, hnew⟩ := Checked.bind_eq_ok.mp h
    have hcount : failures = n + 1 := by
      simp only [historicalFailures, hn, Option.getD_some, int4Succ] at hfailures
      split at hfailures <;> cases hfailures
      rfl
    cases hnew
    simp only [Lease.owns, Bool.and_eq_true, decide_eq_true_eq] at owns
    refine ⟨owns.1.1.2, ?_⟩
    unfold Task.failedWith
    rw [hretry, hcount, Bool.true_and, hlt]
    rfl
  · cases h

theorem afterUpdate_sent_back {id : Uuid} {old new : Task} (hold : old.state = .running) (hnew : new.state = .pending) :
    afterUpdate id old new = [] := by
  simp [afterUpdate, hold, hnew, TaskState.terminal, TaskState.outstanding]

theorem enforceQueueCapacity_sent_back {old new : Task} (hnew : new.state = .pending) :
    enforceQueueCapacity old new = pure () := by
  simp [enforceQueueCapacity, hnew, TaskState.terminal]

theorem spared_sent_back {id : Uuid} {t : Task} (h : t.state = .pending) : finish.Spared (.task id) (some t) :=
  spared_of_disowned (by simp [disowned, Lease.owns, h])

theorem updateRow_orderly {u : RowUpdate} (h : SendsBack finish u) (db : Database) :
    Orderly oneRank finish.Spared (fun updated _ => queuedBy updated = []) (updateRow db u) [] := by
  unfold updateRow
  split
  swap
  · exact rfl
  refine orderly_lockRow (fun _ _ => .inr nofun) fun row spared => ?_
  cases row with
  | none => exact rfl
  | some t =>
    refine orderly_ofResult fun new hset => ?_
    cases new with
    | none => exact rfl
    | some new =>
      obtain ⟨hold, hnew⟩ := h db t new spared hset
      dsimp only
      rw [enforceQueueCapacity_sent_back hnew]
      refine orderly_ofResult fun _ _ => orderly_put (spared_sent_back hnew) ?_
      change queuedBy _ = []
      simp [queuedBy, afterUpdate_sent_back hold hnew]

theorem updateAttempt_orderly (id : Uuid) (n : Nat) (f : Attempt → Attempt) {Q : Unit → Locks → Prop} {held : Locks}
    (h : ∀ m, Q () ((.attempt id n, m) :: held)) :
    Orderly oneRank finish.Spared Q (updateAttempt id n f) held := by
  refine orderly_lockRow (permits_of_none rfl) fun row _ => ?_
  cases row with
  | none => exact h _
  | some a => exact orderly_ofResult fun _ _ => ⟨trivial, h _⟩

theorem updateTask_orderly {u : RowUpdate} (h : SendsBack finish u) :
    Orderly oneRank finish.Spared (fun _ _ => True) (updateAndFire e depth [u]) [] := by
  refine orderly_snapshot fun db _ => ?_
  have update : Orderly oneRank finish.Spared (fun updated _ => queuedBy updated = []) (updateTasks db [u]) [] := by
    have first : Orderly oneRank finish.Spared (fun updated _ => queuedBy updated = [])
        (Prog.collect (updateRow db) [u]) [] := by
      refine (updateRow_orderly h db).andThen fun updated _ quiet => ?_
      change queuedBy (updated ++ []) = []
      rwa [List.append_nil]
    refine first.andThen fun updated held quiet => ?_
    have attempts : Orderly oneRank finish.Spared (fun _ _ => True)
        (Prog.forEach (fun u => updateAttempt u.id u.new.attempt u.endAttempt) (updated.filterMap id)) held :=
      .forEach (I := fun _ _ => True) (fun u _ held _ => updateAttempt_orderly _ _ _ fun _ => trivial) trivial
    exact attempts.andThen fun _ _ _ => quiet
  refine update.andThen fun updated held quiet => ?_
  rw [quiet]
  cases depth <;> trivial

theorem finish_orderly (finish : FinishCall) :
    Orderly oneRank finish.Spared (fun _ _ => True) (finish.operation.program e depth) [] := by
  cases finish with
  | completeTask l result =>
    exact (updateTask_orderly (completeUpdate_sendsBack l result)).andThen fun _ _ _ => trivial
  | failTask l error retryMilliseconds =>
    exact (updateTask_orderly (failUpdate_sendsBack l error retryMilliseconds)).andThen fun _ _ _ => trivial

/-! ## Both calls -/

def ranks : Fin 2 → RowId → Option Unit
  | 0 => oneRank
  | 1 => fun _ => none

/-- A call that leaves the child unfinished never deadlocks with one that ends the parent's wait. -/
theorem spared_child_no_deadlock (db : Database) (e e' : Env) (depth depth' : Nat) (finish : FinishCall)
    (ending : EndCall) (spares : finish.Spares db) (turns : List (Turn (Fin 2))) :
    ¬ Deadlocked (interleave db (contend e e' depth depth' finish ending) turns) := by
  rintro ⟨up, down⟩
  have orderly : ∀ i, Orderly (ranks i) finish.Spared (fun _ _ => True)
      (contend e e' depth depth' finish ending i) [] := by
    intro i
    match i with
    | 0 => exact finish_orderly finish
    | 1 =>
      exact orderly_of_all (fun _ _ => spared_of_disowned)
        (program_all (disowned_allows finish.lease) (disowned_keys finish.lease) ending.operation)
  have inOrder := interleave_inOrder (spared_start spares) orderly turns
  exact inOrder.not_mutual (i := 0) (fun _ => oneRank_watched) up down

theorem retried_child_no_deadlock :
    let finish : FinishCall := .failTask childLease (some .null) (some 1000)
    finish.Spares waitingPair ∧ ¬ Deadlocked (meeting waitingPair finish (.cancelTask (Uuid.ofNat 1))) := by
  have spares : FinishCall.Spares (.failTask childLease (some .null) (some 1000)) waitingPair := by
    have hrow : (waitingPair.tasks.get? (Uuid.ofNat 3)).all
        (FinishCall.retries · (.failTask childLease (some .null) (some 1000))) = true := by decide +kernel
    intro t ht _
    rw [show waitingPair.tasks.get? (Uuid.ofNat 3) = some t from ht] at hrow
    exact hrow
  exact ⟨spares, spared_child_no_deadlock waitingPair _ _ 100 100 _ _ spares meet⟩

end Pgtask.Concurrent
