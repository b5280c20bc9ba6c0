import Pgtask.Concurrent.Wakeup

/-!
# What the calls touch

None of the calls that end a task or make it wait gives a task a lease, and only
`manage_idempotency_key` touches a reservation.
-/

open Sql ReadCommitted

namespace Pgtask.Concurrent

/-- What the statements of these calls need to be allowed. -/
structure Allows (locks : RowId → Prop) (writes : (r : RowId) → Option (Row r) → Prop) : Prop where
  lock : ∀ r, (∀ q key, r ≠ .reservation q key) → locks r
  row : ∀ r v, (∀ id, r ≠ .task id) → (∀ q key, r ≠ .reservation q key) → writes r v
  stop : ∀ id (t : Task), t.state ≠ .running → writes (.task id) (some t)

/-- What `manage_idempotency_key` needs besides. -/
def AllowsKeys (locks : RowId → Prop) (writes : (r : RowId) → Option (Row r) → Prop) : Prop :=
  ∀ q key, locks (.reservation q key) ∧ ∀ v, writes (.reservation q key) v

variable {locks : RowId → Prop} {writes : (r : RowId) → Option (Row r) → Prop}
  {e : Env} {depth : Nat} {k : StepKey} {l : Lease} {id : Uuid} {db : Database}

theorem ofResult_all {α β : Type} {r : Result α} {f : α → Tx β}
    (h : ∀ a, r = .ok a → (f a).All locks writes) : (ofResult r >>= f).All locks writes := by
  cases r with
  | error => trivial
  | ok a => exact h a rfl

/-! ## Statements -/

section Statements

variable (allows : Allows locks writes)

include allows

theorem lockTask_all (m : LockMode) : (lockTask id m).All locks writes :=
  Prog.all_lockRow.mpr (allows.lock _ nofun)

theorem foreignKey_all : (foreignKey id).All locks writes := by
  refine .bind (lockTask_all allows _) fun row => ?_
  cases row <;> trivial

theorem foreignKeys_all (ids : List Uuid) : (Prog.forEach foreignKey ids).All locks writes :=
  .forEach fun _ _ => foreignKey_all allows

theorem saveCheckpoint_all (value : Json) : (saveCheckpoint value k).All locks writes := by
  refine ofResult_all fun _ _ => ?_
  refine .bind (Prog.all_lockRow.mpr (allows.lock _ nofun)) fun row => ?_
  cases row <;> exact ⟨allows.row _ _ nofun nofun, trivial⟩

theorem saveCheckpoints_all (value : Json) (ks : List StepKey) :
    (saveCheckpoints value ks).All locks writes :=
  .collect fun _ _ => .bind (saveCheckpoint_all allows _) fun _ => trivial

theorem wake_all : (wake e db id).All locks writes := by
  unfold wake
  split
  swap
  · trivial
  refine .bind (lockTask_all allows _) fun row => ?_
  cases row with
  | none => trivial
  | some t =>
    dsimp only
    split
    · exact ofResult_all fun _ _ => ⟨allows.stop id _ (by simp), trivial⟩
    · trivial

theorem closeWait_all (outcome : WaitOutcome) : (closeWait e outcome k).All locks writes := by
  refine .bind (Prog.all_lockRow.mpr (allows.lock _ nofun)) fun row => ?_
  cases row with
  | none => trivial
  | some w => exact ⟨allows.row _ _ nofun nofun, trivial⟩

theorem closeResultWait_all (outcome : WaitOutcome) :
    (closeResultWait e outcome k).All locks writes := by
  refine .bind (Prog.all_lockRow.mpr (allows.lock _ nofun)) fun row => ?_
  cases row with
  | none => trivial
  | some w => exact ⟨allows.row _ _ nofun nofun, trivial⟩

theorem enforceQueueCapacity_all (old new : Task) :
    (enforceQueueCapacity old new).All locks writes := by
  unfold enforceQueueCapacity
  split
  swap
  · trivial
  refine .bind Prog.all_snapshot fun db => ?_
  split
  swap
  · trivial
  refine .bind (Prog.all_lockRow.mpr (allows.lock _ (by simp))) fun row => ?_
  cases row with
  | none => trivial
  | some q =>
    dsimp only
    split
    · exact ⟨allows.row _ _ (by simp) (by simp), trivial⟩
    · trivial

theorem updateAttempt_all (n : Nat) (f : Attempt → Attempt) :
    (updateAttempt id n f).All locks writes := by
  refine .bind (Prog.all_lockRow.mpr (allows.lock _ nofun)) fun row => ?_
  cases row with
  | none => trivial
  | some a => exact ofResult_all fun _ _ => ⟨allows.row _ _ nofun nofun, trivial⟩

theorem updateRow_all {u : RowUpdate} (idle : u.Idle) : (updateRow db u).All locks writes := by
  unfold updateRow
  split
  swap
  · trivial
  refine .bind (lockTask_all allows _) fun row => ?_
  cases row with
  | none => trivial
  | some t =>
    refine ofResult_all fun new hnew => ?_
    cases new with
    | none => trivial
    | some new =>
      refine .bind (enforceQueueCapacity_all allows t new) fun _ => ?_
      exact ofResult_all fun _ _ => ⟨allows.stop _ _ (idle _ _ _ hnew).2, trivial⟩

theorem updateTasks_all {updates : List RowUpdate} (idle : ∀ u ∈ updates, u.Idle) :
    (updateTasks db updates).All locks writes := by
  refine .bind (.collect fun u hu => updateRow_all allows (idle u hu)) fun updated => ?_
  exact .bind (.forEach fun _ _ => updateAttempt_all allows _ _) fun _ => trivial

/-! ## Triggers -/

theorem cancelOwnedChildren_all (new : Task) : (cancelOwnedChildren e id new).All locks writes := by
  refine .bind Prog.all_snapshot fun db => ?_
  refine .bind (updateTasks_all allows fun u hu => ?_) fun _ => trivial
  obtain ⟨c, -, rfl⟩ := List.mem_map.mp hu
  exact cancelUpdate_idle _ _ _ _

omit allows in
theorem closeOwn_all {ρ : Type} (table : Database → Table StepKey ρ)
    (resolvedAt : ρ → Option Timestamp) {close : StepKey → Tx Unit}
    (step : ∀ k, (close k).All locks writes) : (closeOwn table resolvedAt close id).All locks writes :=
  .bind Prog.all_snapshot fun _ => .forEach fun _ _ => step _

theorem resolveTaskResult_all (new : Task) : (resolveTaskResult e id new).All locks writes := by
  refine .bind Prog.all_snapshot fun db => ?_
  refine .bind (.collect fun k _ => ?_) fun matching => ?_
  · refine .bind (Prog.all_lockRow.mpr (allows.lock _ nofun)) fun row => ?_
    cases row <;> trivial
  refine .bind (saveCheckpoints_all allows _ _) fun keys => ?_
  refine .bind (.forEach fun _ _ => wake_all allows) fun _ => ?_
  refine .bind (.forEach fun _ _ => closeResultWait_all allows _) fun _ => ?_
  refine .bind (foreignKeys_all allows keys) fun _ => ?_
  refine .bind (closeOwn_all _ _ fun _ => closeResultWait_all allows _) fun _ => ?_
  exact closeOwn_all _ _ fun _ => closeWait_all allows _

omit allows in
theorem manageIdempotencyKey_all (keys : AllowsKeys locks writes) (old new : Task) :
    (manageIdempotencyKey e id old new).All locks writes := by
  unfold manageIdempotencyKey
  split
  · trivial
  refine .bind Prog.all_snapshot fun db => ?_
  split
  swap
  · trivial
  refine .bind (Prog.all_lockRow.mpr (keys _ _).1) fun row => ?_
  cases row with
  | none => trivial
  | some r =>
    dsimp only
    split
    · exact ⟨(keys _ _).2 _, trivial⟩
    · trivial

/-! ## Waits and signals -/

theorem lockFenced_all : (lockFenced l).All locks writes := by
  refine .bind Prog.all_snapshot fun db => ?_
  split
  · exact .bind (lockTask_all allows _) fun _ => trivial
  · trivial

theorem answerReady_all (value : Json) : (answerReady k value).All locks writes := by
  refine .bind (saveCheckpoint_all allows value) fun saved => ?_
  exact .bind (foreignKeys_all allows saved.2) fun _ => trivial

theorem park_all (t : Task) : (park e id t).All locks writes := by
  refine ofResult_all fun _ _ => ?_
  refine .bind (Prog.all_put.mpr (allows.stop _ _ nofun)) fun _ => ?_
  exact .bind (updateAttempt_all allows _ _) fun _ => trivial

theorem foreignKeyOf_all {ρ : Type} (row : Option ρ) : (foreignKeyOf id row).All locks writes := by
  cases row with
  | none => exact foreignKey_all allows
  | some _ => trivial

theorem armWait_all (w : Wait) : (armWait k w).All locks writes := by
  refine ofResult_all fun _ _ => ?_
  refine .bind Prog.all_snapshot fun db => ?_
  split
  · trivial
  refine .bind (Prog.all_lockRow.mpr (allows.lock _ nofun)) fun row => ?_
  refine .bind (foreignKeyOf_all allows row) fun _ => ?_
  exact Prog.all_put.mpr (allows.row _ _ nofun nofun)

theorem armResultWait_all (w : ResultWait) : (armResultWait k w).All locks writes := by
  refine ofResult_all fun _ _ => ?_
  refine .bind Prog.all_snapshot fun db => ?_
  split
  · trivial
  refine .bind (Prog.all_lockRow.mpr (allows.lock _ nofun)) fun row => ?_
  refine .bind (foreignKeyOf_all allows row) fun _ => ?_
  refine .bind (foreignKey_all allows) fun _ => ?_
  exact Prog.all_put.mpr (allows.row _ _ nofun nofun)

theorem waitForSignal_all (stepName : String) (occurrence : Int) (signalName : String)
    (signalOccurrence : Int) (timeoutMilliseconds : Option Int) :
    (waitForSignal e l stepName occurrence signalName signalOccurrence timeoutMilliseconds).All
      locks writes := by
  unfold waitForSignal
  split
  · trivial
  refine .bind (lockFenced_all allows) fun fenced => ?_
  cases fenced with
  | none => trivial
  | some t =>
    refine .bind Prog.all_snapshot fun db => ?_
    dsimp only
    split
    · trivial
    refine .bind Prog.all_snapshot fun db => ?_
    split
    · exact answerReady_all allows _
    · exact .bind (armWait_all allows _) fun _ => park_all allows t

theorem waitForResult_all (stepName : String) (occurrence : Int) (resultTaskId : Uuid)
    (timeoutMilliseconds : Option Int) :
    (waitForResult e l stepName occurrence resultTaskId timeoutMilliseconds).All locks writes := by
  unfold waitForResult
  split
  · trivial
  refine .bind (lockFenced_all allows) fun fenced => ?_
  cases fenced with
  | none => trivial
  | some t =>
    refine .bind Prog.all_snapshot fun db => ?_
    dsimp only
    split
    · trivial
    refine .bind (.bind Prog.all_snapshot fun db => ?_) fun child => ?_
    · split
      · exact .bind (lockTask_all allows _) fun _ => trivial
      · trivial
    cases child with
    | none => trivial
    | some c =>
      dsimp only
      split
      · exact answerReady_all allows _
      · exact .bind (armResultWait_all allows _) fun _ => park_all allows t

theorem emitSignal_all (key : SignalKey) (value : Json) :
    (emitSignal e key value).All locks writes := by
  refine .bind (ofResult_all fun _ _ => ?_) fun stored => ?_
  · refine .bind (Prog.all_lockRow.mpr (allows.lock _ nofun)) fun row => ?_
    cases row with
    | some stored => exact ⟨allows.row _ _ nofun nofun, trivial⟩
    | none => exact .bind (foreignKey_all allows) fun _ => ⟨allows.row _ _ nofun nofun, trivial⟩
  refine .bind Prog.all_snapshot fun db => ?_
  refine .bind (.collect fun k _ => ?_) fun matching => ?_
  · refine .bind (Prog.all_lockRow.mpr (allows.lock _ nofun)) fun row => ?_
    cases row <;> trivial
  refine .bind (saveCheckpoints_all allows _ _) fun keys => ?_
  refine .bind (.forEach fun _ _ => wake_all allows) fun _ => ?_
  refine .bind (.forEach fun _ _ => closeWait_all allows _) fun _ => ?_
  exact .bind (foreignKeys_all allows keys) fun _ => trivial

/-! ## Recovery -/

theorem lockExpired_all (queueName : String) (n : Nat) (ids : List Uuid) :
    (lockExpired e queueName n ids).All locks writes := by
  fun_induction lockExpired e queueName n ids with
  | case1 | case2 => trivial
  | case3 n id ids again skip =>
    refine .bind (Prog.all_tryLockRow.mpr (allows.lock _ nofun)) fun row => ?_
    split
    · exact .bind again fun _ => trivial
    · exact skip

theorem fetchDue_all (n : Nat) (ks : List StepKey) : (fetchDue e n ks).All locks writes := by
  fun_induction fetchDue e n ks with
  | case1 | case2 => trivial
  | case3 n k rest again skip =>
    refine .bind (Prog.all_tryLockRow.mpr (allows.lock _ nofun)) fun row => ?_
    split
    · exact .bind again fun _ => trivial
    · exact skip

end Statements

/-! ## Operations -/

/-- A property of programs that statements within their bounds have, and `manage_idempotency_key`,
and whatever is put together from such programs. -/
structure Composed (locks : RowId → Prop) (writes : (r : RowId) → Option (Row r) → Prop)
    (P : (α : Type) → Tx α → Prop) : Prop where
  all : ∀ {α : Type} {prog : Tx α}, prog.All locks writes → P α prog
  bind : ∀ {α β : Type} {prog : Tx α} {f : α → Tx β}, P α prog → (∀ a, P β (f a)) →
    P β (prog >>= f)
  manage : ∀ e id old new, P Unit (manageIdempotencyKey e id old new)

section Operations

variable {P : (α : Type) → Tx α → Prop} (allows : Allows locks writes)
  (ok : Composed locks writes P)

include allows ok

omit allows in
theorem Composed.ret {α : Type} (a : α) : P α (pure a) :=
  ok.all trivial

omit allows in
theorem Composed.ofResult {α β : Type} {r : Result α} {f : α → Tx β}
    (h : ∀ a, r = .ok a → P β (f a)) : P β (ofResult r >>= f) := by
  cases r with
  | error => exact ok.all trivial
  | ok a => exact h a rfl

omit allows in
theorem Composed.forEach {β : Type} {f : β → Tx Unit} (h : ∀ b, P Unit (f b)) (bs : List β) :
    P Unit (Prog.forEach f bs) := by
  induction bs with
  | nil => exact ok.ret ()
  | cons b bs ih => exact ok.bind (h b) fun _ => ih

theorem fire_ok (t : Trigger) : P _ (fire e t) := by
  cases t with
  | cancelOwnedChildren id new => exact ok.all (cancelOwnedChildren_all allows new)
  | manageIdempotencyKey id old new => exact ok.bind (ok.manage e id old new) fun _ => ok.ret _
  | resolveTaskResult id new =>
    exact ok.bind (ok.all (resolveTaskResult_all allows new)) fun _ => ok.ret _

theorem fireTriggers_ok (queue : List Trigger) : P _ (fireTriggers e depth queue) := by
  induction depth generalizing queue with
  | zero => cases queue <;> exact ok.all trivial
  | succ depth ih =>
    cases queue with
    | nil => exact ok.ret _
    | cons t rest => exact ok.bind (fire_ok allows ok t) fun nested => ih (nested ++ rest)

theorem updateAndFire_ok {updates : List RowUpdate} (idle : ∀ u ∈ updates, u.Idle) :
    P _ (updateAndFire e depth updates) := by
  refine ok.bind (ok.all Prog.all_snapshot) fun db => ?_
  refine ok.bind (ok.all (updateTasks_all allows idle)) fun updated => ?_
  exact ok.bind (fireTriggers_ok allows ok _) fun _ => ok.ret _

theorem cancelTask_ok : P _ (cancelTask e depth id) := by
  refine ok.bind (updateAndFire_ok allows ok fun u hu => ?_) fun _ => ok.ret _
  rw [List.mem_singleton.mp hu]
  exact cancelUpdate_idle _ _ _ _

theorem timeOutResultWait_ok (row : StepKey × Uuid) : P _ (timeOutResultWait e depth row) := by
  refine ok.bind (ok.all (saveCheckpoint_all allows _)) fun saved => ?_
  refine ok.bind (ok.all (foreignKeys_all allows saved.2)) fun _ => ?_
  refine ok.bind (ok.all (closeResultWait_all allows _)) fun _ => ?_
  refine ok.bind (ok.all Prog.all_snapshot) fun db => ?_
  refine ok.bind (ok.all (wake_all allows)) fun _ => ?_
  refine ok.bind (updateAndFire_ok allows ok fun u hu => ?_) fun _ => ok.ret _
  rw [List.mem_singleton.mp hu]
  exact cancelUpdate_idle _ _ _ _

theorem sweep_ok (sizes : List Nat) (n : Nat) (found : List StepKey) :
    P _ (sweep e depth sizes n found) := by
  induction sizes generalizing n found with
  | nil => exact ok.ret _
  | cons size sizes ih =>
    refine ok.bind (ok.all (fetchDue_all allows _ _)) fun fetched => ?_
    refine ok.bind (ok.forEach (fun row => timeOutResultWait_ok allows ok row) _) fun _ => ?_
    exact ok.bind (ih _ _) fun _ => ok.ret _

theorem program_ok (op : Operation) : P _ (op.program e depth) := by
  cases op with
  | waitForSignal => exact ok.all (waitForSignal_all allows ..)
  | waitForResult => exact ok.all (waitForResult_all allows ..)
  | emitSignal key value => exact ok.all (emitSignal_all allows key value)
  | completeTask l result =>
    refine ok.bind (updateAndFire_ok allows ok fun u hu => ?_) fun _ => ok.ret _
    rw [List.mem_singleton.mp hu]
    exact completeUpdate_idle e l result
  | completeTasks completions =>
    dsimp only [Operation.program]
    unfold completeTasks
    split
    swap
    · exact ok.all trivial
    refine ok.bind (updateAndFire_ok allows ok fun u hu => ?_) fun _ => ok.ret _
    obtain ⟨c, -, rfl⟩ := List.mem_map.mp hu
    exact completeUpdate_idle e c.lease c.result
  | failTask l error retry =>
    refine ok.bind (updateAndFire_ok allows ok fun u hu => ?_) fun _ => ok.ret _
    rw [List.mem_singleton.mp hu]
    exact failUpdate_idle e l error retry
  | failTasks failures =>
    dsimp only [Operation.program]
    unfold failTasks
    split
    swap
    · exact ok.all trivial
    refine ok.bind (updateAndFire_ok allows ok fun u hu => ?_) fun _ => ok.ret _
    obtain ⟨f, -, rfl⟩ := List.mem_map.mp hu
    exact failUpdate_idle e f.lease f.error f.retryMilliseconds
  | recoverExpired =>
    refine ok.ofResult fun n _ => ?_
    refine ok.bind (ok.all Prog.all_snapshot) fun db => ?_
    refine ok.bind (ok.all (lockExpired_all allows _ _ _)) fun expired => ?_
    refine ok.bind (ok.all (updateTasks_all allows fun u hu => ?_)) fun updated => ?_
    · obtain ⟨id, -, rfl⟩ := List.mem_map.mp hu
      exact recoverUpdate_idle e id
    · exact ok.bind (fireTriggers_ok allows ok _) fun _ => ok.ret _
  | recoverResultWaitTimeouts batches limit =>
    refine ok.ofResult fun n _ => ?_
    refine ok.bind (ok.all Prog.all_snapshot) fun db => ?_
    exact ok.bind (sweep_ok allows ok ..) fun _ => ok.ret _
  | cancelTask id => exact ok.bind (cancelTask_ok allows ok) fun _ => ok.ret _
  | adminCancelTask id actor =>
    exact ok.ofResult fun _ _ => ok.bind (cancelTask_ok allows ok) fun _ => ok.ret _

end Operations

theorem program_all (allows : Allows locks writes) (keys : AllowsKeys locks writes)
    (op : Operation) : (op.program e depth).All locks writes :=
  program_ok (P := fun _ prog => prog.All locks writes) allows
    ⟨id, .bind, fun _ _ => manageIdempotencyKey_all keys⟩ op

end Pgtask.Concurrent
