import Mathlib.Data.Fintype.Basic
import Pgtask.Concurrent.Promise

/-!
# No lost wake-up

In every interleaving of the transactions of `Programs`, no committed task waits
for a signal that is there or for a child that has finished.
-/

open Sql ReadCommitted List Promise

namespace Pgtask.Concurrent

variable {id : Uuid} {value : Json} {k : StepKey} {ks : List StepKey} {new : Task} {n depth : Nat}
  {e : Env} {snapshot : Database} {key : SignalKey} {l : Lease} {A : Promise.Assn Database RowId Row}

variable {σ : StepKey → SignalKey → Prop} {τ : StepKey → Uuid → Prop} {held : Locks}
  {ws : Writes RowId Row} {db : Database}

/-! ## Statements that touch no wait -/

section Statements

variable {A : Promise.Assn Database RowId Row} {α β : Type}
  {Q : α → Promise.Assn Database RowId Row}

theorem foreignKey_wp (hA : Robust A) (h : A held ws db) :
    promise.wp (fun _ => A) (foreignKey id) held ws db := by
  refine wp_lockRow hA.stable h fun db' h' => ?_
  split
  · exact hA.lock h'
  · trivial

theorem foreignKeys_wp (hA : Robust A) {ids : List Uuid} (h : A held ws db) :
    promise.wp (fun _ => A) (Prog.forEach foreignKey ids) held ws db :=
  wp_forEach (I := fun _ => A) (fun _ _ _ _ _ => foreignKey_wp hA) h

theorem saveCheckpoint_wp (hA : Robust A) (h : A held ws db) :
    promise.wp (fun _ => A) (saveCheckpoint value k) held ws db := by
  refine wp_ofResult fun _ _ => ?_
  refine wp_lockRow hA.stable h fun db' h' => ?_
  have hw : Writable ((RowId.checkpoint k, .noKeyUpdate) :: held) (.checkpoint k) :=
    ⟨_, mem_cons_self, rfl⟩
  split
  · exact hA.write (hA.lock h') hw rfl
  · exact hA.write (hA.lock h') hw rfl

theorem saveCheckpoints_wp (hA : Robust A) (h : A held ws db) :
    promise.wp (fun _ => A) (saveCheckpoints value ks) held ws db := by
  refine wp_collect (I := fun _ _ => A) (fun cs k ks held ws db h => ?_) h
  exact wp_then (saveCheckpoint_wp hA h) fun _ _ _ _ h' => h'

theorem enforceQueueCapacity_wp (hA : Robust A) {old : Task} (h : A held ws db) :
    promise.wp (fun _ => A) (enforceQueueCapacity old new) held ws db := by
  unfold enforceQueueCapacity
  split
  · refine wp_snapshot hA.stable h fun db' _ h' => ?_
    split
    · refine wp_lockRow hA.stable h' fun db'' h'' => ?_
      split
      · split
        · exact hA.write (hA.lock h'') ⟨_, mem_cons_self, rfl⟩ rfl
        · exact hA.lock h''
      · exact hA.lock h''
    · exact h'
  · exact h

theorem updateAttempt_wp (hA : Robust A) {f : Attempt → Attempt}
    (h : A held ws db) : promise.wp (fun _ => A) (updateAttempt id n f) held ws db := by
  refine wp_lockRow hA.stable h fun db' h' => ?_
  split
  · refine wp_ofResult fun _ _ => ?_
    exact hA.write (hA.lock h') ⟨_, mem_cons_self, rfl⟩ rfl
  · exact hA.lock h'

theorem manageIdempotencyKey_wp (hA : Robust A) {old : Task} (h : A held ws db) :
    promise.wp (fun _ => A) (manageIdempotencyKey e id old new) held ws db := by
  unfold manageIdempotencyKey
  split
  · exact h
  · refine wp_snapshot hA.stable h fun db' _ h' => ?_
    split
    · refine wp_lockRow hA.stable h' fun db'' h'' => ?_
      split
      · split
        · exact hA.write (hA.lock h'') ⟨_, mem_cons_self, rfl⟩ rfl
        · exact hA.lock h''
      · exact hA.lock h''
    · exact h'

theorem lockExpired_wp (hA : Robust A) {queueName : String} {ids : List Uuid}
    (h : A held ws db) : promise.wp (fun _ => A) (lockExpired e queueName n ids) held ws db := by
  induction ids generalizing n held ws db with
  | nil => cases n <;> exact h
  | cons id ids ih =>
    cases n with
    | zero => exact h
    | succ n =>
      refine wp_tryLockRow hA.stable h fun db' h' => ⟨ih h', ?_⟩
      split
      · exact wp_then (ih (hA.lock h')) fun _ _ _ _ h'' => h''
      · exact ih (hA.lock h')

end Statements

/-! ## Statements that end waits -/

theorem Owing.restate {σ' : StepKey → SignalKey → Prop} {τ' : StepKey → Uuid → Prop}
    (h : Owing σ τ held ws db)
    (signals : ∀ k w, OpenWait (view ws db) k w → σ k (w.key k) → σ' k (w.key k))
    (results : ∀ k w t, OpenResult (view ws db) k w → (view ws db).tasks.get? k.taskId = some t →
      t.state = .waiting → τ k w.resultTaskId → τ' k w.resultTaskId) : Owing σ' τ' held ws db :=
  ⟨h.1, fun k w hk hs => signals k w hk (h.2.signals k w hk hs),
    fun k w t hk ht hw hf => results k w t hk ht hw (h.2.results k w t hk ht hw hf), h.2.parked⟩

theorem wake_wp (h : Owing σ τ held ws db) :
    promise.wp (fun _ => Owing σ τ) (wake e snapshot id) held ws db := by
  unfold wake
  split
  · refine wp_lockRow owing_stable h fun db' h' => ?_
    have h'' := owing_robust.lock (l := (RowId.task id, .noKeyUpdate)) h'
    split
    · rename_i t ht
      split
      · refine wp_ofResult fun _ _ => ?_
        refine (h''.task ⟨_, mem_cons_self, rfl⟩ ht ?_).restate (fun _ _ _ hs => hs)
          fun _ _ _ _ _ _ hr => ?_
        · simp
        · exact hr.resolve_right fun hr => Bool.noConfusion hr.2.2
      · exact h''
    · exact h''
  · exact h

theorem closeWait_wp {outcome : WaitOutcome} (h : Owing σ τ held ws db) :
    promise.wp (fun _ => Owing (fun j s => σ j s ∧ j ≠ k) τ) (closeWait e outcome k) held ws db := by
  refine wp_lockRow owing_stable h fun db' h' => ?_
  have h'' := owing_robust.lock (l := (RowId.wait k, .noKeyUpdate)) h'
  split
  · exact h''.closeWait ⟨_, mem_cons_self, rfl⟩ nofun
  · rename_i hnone
    refine h''.restate (fun j w hj hs => ⟨hs, ?_⟩) fun _ _ _ _ _ _ hr => hr
    rintro rfl
    cases hnone.symm.trans hj.1

theorem closeResultWait_wp {outcome : WaitOutcome} (h : Owing σ τ held ws db) :
    promise.wp (fun _ => Owing σ (fun j c => τ j c ∧ j ≠ k)) (closeResultWait e outcome k) held ws
      db := by
  refine wp_lockRow owing_stable h fun db' h' => ?_
  have h'' := owing_robust.lock (l := (RowId.resultWait k, .noKeyUpdate)) h'
  split
  · exact h''.closeResultWait ⟨_, mem_cons_self, rfl⟩ nofun
  · rename_i hnone
    refine h''.restate (fun _ _ _ hs => hs) fun j w t hj _ _ hr => ⟨hr, ?_⟩
    rintro rfl
    cases hnone.symm.trans hj.1

/-! ## Triggers -/

def owedBy (queue : List Trigger) (_ : StepKey) (child : Uuid) : Prop :=
  ∃ new, .resolveTaskResult child new ∈ queue

def RowUpdate.Idle (u : RowUpdate) : Prop :=
  ∀ db t new, u.set db t = .ok (some new) → new.state ≠ .waiting ∧ new.state ≠ .running

theorem queuedBy_append (xs ys : List (Option Updated)) :
    queuedBy (xs ++ ys) = queuedBy xs ++ queuedBy ys := by
  simp [queuedBy]

theorem updateRow_wp {u : RowUpdate} (idle : u.Idle) (h : Owing σ τ held ws db) :
    promise.wp (fun out => Owing σ fun j c => τ j c ∨ owedBy (queuedBy out) j c)
      (updateRow snapshot u) held ws db := by
  have none_wp : ∀ {held ws db}, Owing σ τ held ws db →
      Owing σ (fun j c => τ j c ∨ owedBy (queuedBy [none]) j c) held ws db :=
    fun h => h.restate (fun _ _ _ hs => hs) fun _ _ _ _ _ _ hr => .inl hr
  unfold updateRow
  split
  · refine wp_lockRow owing_stable h fun db' h' => ?_
    have h'' := owing_robust.lock (l := (RowId.task u.id, .noKeyUpdate)) h'
    split
    · exact none_wp h''
    · rename_i t ht
      refine wp_ofResult fun new hnew => ?_
      split
      · exact none_wp h''
      · rename_i new
        have hsees : Owing σ τ ((RowId.task u.id, .noKeyUpdate) :: held) ws db' ∧
            Sees u.id t ((RowId.task u.id, .noKeyUpdate) :: held) ws db' :=
          ⟨h'', ⟨_, mem_cons_self, rfl⟩, ht⟩
        refine wp_then (enforceQueueCapacity_wp (owing_robust.sees u.id t) hsees)
          fun _ held ws db hsees => ?_
        refine wp_ofResult fun _ _ => ?_
        refine wp_put ?_
        refine (hsees.1.task hsees.2.1 hsees.2.2 (idle _ _ _ hnew)).restate (fun _ _ _ hs => hs)
          fun _ _ _ _ _ _ hr => hr.imp_right ?_
        rintro ⟨hid, ho, hterminal⟩
        rw [hid]
        exact ⟨new, by simp [queuedBy, afterUpdate, ho, hterminal]⟩
  · exact none_wp h

theorem updateTasks_wp {updates : List RowUpdate}
    (idle : ∀ u ∈ updates, u.Idle) (h : Owing σ τ held ws db) :
    promise.wp (fun out => Owing σ fun j c => τ j c ∨ owedBy (queuedBy out) j c)
      (updateTasks snapshot updates) held ws db := by
  -- The loop owes the triggers of the rows it has updated.
  have loop := wp_collect (p := promise) (f := updateRow snapshot) (l := updates)
    (I := fun outs rest held ws db => (∀ u ∈ rest, u.Idle) ∧
      Owing σ (fun j c => τ j c ∨ owedBy (queuedBy outs) j c) held ws db)
    (fun outs u rest held ws db h => ?_)
    ⟨idle, h.restate (fun _ _ _ hs => hs) fun _ _ _ _ _ _ hr => .inl hr⟩
  · refine wp_then loop fun outs held ws db h => ?_
    refine wp_then (wp_forEach
      (I := fun _ => Owing σ fun j c => τ j c ∨ owedBy (queuedBy outs) j c)
      (fun _ _ _ _ _ => updateAttempt_wp owing_robust) h.2) fun _ _ _ _ h => h
  · obtain ⟨idle, h⟩ := h
    refine wp_mono (fun out held ws db h => ⟨fun v hv => idle v (mem_cons_of_mem _ hv),
      h.restate (fun _ _ _ hs => hs) fun _ _ _ _ _ _ hr => ?_⟩)
      (updateRow_wp (idle u mem_cons_self) h)
    rw [queuedBy_append]
    rcases hr with (hr | ⟨new, hr⟩) | ⟨new, hr⟩
    · exact .inl hr
    · exact .inr ⟨new, mem_append_left _ hr⟩
    · exact .inr ⟨new, mem_append_right _ hr⟩

theorem cancelUpdate_idle (e : Env) (error : Json) (cond : Task → Bool) (id : Uuid) :
    (cancelUpdate e error cond id).Idle := by
  intro db t new hnew
  unfold cancelUpdate at hnew
  simp only [Except.ok.injEq, Option.ite_none_right_eq_some, Option.some.injEq] at hnew
  rw [← hnew.2]
  exact ⟨nofun, nofun⟩

theorem closeOwn_wp {ρ : Type} {table : Database → Table StepKey ρ}
    {resolvedAt : ρ → Option Timestamp} {close : StepKey → Tx Unit}
    (step : ∀ k held ws db, Owing σ τ held ws db →
      promise.wp (fun _ => Owing σ τ) (close k) held ws db) (h : Owing σ τ held ws db) :
    promise.wp (fun _ => Owing σ τ) (closeOwn table resolvedAt close id) held ws db :=
  wp_snapshot owing_stable h fun _ _ h' =>
    wp_forEach (I := fun _ => Owing σ τ) (fun k _ held ws db => step k held ws db) h'

theorem lockMatching_wp {rest : List StepKey}
    (h : Owing σ (fun j c => τ j c ∨ c = id ∧ j ∈ ks ++ k :: rest) held ws db) :
    promise.wp (fun found => Owing σ fun j c => τ j c ∨ c = id ∧ j ∈ (ks ++ found) ++ rest)
      (lockMatching id k) held ws db := by
  refine wp_lockRow owing_stable h fun db' h' => ?_
  have h'' := owing_robust.lock (l := (RowId.resultWait k, .update)) h'
  -- A row that no longer waits for this task is not owed its result.
  have dropped : (∀ w, OpenResult (view ws db') k w → w.resultTaskId ≠ id) →
      Owing σ (fun j c => τ j c ∨ c = id ∧ j ∈ (ks ++ []) ++ rest)
        ((RowId.resultWait k, .update) :: held) ws db' := by
    intro hk
    refine h''.restate (fun _ _ _ hs => hs) fun j w t hj _ _ hr => hr.imp_right fun ⟨hid, hm⟩ => ?_
    refine ⟨hid, ?_⟩
    have hne : j ≠ k := by
      rintro rfl
      exact hk w hj hid
    simpa [hne] using hm
  split
  · rename_i w hw
    change Owing σ _ _ ws db'
    split
    · simpa using h''
    · rename_i hnot
      refine dropped fun w' hw' hid => hnot ?_
      cases hw.symm.trans hw'.1
      simp [hid, hw'.2]
  · rename_i hnone
    refine dropped fun w' hw' => ?_
    cases hnone.symm.trans hw'.1

theorem resolveTaskResult_wp (h : Owing σ (fun j c => τ j c ∨ c = id) held ws db) :
    promise.wp (fun _ => Owing σ τ) (resolveTaskResult e id new) held ws db := by
  refine wp_snapshot owing_stable h fun db' _ h' => ?_
  -- Whoever waits for the task is in the snapshot.
  have found : Owing σ (fun j c => τ j c ∨ c = id ∧
      j ∈ [] ++ ((view ws db').resultWaits.select fun k w => w.resultTaskId = id &&
        w.resolvedAt.isNone && ((view ws db').tasks.get? k.taskId).any (·.state = .waiting)).map
          Prod.fst) held ws db' := by
    refine h'.restate (fun _ _ _ hs => hs) fun j w t hj ht hwait hr => hr.imp_right fun hid => ?_
    refine ⟨hid, List.mem_map.mpr ⟨(j, w), Table.mem_select.mpr ⟨hj.1, ?_⟩, rfl⟩⟩
    simp [hid, hj.2, ht, hwait]
  refine wp_then (wp_collect
    (I := fun ks rest => Owing σ fun j c => τ j c ∨ c = id ∧ j ∈ ks ++ rest)
    (fun _ _ _ _ _ _ => lockMatching_wp) found) fun ks held ws db h => ?_
  refine wp_then (saveCheckpoints_wp owing_robust h) fun keys held ws db h => ?_
  refine wp_then (wp_forEach (I := fun _ => Owing σ _)
    (fun _ _ _ _ _ => wake_wp) h) fun _ held ws db h => ?_
  refine wp_then (wp_forEach
    (I := fun ks => Owing σ fun j c => τ j c ∨ c = id ∧ j ∈ ks)
    (fun k ks held ws db h => wp_mono (fun _ held ws db h => ?_) (closeResultWait_wp h)) ?_)
    fun _ held ws db h => ?_
  · refine h.restate (fun _ _ _ hs => hs) fun j w t _ _ _ hr => hr.1.imp_right fun hid => ?_
    exact ⟨hid.1, (mem_cons.mp hid.2).resolve_left hr.2⟩
  · simpa using h
  · have h : Owing σ τ held ws db := h.restate (fun _ _ _ hs => hs) fun _ _ _ _ _ _ hr =>
      hr.resolve_right fun hr => not_mem_nil hr.2
    refine wp_then (foreignKeys_wp owing_robust h) fun _ held ws db h => ?_
    refine wp_then (closeOwn_wp (fun k held ws db h => wp_mono
      (fun _ _ _ _ h => h.restate (fun _ _ _ hs => hs) fun _ _ _ _ _ _ hr => hr.1)
      (closeResultWait_wp h)) h) fun _ held ws db h => ?_
    exact closeOwn_wp (fun k held ws db h => wp_mono
      (fun _ _ _ _ h => h.restate (fun _ _ _ hs => hs.1) fun _ _ _ _ _ _ hr => hr)
      (closeWait_wp h)) h

theorem owedBy_cons {trigger : Trigger} {rest : List Trigger} {j : StepKey} {c : Uuid}
    (h : owedBy (trigger :: rest) j c) :
    owedBy rest j c ∨ ∃ new, trigger = .resolveTaskResult c new := by
  obtain ⟨new, hm⟩ := h
  rcases mem_cons.mp hm with heq | hm
  · exact .inr ⟨new, heq.symm⟩
  · exact .inl ⟨new, hm⟩

theorem fire_wp {trigger : Trigger} {rest : List Trigger}
    (h : Owing σ (owedBy (trigger :: rest)) held ws db) :
    promise.wp (fun nested => Owing σ (owedBy (nested ++ rest))) (fire e trigger) held ws db := by
  cases trigger with
  | cancelOwnedChildren id new =>
    have h : Owing σ (owedBy rest) held ws db := h.restate (fun _ _ _ hs => hs)
      fun _ _ _ _ _ _ hr => (owedBy_cons hr).resolve_right fun ⟨_, heq⟩ => Trigger.noConfusion heq
    refine wp_snapshot owing_stable h fun db' _ h' => ?_
    refine wp_then (updateTasks_wp (fun u hu => ?_) h') fun updated held ws db h => ?_
    · obtain ⟨c, -, rfl⟩ := List.mem_map.mp hu
      exact cancelUpdate_idle _ _ _ _
    · refine h.restate (fun _ _ _ hs => hs) fun _ _ _ _ _ _ hr => ?_
      rcases hr with ⟨new, hm⟩ | ⟨new, hm⟩
      · exact ⟨new, mem_append_right _ hm⟩
      · exact ⟨new, mem_append_left _ hm⟩
  | manageIdempotencyKey id old new =>
    have h : Owing σ (owedBy rest) held ws db := h.restate (fun _ _ _ hs => hs)
      fun _ _ _ _ _ _ hr => (owedBy_cons hr).resolve_right fun ⟨_, heq⟩ => Trigger.noConfusion heq
    exact wp_then (manageIdempotencyKey_wp owing_robust h) fun _ _ _ _ h => h
  | resolveTaskResult id new =>
    refine wp_then (resolveTaskResult_wp (h.restate (fun _ _ _ hs => hs)
      fun _ _ _ _ _ _ hr => (owedBy_cons hr).imp_right fun ⟨_, heq⟩ => ?_)) fun _ _ _ _ h => h
    cases heq
    rfl

theorem fireTriggers_wp {queue : List Trigger} (h : Owing σ (owedBy queue) held ws db) :
    promise.wp (fun _ => Owing σ nothing) (fireTriggers e depth queue) held ws db := by
  induction depth generalizing queue held ws db with
  | zero =>
    cases queue with
    | nil => exact h.restate (fun _ _ _ hs => hs) fun _ _ _ _ _ _ ⟨_, hm⟩ => not_mem_nil hm
    | cons => trivial
  | succ depth ih =>
    cases queue with
    | nil => exact h.restate (fun _ _ _ hs => hs) fun _ _ _ _ _ _ ⟨_, hm⟩ => not_mem_nil hm
    | cons trigger rest => exact wp_then (fire_wp h) fun _ _ _ _ h => ih h

/-! ## Calls -/

abbrev Clear : Promise.Assn Database RowId Row := Owing nothing nothing

theorem fireQueued_wp {updated : List (Option Updated)}
    (h : Owing nothing (fun j c => nothing j c ∨ owedBy (queuedBy updated) j c) held ws db) :
    promise.wp (fun _ => Clear) (fireTriggers e depth (queuedBy updated)) held ws db :=
  fireTriggers_wp (h.restate (fun _ _ _ hs => hs) fun _ _ _ _ _ _ hr => hr.resolve_left id)

theorem updateAndFire_wp {updates : List RowUpdate}
    (idle : ∀ u ∈ updates, u.Idle) (h : Clear held ws db) :
    promise.wp (fun _ => Clear) (updateAndFire e depth updates) held ws db := by
  refine wp_snapshot owing_stable h fun db' _ h' => ?_
  refine wp_then (updateTasks_wp idle h') fun updated held ws db h => ?_
  exact wp_then (fireQueued_wp h) fun _ _ _ _ h => h

theorem Task.failedWith_idle (e : Env) (t : Task) (failures : Nat) (error : Option Json)
    (retry : Bool) (runAt : Timestamp) :
    (t.failedWith e failures error retry runAt).state ≠ .waiting ∧
      (t.failedWith e failures error retry runAt).state ≠ .running := by
  unfold Task.failedWith
  dsimp only
  split <;> exact ⟨nofun, nofun⟩

theorem completeUpdate_idle (e : Env) (l : Lease) (result : Option Json) :
    (completeUpdate e l result).Idle := by
  intro db t new hnew
  unfold completeUpdate at hnew
  simp only [Except.ok.injEq, Option.ite_none_right_eq_some, Option.some.injEq] at hnew
  rw [← hnew.2]
  exact ⟨nofun, nofun⟩

theorem failUpdate_idle (e : Env) (l : Lease) (error : Option Json) (retry : Option Int) :
    (failUpdate e l error retry).Idle := by
  intro db t new hnew
  unfold failUpdate at hnew
  dsimp only at hnew
  split at hnew
  · obtain ⟨failures, -, hnew⟩ := Checked.bind_eq_ok.mp hnew
    cases hnew
    exact Task.failedWith_idle ..
  · cases hnew

theorem recoverUpdate_idle (e : Env) (id : Uuid) : (recoverUpdate e id).Idle := by
  intro db t new hnew
  obtain ⟨failures, -, hnew⟩ := Checked.bind_eq_ok.mp hnew
  cases hnew
  exact Task.failedWith_idle ..

theorem recoverExpired_wp {queueName : String} {count : Int} (h : Clear held ws db) :
    promise.wp (fun _ => Clear) (recoverExpired e depth queueName count) held ws db := by
  refine wp_ofResult fun n _ => ?_
  refine wp_snapshot owing_stable h fun db' _ h' => ?_
  refine wp_then (lockExpired_wp owing_robust h') fun expired held ws db h => ?_
  refine wp_then (updateTasks_wp (fun u hu => ?_) h) fun updated held ws db h => ?_
  · obtain ⟨id, -, rfl⟩ := List.mem_map.mp hu
    exact recoverUpdate_idle e id
  · exact wp_then (fireQueued_wp h) fun _ _ _ _ h => h

theorem cancelTask_wp (h : Clear held ws db) :
    promise.wp (fun _ => Clear) (cancelTask e depth id) held ws db := by
  refine wp_then (updateAndFire_wp (fun u hu => ?_) h) fun _ _ _ _ h => h
  rw [mem_singleton.mp hu]
  exact cancelUpdate_idle _ _ _ _

/-! ### Signals -/

theorem saveSignal_wp (h : Clear held ws db) :
    promise.wp (fun _ => Owing (fun _ s => s = key) nothing) (saveSignal key value) held ws db := by
  refine wp_ofResult fun _ _ => ?_
  refine wp_lockRow owing_stable h fun db' h' => ?_
  have h'' := owing_robust.lock (l := (RowId.signal key, .noKeyUpdate)) h'
  split
  · rename_i stored hstored
    exact (h''.sameSignal ⟨_, mem_cons_self, rfl⟩ hstored).restate (fun _ _ _ => False.elim)
      fun _ _ _ _ _ _ hr => hr
  · -- The foreign key's lock on the task is what a task that parks would have to wait for.
    refine wp_bind (wp_lockRow owing_stable h'' fun db'' h'' => ?_)
    split
    · have h3 := owing_robust.lock (l := (RowId.task key.taskId, .keyShare)) h''
      exact (h3.signal ⟨.noKeyUpdate, by simp, rfl⟩ mem_cons_self).restate
        (fun _ _ _ hs => hs.resolve_left id) fun _ _ _ _ _ _ hr => hr
    · trivial

theorem lockAsking_wp {rest : List StepKey}
    (h : Owing (fun j s => s = key ∧ j ∈ ks ++ k :: rest) τ held ws db) :
    promise.wp (fun found => Owing (fun j s => s = key ∧ j ∈ (ks ++ found) ++ rest) τ)
      (lockAsking key k) held ws db := by
  refine wp_lockRow owing_stable h fun db' h' => ?_
  have h'' := owing_robust.lock (l := (RowId.wait k, .update)) h'
  have dropped : (∀ w, OpenWait (view ws db') k w → w.key k ≠ key) →
      Owing (fun j s => s = key ∧ j ∈ (ks ++ []) ++ rest) τ ((RowId.wait k, .update) :: held) ws
        db' := by
    intro hk
    refine h''.restate (fun j w hj ⟨hkey, hm⟩ => ⟨hkey, ?_⟩) fun _ _ _ _ _ _ hr => hr
    have hne : j ≠ k := by
      rintro rfl
      exact hk w hj hkey
    simpa [hne] using hm
  split
  · rename_i w hw
    change Owing _ τ _ ws db'
    split
    · simpa using h''
    · rename_i hnot
      refine dropped fun w' hw' hkey => hnot ?_
      cases hw.symm.trans hw'.1
      subst hkey
      simp [asksFor, Wait.key, hw'.2]
  · rename_i hnone
    refine dropped fun w' hw' => ?_
    cases hnone.symm.trans hw'.1

theorem emitSignal_wp (h : Clear held ws db) :
    promise.wp (fun _ => Clear) (emitSignal e key value) held ws db := by
  refine wp_then (saveSignal_wp h) fun stored held ws db h => ?_
  refine wp_snapshot owing_stable h fun db' _ h' => ?_
  -- Whoever waits for the signal is in the snapshot.
  have found : Owing (fun j s => s = key ∧
      j ∈ [] ++ ((view ws db').waits.select (asksFor key)).map Prod.fst) nothing held ws db' := by
    refine h'.restate (fun j w hj hkey => ⟨hkey, ?_⟩) fun _ _ _ _ _ _ hr => hr
    refine List.mem_map.mpr ⟨(j, w), Table.mem_select.mpr ⟨hj.1, ?_⟩, rfl⟩
    subst hkey
    simp [asksFor, Wait.key, hj.2]
  refine wp_then (wp_collect
    (I := fun ks rest => Owing (fun j s => s = key ∧ j ∈ ks ++ rest) nothing)
    (fun _ _ _ _ _ _ => lockAsking_wp) found) fun ks held ws db h => ?_
  refine wp_then (saveCheckpoints_wp owing_robust h) fun keys held ws db h => ?_
  refine wp_then (wp_forEach (I := fun _ => Owing _ nothing)
    (fun _ _ _ _ _ => wake_wp) h) fun _ held ws db h => ?_
  refine wp_then (wp_forEach
    (I := fun ks => Owing (fun j s => s = key ∧ j ∈ ks) nothing)
    (fun k ks held ws db h => wp_mono (fun _ held ws db h => ?_) (closeWait_wp h)) ?_)
    fun _ held ws db h => ?_
  · refine h.restate (fun j w _ hs => ⟨hs.1.1, ?_⟩) fun _ _ _ _ _ _ hr => hr
    exact (mem_cons.mp hs.1.2).resolve_left hs.2
  · simpa using h
  · have h : Clear held ws db := h.restate (fun _ _ _ hs => not_mem_nil hs.2)
      fun _ _ _ _ _ _ hr => hr
    exact wp_then (foreignKeys_wp owing_robust h) fun _ _ _ _ h => h

/-! ### Waits -/

def Locked (id : Uuid) (t : Task) : Promise.Assn Database RowId Row := fun held ws db =>
  (Clear held ws db ∧ Sees id t held ws db) ∧ Exclusive held id

theorem locked_robust (id : Uuid) (t : Task) : Robust (Locked id t) :=
  (owing_robust.sees id t).exclusive id

theorem lockFenced_wp (h : Clear held ws db) :
    promise.wp (fun fenced held ws db => Clear held ws db ∧ ∀ t, fenced = some t →
      Locked l.taskId t held ws db ∧ t.state = .running) (lockFenced l) held ws db := by
  refine wp_snapshot owing_stable h fun db' _ h' => ?_
  split
  · refine wp_lockRow owing_stable h' fun db'' h'' => ?_
    have h3 := owing_robust.lock (l := (RowId.task l.taskId, .update)) h''
    refine ⟨h3, fun t ht => ?_⟩
    obtain ⟨hrow, howns⟩ := Option.filter_eq_some_iff.mp ht
    refine ⟨⟨⟨h3, ⟨_, mem_cons_self, rfl⟩, hrow⟩, mem_cons_self⟩, ?_⟩
    simp only [Lease.owns, Bool.and_eq_true, decide_eq_true_eq] at howns
    exact howns.1.1.2
  · exact ⟨h', fun t ht => by cases ht⟩

theorem answerReady_wp (h : Clear held ws db) :
    promise.wp (fun _ => Clear) (answerReady k value) held ws db := by
  refine wp_then (saveCheckpoint_wp owing_robust h) fun _ held ws db h => ?_
  exact wp_then (foreignKeys_wp owing_robust h) fun _ _ _ _ h => h

theorem park_wp {t : Task} (h : Clear held (ws ++ [⟨.task id, some t.parked⟩]) db) :
    promise.wp (fun _ => Clear) (park e id t) held ws db := by
  refine wp_ofResult fun _ _ => ?_
  refine wp_put ?_
  exact wp_then (updateAttempt_wp owing_robust h) fun _ _ _ _ h => h

theorem foreignKeyOf_wp (hA : Robust A) {ρ : Type} {row : Option ρ} (h : A held ws db) :
    promise.wp (fun _ => A) (foreignKeyOf id row) held ws db := by
  cases row with
  | none => exact foreignKey_wp hA h
  | some _ => exact h

/-- The row of a wait is the last thing written, over a state that satisfies `A`. -/
def JustWrote (A : Promise.Assn Database RowId Row) (r : RowId) (v : Row r) :
    Promise.Assn Database RowId Row := fun held ws db =>
  ∃ ws₀, ws = ws₀ ++ [⟨r, some v⟩] ∧ Writable held r ∧ A held ws₀ db

theorem armWait_wp (hA : Robust A) {w : Wait} (h : A held ws db) :
    promise.wp (fun _ => JustWrote A (.wait k) w) (armWait k w) held ws db := by
  refine wp_ofResult fun _ _ => ?_
  refine wp_snapshot hA.stable h fun db' _ h' => ?_
  split
  · trivial
  · refine wp_lockRow hA.stable h' fun db'' h'' => ?_
    refine wp_then (foreignKeyOf_wp (hA.writable (.wait k))
      ⟨hA.lock h'', _, mem_cons_self, rfl⟩) fun _ held ws db h => ?_
    exact ⟨ws, rfl, h.2, h.1⟩

theorem armResultWait_wp (hA : Robust A) {w : ResultWait} (h : A held ws db) :
    promise.wp (fun _ => JustWrote A (.resultWait k) w) (armResultWait k w) held ws db := by
  refine wp_ofResult fun _ _ => ?_
  refine wp_snapshot hA.stable h fun db' _ h' => ?_
  split
  · trivial
  · have hA' := hA.writable (.resultWait k)
    refine wp_lockRow hA.stable h' fun db'' h'' => ?_
    refine wp_then (foreignKeyOf_wp hA' ⟨hA.lock h'', _, mem_cons_self, rfl⟩)
      fun _ held ws db h => ?_
    refine wp_then (foreignKey_wp hA' h) fun _ held ws db h => ?_
    exact ⟨ws, rfl, h.2, h.1⟩

theorem waitForSignal_wp {stepName : String} {occurrence : Int}
    {signalName : String} {signalOccurrence : Int} {timeout : Option Int} (h : Clear held ws db) :
    promise.wp (fun _ => Clear)
      (waitForSignal e l stepName occurrence signalName signalOccurrence timeout) held ws db := by
  unfold waitForSignal
  split
  · trivial
  refine wp_then (lockFenced_wp h) fun fenced held ws db h => ?_
  cases fenced with
  | none => exact h.1
  | some t =>
    obtain ⟨locked, running⟩ := h.2 t rfl
    refine wp_snapshot (locked_robust _ t).stable locked fun db' _ locked => ?_
    split
    · exact locked.1.1
    refine wp_snapshot (locked_robust _ t).stable locked fun db' _ locked => ?_
    split
    · exact answerReady_wp locked.1.1
    · rename_i absent
      have hA := (locked_robust l.taskId t).noSignal ⟨l.taskId, signalName, signalOccurrence⟩
        fun h => h.2
      refine wp_then (armWait_wp hA ⟨locked, absent⟩) fun _ held ws db h => ?_
      obtain ⟨ws, rfl, hw, ⟨⟨clear, -, row⟩, lock⟩, absent⟩ := h
      refine park_wp (Owing.swap (fun _ => rfl) ?_)
      refine Owing.openWait (clear.park lock row running) hw lock ?_
      rw [view_concat]
      exact absent

theorem lockChild_wp (hA : Robust A) {parent child : Uuid} (h : A held ws db) :
    promise.wp (fun found held ws db => A held ws db ∧ ∀ c, found = some c →
      Sees child c held ws db) (lockChild parent child) held ws db := by
  refine wp_snapshot hA.stable h fun db' _ h' => ?_
  split
  · refine wp_lockRow hA.stable h' fun db'' h'' => ?_
    refine ⟨hA.lock h'', fun c hc => ⟨⟨_, mem_cons_self, rfl⟩, ?_⟩⟩
    exact (Option.filter_eq_some_iff.mp hc).1
  · exact ⟨h', fun c hc => by cases hc⟩

theorem waitForResult_wp {stepName : String} {occurrence : Int} {child : Uuid}
    {timeout : Option Int} (h : Clear held ws db) :
    promise.wp (fun _ => Clear) (waitForResult e l stepName occurrence child timeout) held ws
      db := by
  unfold waitForResult
  split
  · trivial
  rename_i distinct
  refine wp_then (lockFenced_wp h) fun fenced held ws db h => ?_
  cases fenced with
  | none => exact h.1
  | some t =>
    obtain ⟨locked, running⟩ := h.2 t rfl
    refine wp_snapshot (locked_robust _ t).stable locked fun db' _ locked => ?_
    split
    · exact locked.1.1
    refine wp_then (lockChild_wp (locked_robust _ t) locked) fun found held ws db h => ?_
    cases found with
    | none => trivial
    | some c =>
      dsimp only
      split
      · exact answerReady_wp h.1.1.1
      · rename_i unfinished
        have hA := (locked_robust l.taskId t).sees child c
        refine wp_then (armResultWait_wp hA ⟨h.1, h.2 c rfl⟩) fun _ held ws db h => ?_
        obtain ⟨ws, rfl, hw, ⟨⟨clear, -, row⟩, lock⟩, hchild, hrow⟩ := h
        have hne : child ≠ l.taskId := by
          rintro rfl
          simp at distinct
        have get : ∀ j, (view (ws ++ [⟨RowId.task l.taskId, some t.parked⟩]) db).tasks.get? j =
            if j = l.taskId then some t.parked else (view ws db).tasks.get? j := fun j => by
          rw [view_concat]
          exact Table.get?_set _ l.taskId j (some t.parked)
        refine park_wp (Owing.swap (fun _ => rfl) ?_)
        refine Owing.openResult (t := t.parked) (clear.park lock row running) hw lock hchild ?_ (by simp [Task.parked])
          ⟨c, ?_, ?_⟩
        · rw [get, if_pos rfl]
        · rw [get, if_neg hne, hrow]
        · simpa [TaskState.outstanding] using unfinished

/-! ### Timeouts -/

theorem fetchDue_wp (hA : Robust A) (h : A held ws db) :
    promise.wp (fun _ => A) (fetchDue e n ks) held ws db := by
  induction ks generalizing n held ws db with
  | nil => cases n <;> exact h
  | cons k ks ih =>
    cases n with
    | zero => exact h
    | succ n =>
      refine wp_tryLockRow hA.stable h fun db' h' => ⟨ih h', ?_⟩
      split
      · exact wp_then (ih (hA.lock h')) fun _ _ _ _ h'' => h''
      · exact ih (hA.lock h')

theorem timeOutResultWait_wp {row : StepKey × Uuid} (h : Clear held ws db) :
    promise.wp (fun _ => Clear) (timeOutResultWait e depth row) held ws db := by
  refine wp_then (saveCheckpoint_wp owing_robust h) fun _ held ws db h => ?_
  refine wp_then (foreignKeys_wp owing_robust h) fun _ held ws db h => ?_
  refine wp_then (closeResultWait_wp h) fun _ held ws db h => ?_
  have h : Clear held ws db := h.restate (fun _ _ _ hs => hs) fun _ _ _ _ _ _ hr => hr.1
  refine wp_snapshot owing_stable h fun db' _ h => ?_
  refine wp_then (wake_wp h) fun _ held ws db h => ?_
  refine wp_then (updateAndFire_wp (fun u hu => ?_) h) fun _ _ _ _ h => h
  rw [mem_singleton.mp hu]
  exact cancelUpdate_idle _ _ _ _

theorem sweep_wp {sizes : List Nat} (h : Clear held ws db) :
    promise.wp (fun _ => Clear) (sweep e depth sizes n ks) held ws db := by
  induction sizes generalizing n ks held ws db with
  | nil => exact h
  | cons size sizes ih =>
    refine wp_then (fetchDue_wp owing_robust h) fun _ held ws db h => ?_
    refine wp_then (wp_forEach (I := fun _ => Clear)
      (fun _ _ _ _ _ => timeOutResultWait_wp) h) fun _ held ws db h => ?_
    exact wp_then (ih h) fun _ _ _ _ h => h

/-! ## Every interleaving -/

theorem program_wp (op : Operation) (h : Clear held ws db) :
    promise.wp (fun _ => Clear) (op.program e depth) held ws db := by
  cases op with
  | waitForSignal => exact waitForSignal_wp h
  | waitForResult => exact waitForResult_wp h
  | emitSignal => exact emitSignal_wp h
  | completeTask l result =>
    refine wp_then (updateAndFire_wp (fun u hu => ?_) h) fun _ _ _ _ h => h
    rw [mem_singleton.mp hu]
    exact completeUpdate_idle e l result
  | completeTasks completions =>
    dsimp only [Operation.program]
    unfold completeTasks
    split
    · refine wp_then (updateAndFire_wp (fun u hu => ?_) h) fun _ _ _ _ h => h
      obtain ⟨c, -, rfl⟩ := List.mem_map.mp hu
      exact completeUpdate_idle e c.lease c.result
    · trivial
  | failTask l error retry =>
    refine wp_then (updateAndFire_wp (fun u hu => ?_) h) fun _ _ _ _ h => h
    rw [mem_singleton.mp hu]
    exact failUpdate_idle e l error retry
  | failTasks failures =>
    dsimp only [Operation.program]
    unfold failTasks
    split
    · refine wp_then (updateAndFire_wp (fun u hu => ?_) h) fun _ _ _ _ h => h
      obtain ⟨f, -, rfl⟩ := List.mem_map.mp hu
      exact failUpdate_idle e f.lease f.error f.retryMilliseconds
    · trivial
  | recoverExpired => exact recoverExpired_wp h
  | recoverResultWaitTimeouts batches limit =>
    refine wp_ofResult fun n _ => ?_
    refine wp_snapshot owing_stable h fun db' _ h => ?_
    exact wp_then (sweep_wp h) fun _ _ _ _ h => h
  | cancelTask => exact wp_then (cancelTask_wp h) fun _ _ _ _ h => h
  | adminCancelTask =>
    refine wp_ofResult fun _ _ => ?_
    exact wp_then (cancelTask_wp h) fun _ _ _ _ h => h

theorem clear_committable (h : Clear held ws db) : promise.Committable held ws db :=
  Promise.committable_of owing_stable (fun _ _ _ _ h => h) h

theorem interleave_settled {ι : Type} [Fintype ι] [DecidableEq ι]
    (settled : Settled nothing nothing db) (env : ι → Env) (depth : ι → Nat) (ops : ι → Operation)
    (turns : List (Turn ι)) : Settled nothing nothing
      (interleave db (fun i => (ops i).program (env i) (depth i)) turns).db :=
  Promise.interleave_inv (p := promise) settled (fun i => wp_mono
    (fun _ _ _ _ => clear_committable) (program_wp (ops i) ⟨nofun, settled⟩)) turns

theorem run_settled (server : Server) (rs : List Request) :
    Settled nothing nothing (run server rs).db := by
  have inv := run_waits server rs
  have waiting : ∀ k w t, OpenResult (run server rs).db k w →
      (run server rs).db.tasks.get? k.taskId = some t → t.state = .waiting := by
    intro k w t hk ht
    obtain ⟨⟨t', ht', hw | ⟨-, _, ho⟩⟩, -⟩ := inv.results k w hk
    · cases ht.symm.trans ht'
      exact hw
    · exact absurd ho not_mem_nil
  refine ⟨fun k w hk hs => hs (inv.waits k w hk).2.2, fun k w t hk ht hwait hf => ?_,
    fun k w t hk ht => ?_⟩
  · obtain ⟨-, -, hwatch⟩ := inv.results k w hk
    obtain ⟨c, hc, -, ho | ⟨_, ho⟩⟩ := hwatch t ht hwait
    · exact hf ⟨c, hc, ho⟩
    · exact absurd ho not_mem_nil
  · rw [waiting k w t hk ht]
    nofun

/-- From every reachable database and in every interleaving of any number of these calls: no
committed task waits for a signal that is there, or for a child that has finished. -/
theorem no_lost_wakeup {ι : Type} [Fintype ι] [DecidableEq ι] (server : Server)
    (rs : List Request) (env : ι → Env) (depth : ι → Nat) (ops : ι → Operation)
    (turns : List (Turn ι)) :
    let db := (interleave (run server rs).db (fun i => (ops i).program (env i) (depth i)) turns).db
    ∀ k t, db.tasks.get? k.taskId = some t → t.state = .waiting →
      (∀ w, db.waits.get? k = some w → w.resolvedAt = none → db.signals.get? (w.key k) = none) ∧
      ∀ w, db.resultWaits.get? k = some w → w.resolvedAt = none →
        ∃ c, db.tasks.get? w.resultTaskId = some c ∧ c.state.terminal = false := by
  intro db k t ht hwait
  have settled := interleave_settled (run_settled server rs) env depth ops turns
  refine ⟨fun w hk ho => ?_, fun w hk ho => ?_⟩
  · exact Classical.not_not.mp fun hs => settled.signals k w ⟨hk, ho⟩ hs
  · obtain ⟨c, hc, hout⟩ : Unfinished db w.resultTaskId :=
      Classical.not_not.mp fun hf => settled.results k w t ⟨hk, ho⟩ ht hwait hf
    exact ⟨c, hc, by simpa [TaskState.outstanding] using hout⟩

-- The sender has to wait for the waiter's commit, and then it wakes the task.
example :
    let db := (run countingServer
      [⟨0, .enqueue { taskName := some "a", payload := some .null }⟩,
       ⟨1, .claim "default" (Uuid.ofNat 100) ["a"] [1] 1 1000⟩]).db
    let race := interleave db fun i : Fin 2 => Operation.program (countingServer.envAt 2) 9 (match i with
      | 0 => .waitForSignal ⟨Uuid.ofNat 1, 1, Uuid.ofNat 2⟩ "step" 0 "go" 0 none
      | 1 => .emitSignal ⟨Uuid.ofNat 1, "go", 0⟩ .null)
    let turns := List.replicate 4 (.advance 0) ++ List.replicate 30 (.advance 1) ++
      List.replicate 20 (.advance 0)
    let parked := race turns
    let woken := race (turns ++ List.replicate 30 (.advance 1))
    (parked.db.tasks.get? (Uuid.ofNat 1)).map Task.state = some .waiting ∧
      (parked.txns 1).ended = false ∧
      (woken.db.tasks.get? (Uuid.ofNat 1)).map Task.state = some .pending ∧
      (woken.txns 1).ended = true := by
  decide +kernel

end Pgtask.Concurrent
