import Pgtask.Effect.Task
import Pgtask.Run

/-!
# Constraints on rows

Every row of `attempts`, `tasks`, `waits`, `result_waits` and `signals` satisfies
the constraints of its table, so that a statement that only changes its state is not
refused.
-/

open Sql Table

namespace Pgtask

variable {id : Uuid} {t : Task}

structure ChecksInv (db : Database) : Prop where
  attempts : ∀ k a, db.attempts.get? k = some a → Holds (Attempt.checks a)
  tasks : ∀ id t, db.tasks.get? id = some t → Holds (t.checks id)
  waits : ∀ k w, db.waits.get? k = some w → Holds (w.checks k)
  resultWaits : ∀ k w, db.resultWaits.get? k = some w → Holds (w.checks k)
  signals : ∀ k v, db.signals.get? k = some v → Holds (signalChecks k v)

variable {e : Env} {l : Label} {s s' : Session}

theorem put_checked {κ ρ : Type} [DecidableEq κ] {table : Table κ ρ}
    {checks : κ → ρ → List (String × Bool)} {k : κ} {r : ρ}
    (old : ∀ j q, table.get? j = some q → Holds (checks j q)) (checked : Holds (checks k r)) :
    ∀ j q, (table.put k r).get? j = some q → Holds (checks j q) := by
  intro j q h
  rw [get?_put] at h
  split at h
  · rename_i hj
    cases h
    rw [hj]
    exact checked
  · exact old j q h

theorem delete_checked {κ ρ : Type} [DecidableEq κ] {table : Table κ ρ} {checks : κ → ρ → List (String × Bool)}
    {p : κ → ρ → Bool} (old : ∀ j q, table.get? j = some q → Holds (checks j q)) :
    ∀ j q, (table.delete p).get? j = some q → Holds (checks j q) :=
  fun j q h => old j q (get?_delete_eq_some.mp h).1

theorem Holds.setState {state : TaskState} {runAt : Timestamp}
    (h : Holds (t.checks id)) (hstate : state ≠ .running) :
    Holds (Task.checks id { t with state := state, runAt := runAt }) := by
  unfold Holds Task.checks at *
  simp only [List.forall_mem_cons] at *
  simp_all

theorem Holds.woken (now : Timestamp) (h : Holds (t.checks id)) :
    Holds ((t.woken now).checks id) := by
  unfold Task.woken
  split
  · exact h.setState TaskState.noConfusion
  · exact h

theorem woken_checked {db : Database} {j : Uuid} {now : Timestamp} (inv : ChecksInv db) :
    ∀ id t, (db.tasks.adjust j (Task.woken now)).get? id = some t → Holds (t.checks id) := by
  intro id t h
  rw [get?_adjust] at h
  split at h
  · rename_i hj
    obtain ⟨t0, ht0, rfl⟩ := Option.map_eq_some_iff.mp h
    rw [hj]
    exact (inv.tasks j t0 ht0).woken now
  · exact inv.tasks id t h

theorem ChecksInv.putTask {db : Database} (inv : ChecksInv db) (checked : Holds (t.checks id)) :
    ∀ j q, (db.tasks.put id t).get? j = some q → Holds (q.checks j) :=
  @put_checked _ _ _ _ (fun j (q : Task) => q.checks j) _ _ inv.tasks checked

theorem adjust_checked {table : Table (Uuid × Nat) Attempt} {k : Uuid × Nat} {f : Attempt → Attempt}
    (old : ∀ j a, table.get? j = some a → Holds (Attempt.checks a))
    (checked : ∀ a, Holds (Attempt.checks a) → Holds (Attempt.checks (f a))) :
    ∀ j a, (table.adjust k f).get? j = some a → Holds (Attempt.checks a) := by
  intro j a h
  rw [get?_adjust] at h
  split at h
  · obtain ⟨a0, ha0, rfl⟩ := Option.map_eq_some_iff.mp h
    exact checked a0 (old k a0 ha0)
  · exact old j a h

theorem Holds.error (h : Holds (t.checks id)) {a : Attempt}
    (same : a.error = t.error) : Holds a.checks := by
  have herror := h ("tasks_error_size_check", t.error.all (·.octetLength ≤ 262144))
    (by simp [Task.checks])
  unfold Holds Attempt.checks
  simp only [List.forall_mem_singleton]
  rw [same]
  exact herror

theorem effect_keeps_checks (effect : Effect e l s s') (inv : ChecksInv s.db) : ChecksInv s'.db := by
  cases effect with
  | claim _ _ _ _ _ _ _ checked =>
    refine { inv with tasks := inv.putTask checked, attempts := fun j a h => ?_ }
    replace h := (get?_put _ _ _ _).symm.trans h
    split at h
    · cases h
      simp [Holds, Attempt.checks]
    · exact inv.attempts j a h
  | renew _ _ checked => exact { inv with tasks := inv.putTask checked }
  | yield _ _ _ checked =>
    exact { inv with tasks := inv.putTask checked, attempts := adjust_checked inv.attempts fun _ h => h }
  | parkSignal _ _ _ _ _ armed checked =>
    exact { inv with
      tasks := inv.putTask checked
      attempts := adjust_checked inv.attempts fun _ h => h
      waits := put_checked inv.waits armed }
  | parkResult _ _ _ _ _ _ _ _ armed checked =>
    exact { inv with
      tasks := inv.putTask checked
      attempts := adjust_checked inv.attempts fun _ h => h
      resultWaits := put_checked inv.resultWaits armed }
  | complete _ _ checked =>
    exact { inv with
      tasks := inv.putTask checked
      attempts := adjust_checked inv.attempts fun _ _ => checked.error rfl }
  | fail _ _ _ checked =>
    exact { inv with
      tasks := inv.putTask checked
      attempts := adjust_checked inv.attempts fun _ _ => checked.error rfl }
  | cancel _ _ checked =>
    refine { inv with
      tasks := inv.putTask checked
      attempts := adjust_checked inv.attempts fun a h => ?_ }
    split
    · exact checked.error rfl
    · exact h
  | retry _ _ _ _ checked => exact { inv with tasks := inv.putTask checked }
  | insert _ _ _ _ _ _ _ _ checked => exact { inv with tasks := inv.putTask checked }
  | materialize _ _ _ _ _ _ _ _ _ _ checked => exact { inv with tasks := inv.putTask checked }
  | adopt _ _ _ _ _ checked => exact { inv with tasks := inv.putTask checked }
  | adoptStored _ _ _ _ _ _ _ _ _ checked => exact { inv with tasks := inv.putTask checked }
  | signal _ _ _ checked => exact { inv with signals := put_checked inv.signals checked }
  | @deliver _ k w v outcome row =>
    exact { inv with tasks := woken_checked inv, waits := put_checked inv.waits (inv.waits k w row) }
  | @deliverResult _ k w v outcome row =>
    exact { inv with
      tasks := woken_checked inv
      resultWaits := put_checked inv.resultWaits (inv.resultWaits k w row) }
  | @staleTimeout _ k w w' v row resolved awake target =>
    refine { inv with resultWaits := put_checked inv.resultWaits ?_ }
    have hchecks := inv.resultWaits k w row
    unfold ResultWait.checks at *
    rwa [target]
  | @fireManage _ id old new rest =>
    obtain ⟨keys, hdb⟩ := manage_tables e id old new s.db
    dsimp only
    rw [hdb]
    exact { inv with }
  | @fireResolve _ id =>
    refine { inv with waits := fun k w h => ?_, resultWaits := fun k w h => ?_ }
    · obtain ⟨w0, hw0, rfl⟩ := Option.map_eq_some_iff.mp ((get?_update _ _ _).symm.trans h)
      have hchecks := inv.waits k w0 hw0
      split <;> exact hchecks
    · obtain ⟨w0, hw0, rfl⟩ := Option.map_eq_some_iff.mp ((get?_update _ _ _).symm.trans h)
      have hchecks := inv.resultWaits k w0 hw0
      split <;> exact hchecks
  | @delete _ id t _ _ childless =>
    have htasks : ∀ j c, (deleteTask e s.db (id, t)).tasks.get? j = some c → Holds (c.checks j) := by
      intro j c h
      rw [deleteTask_get? t childless] at h
      split at h
      · cases h
      · exact inv.tasks j c h
    obtain ⟨keys, hdb⟩ := deleteTask_spec e s.db id t
    dsimp only
    rw [hdb] at htasks ⊢
    exact {
      tasks := htasks
      attempts := fun k a h => inv.attempts k a (get?_delete_eq_some.mp h).1
      waits := delete_checked inv.waits
      resultWaits := delete_checked inv.resultWaits
      signals := delete_checked inv.signals }
  | _ => exact { inv with }

theorem run_checks (server : Server) (rs : List Request) : ChecksInv (run server rs).db :=
  run_keeps (I := fun s => ChecksInv s.db) ⟨by simp [World.session], by simp [World.session],
    by simp [World.session], by simp [World.session], by simp [World.session]⟩ (fun _ _ _ _ effect h => effect_keeps_checks effect h) rs

/-! ## Statements that are not refused -/

theorem saveCheckpoint_returns {k : StepKey} {v : Json} (row : s.db.tasks.get? k.taskId = some t)
    (fits : Holds (checkpointChecks k v)) :
    saveCheckpoint k v s = .ok ((s.db.checkpoints.get? k).getD v,
      { s with db := { s.db with checkpoints := s.db.checkpoints.putNew k v } }) := by
  unfold saveCheckpoint
  rw [require_of_holds fits]
  cases hk : s.db.checkpoints.get? k with
  | some stored => simp [bind, Except.bind, hk, Table.putNew]
  | none => simp [bind, Except.bind, hk, Table.putNew, row]

theorem updateTask_returns {old new : Task} (unfinished : old.state.outstanding = true)
    (checked : Holds (new.checks id)) : updateTask id old new s = .ok (s.write id old new) := by
  obtain ⟨s', hs'⟩ : ∃ s', updateTask id old new s = .ok s' := by
    unfold updateTask enforceQueueCapacity
    rw [require_of_holds checked]
    simp only [Option.any_some, unfinished, Bool.true_and, Bool.true_or, if_true]
    split
    · exact ⟨_, rfl⟩
    · exact ⟨_, rfl⟩
  rw [hs', (updateTask_spec hs').1]

theorem updateAttempt_returns {k : Uuid × Nat} {f : Attempt → Attempt}
    (checked : ∀ a, s.db.attempts.get? k = some a → Holds (f a).checks) :
    updateAttempt k f s = .ok (s.endAttempt k f) := by
  obtain ⟨s', hs'⟩ : ∃ s', updateAttempt k f s = .ok s' := by
    unfold updateAttempt
    cases hk : s.db.attempts.get? k with
    | none => exact ⟨_, rfl⟩
    | some a =>
      dsimp only
      rw [require_of_holds (checked a hk)]
      exact ⟨_, rfl⟩
  rw [hs', updateAttempt_spec hs']

theorem wake_returns (id : Uuid) (checked : ∀ t, s.db.tasks.get? id = some t → Holds (t.checks id)) :
    wake e id s =
      .ok { s with db := { s.db with tasks := s.db.tasks.adjust id (Task.woken e.now) } } := by
  obtain ⟨s', hs'⟩ : ∃ s', wake e id s = .ok s' := by
    unfold wake
    split
    · rename_i t ht
      split
      · rename_i hw
        exact ⟨_, updateTask_returns (by rw [hw]; rfl) ((checked t ht).setState TaskState.noConfusion)⟩
      · exact ⟨s, rfl⟩
    · exact ⟨s, rfl⟩
  rw [hs', wake_spec hs']

theorem Holds.cancelledAt {error : Json} (now : Timestamp)
    (h : Holds (t.checks id)) (size : error.octetLength ≤ 262144) :
    Holds ((t.cancelledAt now error).checks id) := by
  unfold Holds Task.checks Task.cancelledAt at *
  simp only [List.forall_mem_cons] at *
  simp_all

theorem cancelRow_returns {error : Json} (inv : ChecksInv s.db)
    (row : s.db.tasks.get? id = some t) (unfinished : t.state.outstanding = true)
    (size : error.octetLength ≤ 262144) : ∃ s', cancelRow e error s (id, t) = .ok s' := by
  have hcancelled := (inv.tasks id t row).cancelledAt e.now size
  unfold cancelRow
  dsimp only
  rw [updateTask_returns unfinished hcancelled]
  refine ⟨_, updateAttempt_returns fun a ha => ?_⟩
  split
  · exact hcancelled.error rfl
  · exact inv.attempts _ a ha

theorem Holds.checkpoint {table : String} {k : StepKey} {v : Json} (key : Holds (k.checks table))
    (size : v.octetLength ≤ 1048576) : Holds (checkpointChecks k v) := by
  unfold Holds checkpointChecks StepKey.checks at *
  simp only [List.forall_mem_cons, List.mem_append] at key ⊢
  simp_all

end Pgtask
