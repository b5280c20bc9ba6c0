import Pgtask.Invariant.Checks
import Pgtask.Invariant.Kept
import Pgtask.Invariant.Names

/-!
# The life of a task

A task keeps what it was enqueued with, and its attempts only go up. When it has finished, nobody
but an administrator changes it, and nothing but retention deletes it. Its id is not used again.
-/

open Sql Checked List

namespace Pgtask

variable {e : Env} {l : Label} {db : Database} {id : Uuid} {t t' : Task} {s s' : Session}

/-! ## One effect -/

/-- A later row of a task: it may have more attempts, and a parent where it had none. -/
structure Continues (t t' : Task) : Prop where
  fixed : t'.fixed = t.fixed
  attempt : t.attempt ≤ t'.attempt
  parent : ∀ p, t.parentTaskId = some p → t'.parentTaskId = some p

theorem RowStep.attempt_le (step : RowStep e db id l (some t) (some t')) :
    t.attempt ≤ t'.attempt := by
  generalize hold : some t = old, hnew : some t' = new at step
  cases step with
  | same =>
    cases hold.trans hnew.symm
    exact Nat.le_refl _
  | claim =>
    cases hold
    cases hnew
    exact Nat.le_succ _
  | insert => cases hold
  | wake =>
    subst hold
    cases hnew
    unfold Task.woken
    split <;> exact Nat.le_refl _
  | delete => cases hnew
  | renew | yield | park | complete | fail | cancel | retry | adopt =>
    cases hold
    cases hnew
    exact Nat.le_refl _

theorem Continues.row {t₀ : Task} (h : Continues t₀ t)
    (step : RowStep e db id l (some t) (some t')) : Continues t₀ t' := by
  refine ⟨?_, h.attempt.trans step.attempt_le, fun p hp => step.keeps_parent (h.parent p hp)⟩
  rcases step.fixed with ⟨t1, row, hfixed⟩ | ⟨hnone, -⟩
  · cases row
    exact hfixed.trans h.fixed
  · cases hnone

/-- A finished task can get a parent, from a `spawn_task` that finds it by its key. -/
theorem RowStep.finished {row : Option Task} (step : RowStep e db id l (some t) row)
    (finished : t.state.terminal = true) (hretry : l ≠ .retry id) (hdelete : l ≠ .delete id) :
    ∃ t', row = some t' ∧ { t' with parentTaskId := t.parentTaskId } = t := by
  generalize hold : some t = old at step
  cases step with
  | same => exact ⟨t, hold.symm, rfl⟩
  | claim active | renew active | yield active | park active | complete active | fail active =>
    cases hold
    rw [active] at finished
    cases finished
  | cancel unfinished =>
    cases hold
    rw [TaskState.outstanding, finished] at unfinished
    cases unfinished
  | retry => exact absurd rfl hretry
  | insert => cases hold
  | adopt =>
    cases hold
    exact ⟨_, rfl, rfl⟩
  | wake =>
    subst hold
    refine ⟨t, ?_, rfl⟩
    have awake : t.state ≠ .waiting := by
      intro waiting
      rw [waiting] at finished
      cases finished
    rw [Option.map_some, Task.woken, if_neg awake]
  | delete => exact absurd rfl hdelete

theorem RowStep.unused {row : Option Task} (step : RowStep e db id l none row)
    (hl : l ≠ .insert id ∧ l ≠ .materialize id) : row = none := by
  generalize hold : (none : Option Task) = old at step
  cases step with
  | same => rfl
  | insert _ label => exact absurd label (not_or.mpr hl)
  | wake =>
    subst hold
    rfl
  | _ => cases hold

theorem Effect.keeps_row (effect : Effect e l s s') (hl : l ≠ .delete id)
    (row : s.db.tasks.get? id = some t) :
    ∃ t', s'.db.tasks.get? id = some t' ∧ RowStep e s.db id l (some t) (some t') := by
  have step := effect.row id
  rw [row] at step
  obtain ⟨t', row'⟩ := Option.isSome_iff_exists.mp (step.stays.resolve_right hl)
  exact ⟨t', row', row' ▸ step⟩

/-! ## Runs -/

/-- While the row of a task is there, its queue, its handler and its key stay, its attempts do not
go down, and it keeps a parent that it has. -/
theorem kept_row_continues (server : Server) (rs rs' : List Request) (id : Uuid) (t : Task)
    (kept : RowKept server rs rs' id) (row : (run server rs).db.tasks.get? id = some t) :
    ∃ t', (run server (rs ++ rs')).db.tasks.get? id = some t' ∧ Continues t t' := by
  refine kept.keeps (I := fun s => ∃ t', s.db.tasks.get? id = some t' ∧ Continues t t') ?_
    ⟨t, row, rfl, Nat.le_refl _, fun _ h => h⟩ (append_nil rs').symm
  rintro e l s s' hl effect ⟨t1, row1, h⟩
  obtain ⟨t2, row2, step⟩ := effect.keeps_row hl row1
  exact ⟨t2, row2, h.row step⟩

def cancelledRun : List Request :=
  [⟨0, .putQueue "default" ⟨0, 1, none, 300⟩⟩,
    ⟨1, .enqueue { taskName := some "a", payload := some .null }⟩, ⟨2, .cancelTask (Uuid.ofNat 1)⟩]

theorem cancelled_row_continues : ∃ t t', Continues t t' ∧
    (run countingServer (cancelledRun.take 2)).db.tasks.get? (Uuid.ofNat 1) = some t ∧
      (run countingServer cancelledRun).db.tasks.get? (Uuid.ofNat 1) = some t' := by
  have there : ((run countingServer (cancelledRun.take 2)).db.tasks.get? (Uuid.ofNat 1)).isSome =
      true := by decide +kernel
  obtain ⟨t, row⟩ := Option.isSome_iff_exists.mp there
  obtain ⟨t', row', h⟩ := kept_row_continues countingServer (cancelledRun.take 2)
    (cancelledRun.drop 2) _ t (rowKept_of_fin (by decide +kernel)) row
  exact ⟨t, t', h, row, row'⟩

/-- Unless an administrator retries it, a finished task keeps its row as long as the row is there.
Only the parent can be new. -/
theorem finished_row_stays (server : Server) (rs rs' : List Request) (id : Uuid) (t : Task)
    (kept : RowKept server rs rs' id) (row : (run server rs).db.tasks.get? id = some t)
    (finished : t.state.terminal = true)
    (quiet : ∀ r ∈ rs', ∀ actor, r.call ≠ .adminRetryTask id actor) :
    ∃ t', (run server (rs ++ rs')).db.tasks.get? id = some t' ∧
      { t' with parentTaskId := t.parentTaskId } = t := by
  induction rs' using List.reverseRecOn with
  | nil => exact ⟨t, by rwa [append_nil], rfl⟩
  | append_singleton before r ih =>
    obtain ⟨t1, row1, same1⟩ := ih (fun a b h => kept a (b ++ [r]) (by rw [h, append_assoc]))
      fun q hq => quiet q (mem_append_left _ hq)
    have there := kept (before ++ [r]) [] (append_nil _).symm
    rw [← append_assoc, run_concat] at there ⊢
    obtain ⟨ls, path, hls, hdelete⟩ := step_without_delete there
    have allowed : ∀ l ∈ ls, l ≠ .retry id ∧ l ≠ .delete id := by
      refine fun l hl => ⟨?_, fun h => hdelete (h ▸ hl)⟩
      rintro rfl
      obtain ⟨actor, hcall⟩ := effects_no_retry (hls _ hl)
      exact quiet r (mem_append_right _ mem_cons_self) actor hcall
    refine path.keeps (P := fun s => ∃ t', s.db.tasks.get? id = some t' ∧
      { t' with parentTaskId := t.parentTaskId } = t) ?_ allowed ⟨t1, row1, same1⟩
    rintro l s s' ⟨hretry, hdelete⟩ effect ⟨t2, row2, same2⟩
    have step := effect.row id
    rw [row2] at step
    have hstate := congrArg Task.state same2
    have finished2 : t2.state.terminal = true := (congrArg TaskState.terminal hstate).trans finished
    obtain ⟨t3, row3, same3⟩ := step.finished finished2 hretry hdelete
    refine ⟨t3, row3, ?_⟩
    exact (congrArg (fun x : Task => { x with parentTaskId := t.parentTaskId }) same3).trans same2

theorem cancelled_row_stays :
    ∃ t, (run countingServer cancelledRun).db.tasks.get? (Uuid.ofNat 1) = some t ∧
      ∃ t', (run countingServer (cancelledRun ++ cancelledRun)).db.tasks.get? (Uuid.ofNat 1) =
        some t' ∧ { t' with parentTaskId := t.parentTaskId } = t := by
  have there : ((run countingServer cancelledRun).db.tasks.get? (Uuid.ofNat 1)).any
      (fun t => t.state.terminal) = true := by decide +kernel
  obtain ⟨t, row, finished⟩ := (Option.any_eq_true _ _).mp there
  exact ⟨t, row, finished_row_stays countingServer cancelledRun cancelledRun _ t
    (rowKept_of_fin (by decide +kernel)) row finished (by simp [cancelledRun])⟩

/-! ## The end of a row -/

theorem effects_keep_row {ls : List Label} (path : Effects e ls s s')
    (hid : .delete id ∉ ls) (row : s.db.tasks.get? id = some t) :
    ∃ t', s'.db.tasks.get? id = some t' := by
  have allowed : ∀ l ∈ ls, l ≠ .delete id := fun l hl h => hid (h ▸ hl)
  refine path.keeps (P := fun s => ∃ t', s.db.tasks.get? id = some t') ?_ allowed ⟨t, row⟩
  rintro l s s' hl effect ⟨t, row⟩
  obtain ⟨t', row', -⟩ := effect.keeps_row hl row
  exact ⟨t', row'⟩

theorem foldl_deleteTask_keeps_row {rows : List (Uuid × Task)} (hid : ∀ x ∈ rows, x.1 ≠ id)
    (row : (db.tasks.get? id).isSome = true) :
    ((rows.foldl (deleteTask e) db).tasks.get? id).isSome = true := by
  induction rows generalizing db with
  | nil => exact row
  | cons x rows ih =>
    rw [forall_mem_cons] at hid
    obtain ⟨j, t⟩ := x
    refine ih hid.2 ?_
    obtain ⟨keys, hd⟩ := deleteTask_spec e db j t
    rw [hd, Table.get?_update, Option.isSome_map, Table.get?_delete_of_false fun _ => ?_]
    · exact row
    · exact decide_eq_false (Ne.symm hid.1)

/-- A task that is gone after a call was deleted by `delete_expired_terminal` of its queue: it had
finished, the retention of the queue had passed, and it had no children. -/
theorem deleted_after_retention (server : Server) (w : World) (r : Request) (id : Uuid) (t : Task)
    (row : w.db.tasks.get? id = some t) (gone : (step server w r).2.db.tasks.get? id = none) :
    ∃ n, r.call = .deleteExpiredTerminal t.queueName n ∧
      expiredTerminal (server.envAt r.now) w.db t.queueName id t = true := by
  have there : (w.session.db.tasks.get? id).isSome = true := by rw [World.session_db, row]; rfl
  rcases step_spec server w r with ⟨reply, s', hexec, hs', -, ls, path, hls⟩ | ⟨-, -, hw⟩
  swap
  · rw [hw, row] at gone
    cases gone
  have gone' : s'.db.tasks.get? id = none := by rw [hs', World.session_db, gone]
  have hid : .delete id ∈ ls := by
    by_contra hid
    obtain ⟨t', row'⟩ := effects_keep_row path hid row
    rw [← hs', gone'] at row'
    cases row'
  obtain ⟨queueName, n, hcall⟩ := effects_no_delete (hls _ hid)
  rw [hcall] at hexec
  obtain ⟨count, h, -⟩ := reply_ok hexec
  unfold deleteExpiredTerminal at h
  obtain ⟨m, -, h⟩ := bind_ok h
  cases h
  have deleted : ∃ x ∈ ((w.session.db.tasks.select (expiredTerminal (server.envAt r.now) w.session.db
      queueName)).insertionSort fun x y => byCompletion x y).take m, x.1 = id := by
    by_contra kept
    push Not at kept
    have := foldl_deleteTask_keeps_row (e := server.envAt r.now) kept there
    rw [gone'] at this
    cases this
  obtain ⟨x, hx, rfl⟩ := deleted
  obtain ⟨hrow, expired⟩ := Table.mem_select.mp (show (x.1, x.2) ∈ _ from mem_take_sorted hx)
  cases hrow.symm.trans row
  have hqueue : x.2.queueName = queueName := by
    simp only [expiredTerminal, Bool.and_eq_true, decide_eq_true_eq] at expired
    exact expired.1.1.1
  rw [hqueue]
  exact ⟨n, hcall, expired⟩

theorem cancelledRun_row :
    ∃ t, (run countingServer cancelledRun).db.tasks.get? (Uuid.ofNat 1) = some t :=
  Option.isSome_iff_exists.mp (by decide +kernel)

theorem cancelled_row_deleted :
    ∃ t, (run countingServer cancelledRun).db.tasks.get? (Uuid.ofNat 1) = some t ∧
      expiredTerminal (countingServer.envAt 3) (run countingServer cancelledRun).db t.queueName
        (Uuid.ofNat 1) t = true := by
  obtain ⟨t, row⟩ := cancelledRun_row
  obtain ⟨n, -, expired⟩ := deleted_after_retention countingServer _
    ⟨3, .deleteExpiredTerminal "default" 10⟩ _ t row (by decide +kernel)
  exact ⟨t, row, expired⟩

/-- An id whose task is gone never comes back, as long as `gen_random_uuid` does not repeat. -/
theorem deleted_id_unused (server : Server) (rs rs' since : List Request) (id : Uuid) (t : Task)
    (distinct : server.Distinct (run server (rs ++ rs' ++ since)).drawn)
    (row : (run server rs).db.tasks.get? id = some t)
    (gone : (run server (rs ++ rs')).db.tasks.get? id = none) :
    (run server (rs ++ rs' ++ since)).db.tasks.get? id = none := by
  have born := (run_born server rs id t row).mono (run_drawn_le server rs rs')
  induction since using List.reverseRecOn with
  | nil => rwa [append_nil]
  | append_singleton since r ih =>
    rw [← append_assoc, run_concat] at distinct ⊢
    have none := ih (distinct.mono (step_drawn_le _ _))
    rcases step_spec server (run server (rs ++ rs' ++ since)) r with
      ⟨-, -, -, -, -, ls, path, -⟩ | ⟨-, -, hw⟩
    swap
    · rw [hw]
      exact none
    have never := born_not_inserted (born.mono (run_drawn_le server _ since)) distinct path
    refine path.keeps (P := fun s => s.db.tasks.get? id = Option.none) ?_ never none
    intro l s s' hl effect row
    have step := effect.row id
    rw [row] at step
    exact step.unused hl

theorem cancelled_id_unused :
    (run countingServer (cancelledRun ++ [⟨3, .deleteExpiredTerminal "default" 10⟩] ++
      cancelledRun)).db.tasks.get? (Uuid.ofNat 1) = none := by
  obtain ⟨t, row⟩ := cancelledRun_row
  exact deleted_id_unused countingServer _ _ _ _ t (countingServer_distinct (by decide +kernel)) row
    (by decide +kernel)

/-! ## Rows -/

end Pgtask
