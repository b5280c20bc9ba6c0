import Pgtask.Effect.Exec

/-!
# One task under effects

An effect writes the row of at most one task. `RowStep` lists what it can do to
that row, so that a fact about one task is proved without the rest of the
database.
-/

open Sql Table

namespace Pgtask

variable {db : Database} {t' t : Task}

def Label.writes : Label → Option Uuid
  | .claim l => some l.taskId
  | .renew id | .yield id | .complete id | .fail id | .cancel id | .retry id => some id
  | .parkSignal k | .parkResult k | .deliver k | .deliverResult k => some k.taskId
  | .insert id | .materialize id | .delete id => some id
  | .adopt child _ | .adoptStored child _ => some child
  | _ => none

/-- What an effect does to the row of task `id` in the database `db`. -/
inductive RowStep (e : Env) (db : Database) (id : Uuid) : Label → Option Task → Option Task → Prop
  | same {l : Label} {row : Option Task} (other : l.writes ≠ some id) : RowStep e db id l row row
  | claim {t : Task} {token worker : Uuid} {ms : Int} (pending : t.state = .pending)
      (ready : t.Ready e db) :
      RowStep e db id (.claim ⟨id, t.attempt + 1, token⟩) (some t)
        (some (t.claimed e db id (t.attempt + 1) token worker ms))
  | renew {t : Task} {expires : Timestamp} (running : t.state = .running) :
      RowStep e db id (.renew id) (some t) (some { t with leaseExpiresAt := some expires })
  | yield {t : Task} {runAt : Timestamp} (running : t.state = .running) :
      RowStep e db id (.yield id) (some t) (some (t.yielded runAt))
  | park {t : Task} {l : Label} {k : StepKey} (running : t.state = .running) (key : k.taskId = id)
      (label : l = .parkSignal k ∨ l = .parkResult k) : RowStep e db id l (some t) (some t.parked)
  | complete {t : Task} {result : Option Json} (running : t.state = .running) :
      RowStep e db id (.complete id) (some t) (some (t.completed e.now result))
  | fail {t : Task} {error : Option Json} {retry : Bool} {runAt : Timestamp}
      (running : t.state = .running) :
      RowStep e db id (.fail id) (some t)
        (some (t.failedWith e (historicalFailures db id t + 1) error retry runAt))
  | cancel {t : Task} {error : Json} (unfinished : t.state.outstanding = true) :
      RowStep e db id (.cancel id) (some t) (some (t.cancelledAt e.now error))
  | retry {t : Task} (ended : t.state = .failed ∨ t.state = .cancelled) :
      RowStep e db id (.retry id) (some t)
        (some (t.retried e.now (max t.maxAttempts (historicalFailures db id t + 1))))
  | insert {t : Task} {l : Label} (new : t.New) (label : l = .insert id ∨ l = .materialize id) :
      RowStep e db id l none (some t)
  | adopt {t : Task} {l : Label} {parent : Uuid} (orphan : t.parentTaskId = none)
      (label : l = .adopt id parent ∨ l = .adoptStored id parent) :
      RowStep e db id l (some t) (some { t with parentTaskId := some parent })
  | wake {row : Option Task} {l : Label} {k : StepKey} (key : k.taskId = id)
      (label : l = .deliver k ∨ l = .deliverResult k) :
      RowStep e db id l row (row.map (Task.woken e.now))
  | delete {t : Task} (finished : t.state.terminal = true) :
      RowStep e db id (.delete id) (some t) none

variable {e : Env} {l : Label} {s s' : Session}

theorem manage_tables (e : Env) (id : Uuid) (old new : Task) (db : Database) :
    ∃ keys, manageIdempotencyKey e id old new db = { db with idempotencyKeys := keys } := by
  unfold manageIdempotencyKey manageReservation
  repeat' split
  all_goals exact ⟨_, rfl⟩

theorem RowStep.put {j : Uuid} {row : Option Task} {new : Task} {id : Uuid}
    (hrow : db.tasks.get? j = row) (writes : l.writes = some j)
    (h : RowStep e db j l row (some new)) :
    RowStep e db id l (db.tasks.get? id) ((db.tasks.put j new).get? id) := by
  rw [get?_put]
  split
  · rename_i hj
    rw [hj, hrow]
    exact h
  · rename_i hj
    exact .same (by rw [writes]; simpa using Ne.symm hj)

theorem RowStep.woken {k : StepKey} {id : Uuid} (label : l = .deliver k ∨ l = .deliverResult k) :
    RowStep e db id l (db.tasks.get? id) ((db.tasks.adjust k.taskId (Task.woken e.now)).get? id) := by
  rw [get?_adjust]
  split
  · rename_i hj
    rw [hj]
    exact .wake rfl label
  · rename_i hj
    refine .same ?_
    rcases label with rfl | rfl <;> simpa [Label.writes] using Ne.symm hj

/-- Every effect does to each task's row one of the things above. -/
theorem Effect.row (effect : Effect e l s s') (id : Uuid) :
    RowStep e s.db id l (s.db.tasks.get? id) (s'.db.tasks.get? id) := by
  cases effect with
  | claim row pending budget next _ _ ready =>
    subst next
    exact .put row rfl (.claim pending ready)
  | renew row running => exact .put row rfl (.renew running)
  | yield row running => exact .put row rfl (.yield running)
  | parkSignal row running => exact .put row rfl (.park running rfl (.inl rfl))
  | parkResult row running => exact .put row rfl (.park running rfl (.inr rfl))
  | complete row running => exact .put row rfl (.complete running)
  | fail row running => exact .put row rfl (.fail running)
  | cancel row unfinished => exact .put row rfl (.cancel unfinished)
  | retry row ended => exact .put row rfl (.retry ended)
  | insert fresh free new => exact .put free rfl (.insert new (.inl rfl))
  | materialize fresh free new => exact .put free rfl (.insert new (.inr rfl))
  | adopt row orphan => exact .put row rfl (.adopt orphan (.inl rfl))
  | adoptStored row orphan => exact .put row rfl (.adopt orphan (.inr rfl))
  | deliver => exact .woken (.inl rfl)
  | deliverResult => exact .woken (.inr rfl)
  | @delete _ j t row finished childless =>
    rw [deleteTask_get? t childless]
    split
    · rename_i hj
      rw [hj, row]
      exact .delete finished
    · rename_i hj
      exact .same (by simpa [Label.writes] using Ne.symm hj)
  | @fireManage _ j old new =>
    obtain ⟨keys, hk⟩ := manage_tables e j old new s.db
    rw [hk]
    exact .same (by simp [Label.writes])
  | _ => exact .same (by simp [Label.writes])

/-! ## Columns that never change -/

def Task.fixed (t : Task) : String × String × Int × Option String :=
  (t.queueName, t.taskName, t.handlerVersion, t.idempotencyKey)

@[simp] theorem Task.woken_fixed (now : Timestamp) (t : Task) : (t.woken now).fixed = t.fixed := by
  unfold Task.woken
  split <;> rfl

theorem RowStep.fixed {id : Uuid} {row : Option Task} (step : RowStep e db id l row (some t')) :
    (∃ t, row = some t ∧ t'.fixed = t.fixed) ∨
      row = none ∧ (l = .insert id ∨ l = .materialize id) := by
  generalize hnew : some t' = new at step
  cases step with
  | same => exact .inl ⟨t', hnew.symm, rfl⟩
  | insert _ label => exact .inr ⟨rfl, label⟩
  | wake =>
    obtain ⟨t, rfl, rfl⟩ := Option.map_eq_some_iff.mp hnew.symm
    exact .inl ⟨t, rfl, t.woken_fixed e.now⟩
  | delete => cases hnew
  | _ =>
    cases hnew
    exact .inl ⟨_, rfl, rfl⟩

theorem Task.woken_outstanding (now : Timestamp) (t : Task) :
    (t.woken now).state.outstanding = t.state.outstanding := by
  unfold Task.woken
  split
  · rename_i hw
    rw [hw]
    rfl
  · rfl

theorem RowStep.unfinished {id : Uuid} {row : Option Task}
    (step : RowStep e db id l row (some t')) (ho : t'.state.outstanding = true)
    (hl : l ≠ .retry id) : (∃ t, row = some t ∧ t.state.outstanding = true ∧ t'.fixed = t.fixed) ∨
      row = none ∧ (l = .insert id ∨ l = .materialize id) := by
  have running : ∀ {t : Task}, t.state = .running → t.state.outstanding = true := by
    intro t h
    rw [h]
    rfl
  rcases step.fixed with ⟨t, rfl, hfixed⟩ | hnew
  · refine .inl ⟨t, rfl, ?_, hfixed⟩
    generalize hold : some t = row, hnew : some t' = row' at step
    cases step with
    | same =>
      obtain rfl := Option.some.inj (hold.trans hnew.symm)
      exact ho
    | claim pending =>
      cases hold
      rw [pending]
      rfl
    | renew h | yield h | park h | complete h | fail h =>
      cases hold
      exact running h
    | cancel h =>
      cases hold
      exact h
    | retry => exact absurd rfl hl
    | insert => cases hold
    | adopt =>
      cases hold
      cases hnew
      exact ho
    | wake =>
      cases hold
      cases hnew
      rwa [t.woken_outstanding] at ho
    | delete => cases hnew
  · exact .inr hnew

theorem RowStep.stays {id : Uuid} {row' : Option Task}
    (step : RowStep e db id l (some t) row') : row'.isSome = true ∨ l = .delete id := by
  generalize hold : some t = row at step
  cases step with
  | same =>
    left
    rw [← hold]
    rfl
  | wake =>
    left
    rw [← hold]
    rfl
  | delete => exact .inr rfl
  | _ => exact .inl rfl

theorem RowStep.keeps_parent {id p : Uuid}
    (step : RowStep e db id l (some t) (some t')) (h : t.parentTaskId = some p) : t'.parentTaskId = some p := by
  generalize hold : some t = old, hnew : some t' = new at step
  cases step with
  | same =>
    cases hold.trans hnew.symm
    exact h
  | insert => cases hold
  | adopt orphan =>
    cases hold
    rw [orphan] at h
    cases h
  | wake =>
    cases hold
    cases hnew
    unfold Task.woken
    split <;> exact h
  | delete => cases hnew
  | _ =>
    cases hold
    cases hnew
    exact h

theorem Task.failedWith_cases (e : Env) (t : Task) (failures : Nat) (error : Option Json)
    (retry : Bool) (runAt : Timestamp) :
    ((t.failedWith e failures error retry runAt).state = .pending ∧
        (t.failedWith e failures error retry runAt).completedAt = none) ∨
      (t.failedWith e failures error retry runAt).state = .failed ∧
        (t.failedWith e failures error retry runAt).completedAt = some e.now := by
  unfold Task.failedWith
  generalize (retry && decide ((failures : Int) < t.maxAttempts)) = again
  cases again
  · exact .inr ⟨rfl, rfl⟩
  · exact .inl ⟨rfl, rfl⟩

theorem RowStep.goes_on {id : Uuid} {row' : Option Task}
    (step : RowStep e db id l (some t) row') (ho : t.state.outstanding = true) :
    ∃ t', row' = some t' ∧ t'.fixed = t.fixed ∧ (t'.state.outstanding = true ∨
      (t'.state.terminal = true ∧ t'.completedAt = some e.now ∧
        (l = .complete id ∨ l = .fail id ∨ l = .cancel id))) := by
  have unfinished : ∀ {t : Task}, t.state.terminal = true → t.state.outstanding = true → False := by
    intro t h h'
    rw [TaskState.outstanding, h] at h'
    cases h'
  have hrow : row'.isSome = true := by
    rcases step.stays with h | rfl
    · exact h
    · generalize hold : some t = row at step
      cases step with
      | same other => exact absurd rfl other
      | park _ _ label => rcases label with h | h <;> cases h
      | insert => cases hold
      | adopt _ label => rcases label with h | h <;> cases h
      | wake _ label => rcases label with h | h <;> cases h
      | delete finished =>
        cases hold
        exact (unfinished finished ho).elim
  obtain ⟨t', rfl⟩ := Option.isSome_iff_exists.mp hrow
  refine ⟨t', rfl, ?_, ?_⟩
  · rcases step.fixed with ⟨t0, h0, hfixed⟩ | ⟨h, -⟩
    · cases h0
      exact hfixed
    · cases h
  · generalize hold : some t = row, hnew : some t' = row' at step
    cases step with
    | same =>
      obtain rfl := Option.some.inj (hnew.trans hold.symm)
      exact .inl ho
    | complete =>
      cases hnew
      exact .inr ⟨rfl, rfl, .inl rfl⟩
    | @fail t error retry runAt =>
      cases hnew
      rcases t.failedWith_cases e (historicalFailures db id t + 1) error retry runAt with
        ⟨hstate, -⟩ | ⟨hstate, hcompleted⟩
      · exact .inl (by rw [hstate]; rfl)
      · exact .inr ⟨by rw [hstate]; rfl, hcompleted, .inr (.inl rfl)⟩
    | cancel =>
      cases hnew
      exact .inr ⟨rfl, rfl, .inr (.inr rfl)⟩
    | insert => cases hold
    | adopt =>
      cases hold
      cases hnew
      exact .inl ho
    | wake =>
      cases hold
      cases hnew
      exact .inl (by rw [t.woken_outstanding, ho])
    | delete => cases hnew
    | renew =>
      cases hold
      cases hnew
      exact .inl ho
    | claim | yield | park | retry =>
      cases hnew
      exact .inl rfl

/-! ## Queued triggers -/

def Trigger.label : Trigger → Label
  | .cancelOwnedChildren id _ => .fireCancel id
  | .manageIdempotencyKey id _ _ => .fireManage id
  | .resolveTaskResult id _ => .fireResolve id

theorem Effect.queue (effect : Effect e l s s') : s'.queued.Perm s.queued ∨
      (∃ id t new, l.writes = some id ∧ s.db.tasks.get? id = some t ∧
        s'.db.tasks.get? id = some new ∧ s'.queued = s.queued ++ afterUpdate id t new) ∨
      ∃ x rest, s.queued = x :: rest ∧ s'.queued = rest ∧ l = x.label := by
  cases effect with
  | yield row | parkSignal row | parkResult row | complete row | fail row | cancel row | retry row =>
    exact .inr (.inl ⟨_, _, _, rfl, row, get?_put_self _ _ _, rfl⟩)
  | fireCancel queue | fireManage queue | fireResolve queue =>
    exact .inr (.inr ⟨_, _, queue, rfl, rfl⟩)
  | reorder perm => exact .inl perm
  | _ => exact .inl (List.Perm.refl _)

theorem Effect.still_queued {u : Trigger} (effect : Effect e l s s') (hu : u ∈ s.queued) (hl : l ≠ u.label) :
    u ∈ s'.queued := by
  rcases effect.queue with hperm | ⟨_, _, _, -, -, -, hq⟩ | ⟨v, rest, hs, hs', hlabel⟩
  · exact hperm.mem_iff.mpr hu
  · rw [hq]
    exact List.mem_append_left _ hu
  · rw [hs] at hu
    rcases List.mem_cons.mp hu with rfl | hu
    · exact absurd hlabel hl
    · exact hs' ▸ hu

/-! ## Queues -/

section Column

variable {α : Type} {column : Queue → α} (released : ∀ q, column q.released = column q)
  (taken : ∀ q, column q.taken = column q)
include released taken

omit released taken in
theorem column_adjust {f : Queue → Queue} (hf : ∀ q, column (f q) = column q)
    (queues : Table String Queue) (n name : String) :
    ((queues.adjust n f).get? name).map column = (queues.get? name).map column := by
  rw [get?_adjust]
  split
  · rename_i hn
    rw [hn, Option.map_map]
    exact Option.map_congr fun q _ => hf q
  · rfl

theorem column_crossed (old new : TaskState) (queues : Table String Queue) (n name : String) :
    ((crossed old new n queues).get? name).map column = (queues.get? name).map column := by
  unfold crossed
  split
  · exact column_adjust released queues n name
  · split
    · exact column_adjust taken queues n name
    · rfl

theorem Effect.queueColumn (effect : Effect e l s s') (name : String)
    (hl : l ≠ .addQueue name ∧ l ≠ .configure name ∧ l ≠ .touchQueue name) :
    (s'.db.queues.get? name).map column = (s.db.queues.get? name).map column := by
  cases effect with
  | yield | parkSignal | parkResult | complete | fail | cancel | retry =>
    exact column_crossed released taken _ _ _ _ _
  | insert | materialize | phantom => exact column_adjust taken _ _ _
  | @addQueue _ n => exact congrArg _ (get?_put_of_ne _ _ fun h => hl.1 (h ▸ rfl))
  | @configure _ n => exact congrArg _ (get?_put_of_ne _ _ fun h => hl.2.1 (h ▸ rfl))
  | @touchQueue _ n => exact congrArg _ (get?_put_of_ne _ _ fun h => hl.2.2 (h ▸ rfl))
  | @fireManage _ id old new =>
    obtain ⟨keys, hk⟩ := manage_tables e id old new s.db
    rw [hk]
  | @delete _ id t =>
    obtain ⟨keys, hk⟩ := deleteTask_spec e s.db id t
    rw [hk]
  | _ => rfl

end Column

end Pgtask
