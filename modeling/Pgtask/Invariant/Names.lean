import Pgtask.Invariant.Fence
import Pgtask.Worker.Decode

/-!
# Claimed rows decode

The names in the database are the names that the decoder accepts. With the
constraints of `tasks`, only the counters of a claimed row can be too large for
their Rust types.
-/

open Sql Table

namespace Pgtask

variable {e : Env} {l : Label} {s s' : Session} {server : Server}

/-- The names of queues and tasks are valid, and a task's queue is there. -/
structure NamesInv (db : Database) : Prop where
  queues : ∀ name, (db.queues.get? name).isSome = true → validName 128 name = true
  tasks : ∀ id t, db.tasks.get? id = some t →
    validName 255 t.taskName = true ∧ (db.queues.get? t.queueName).isSome = true
  schedules : ∀ id c, db.schedules.get? id = some c → validName 255 c.definition.taskName = true

theorem crossed_isSome (old new : TaskState) (queueName name : String) (queues : Table String Queue) :
    ((crossed old new queueName queues).get? name).isSome = (queues.get? name).isSome := by
  unfold crossed
  split
  · exact isSome_adjust _ _ _ _
  · split
    · exact isSome_adjust _ _ _ _
    · rfl

theorem put_isSome {queues : Table String Queue} {name : String} (q : Queue) {n : String} :
    ((queues.put name q).get? n).isSome = true ↔ n = name ∨ (queues.get? n).isSome = true := by
  rw [get?_put]
  split <;> simp [*]

theorem Effect.queueNames (effect : Effect e l s s') (name : String) :
    ((s.db.queues.get? name).isSome = true → (s'.db.queues.get? name).isSome = true) ∧
      ((s'.db.queues.get? name).isSome = true →
        (s.db.queues.get? name).isSome = true ∨ validName 128 name = true) := by
  have checkedName : ∀ {n : String} {q : Queue}, Holds (q.checks n) → validName 128 n = true :=
    fun h => h ("queues_name_check", validName 128 _) (by simp [Queue.checks])
  cases effect with
  | yield | parkSignal | parkResult | complete | fail | cancel | retry =>
    have h := crossed_isSome
    simp only [Session.write, Session.endAttempt, h]
    exact ⟨fun h => h, .inl⟩
  | insert | materialize | phantom =>
    simp only [isSome_adjust]
    exact ⟨fun h => h, .inl⟩
  | addQueue _ checked | configure _ checked =>
    simp only [put_isSome]
    refine ⟨.inr, ?_⟩
    rintro (rfl | h)
    · exact .inr (checkedName checked)
    · exact .inl h
  | touchQueue row =>
    simp only [put_isSome]
    refine ⟨.inr, ?_⟩
    rintro (rfl | h)
    · exact .inl (by rw [row]; rfl)
    · exact .inl h
  | @fireManage _ id old new =>
    obtain ⟨keys, hk⟩ := manage_tables e id old new s.db
    simp only [hk]
    exact ⟨fun h => h, .inl⟩
  | @delete _ id t =>
    obtain ⟨keys, hk⟩ := deleteTask_spec e s.db id t
    simp only [hk]
    exact ⟨fun h => h, .inl⟩
  | _ => exact ⟨fun h => h, .inl⟩

theorem Effect.scheduleNames (effect : Effect e l s s') {id : Uuid} {c : Schedule}
    (hc : s'.db.schedules.get? id = some c) : validName 255 c.definition.taskName = true ∨
      ∃ c0, s.db.schedules.get? id = some c0 ∧ c0.definition = c.definition := by
  cases effect with
  | frame planned =>
    rcases planned id c hc with ⟨checked, -⟩ | ⟨c0, h0, -, hsame⟩
    · exact .inl (checked ("schedules_task_name_check", validName 255 c.definition.taskName)
        (by simp only [Schedule.checks, List.mem_cons, true_or, or_true]))
    · exact .inr ⟨c0, h0, hsame⟩
  | @fireManage _ j old new =>
    obtain ⟨keys, hk⟩ := manage_tables e j old new s.db
    rw [hk] at hc
    exact .inr ⟨c, hc, rfl⟩
  | @delete _ j t =>
    obtain ⟨keys, hk⟩ := deleteTask_spec e s.db j t
    rw [hk] at hc
    exact .inr ⟨c, hc, rfl⟩
  | _ => exact .inr ⟨c, hc, rfl⟩

theorem Effect.newTask (effect : Effect e l s s') (h : NamesInv s.db) {id : Uuid} {t : Task}
    (ht : s'.db.tasks.get? id = some t) (label : l = .insert id ∨ l = .materialize id) :
    validName 255 t.taskName = true ∧ (s.db.queues.get? t.queueName).isSome = true := by
  cases effect with
  | insert _ _ _ _ queue _ _ named =>
    obtain rfl : _ = id := by simpa using label
    obtain ⟨q, hq, -⟩ := queue
    rw [get?_put_self] at ht
    cases ht
    exact ⟨named, by rw [hq]; rfl⟩
  | materialize _ _ _ _ _ _ _ queue _ planned =>
    obtain rfl : _ = id := by simpa using label
    obtain ⟨q, hq, -⟩ := queue
    obtain ⟨c, hc, hrow⟩ := planned
    rw [get?_put_self] at ht
    cases ht
    refine ⟨?_, by rw [hq]; rfl⟩
    rw [hrow]
    exact h.schedules _ c hc
  | _ => simp at label

theorem effect_keeps_names (effect : Effect e l s s') (h : NamesInv s.db) : NamesInv s'.db where
  queues name hname := ((effect.queueNames name).2 hname).elim (h.queues name) id
  tasks id t ht := by
    have step := effect.row id
    rw [ht] at step
    rcases step.fixed with ⟨t0, hrow, hfixed⟩ | ⟨-, label⟩
    · obtain ⟨hname, hqueue⟩ := h.tasks id t0 hrow
      simp only [Task.fixed, Prod.mk.injEq] at hfixed
      rw [hfixed.1, hfixed.2.1]
      exact ⟨hname, (effect.queueNames _).1 hqueue⟩
    · obtain ⟨hname, hqueue⟩ := effect.newTask h ht label
      exact ⟨hname, (effect.queueNames _).1 hqueue⟩
  schedules id c hc := by
    rcases effect.scheduleNames hc with hvalid | ⟨c0, h0, hsame⟩
    · exact hvalid
    · rw [← hsame]
      exact h.schedules id c0 h0

theorem run_names (server : Server) (rs : List Request) : NamesInv (run server rs).db :=
  run_keeps (I := fun s => NamesInv s.db) ⟨by simp [World.session], by simp [World.session],
    by simp [World.session]⟩ (fun _ _ _ _ effect h => effect_keeps_names effect h) rs

/-! ## Claims -/

/-- The counters of a task that the decoder can take in after one more attempt. -/
def Task.fits (t : Task) : Prop := t.attempt < 65535 ∧ t.maxAttempts ≤ 65535

instance (t : Task) : Decidable t.fits :=
  inferInstanceAs (Decidable (t.attempt < 65535 ∧ t.maxAttempts ≤ 65535))

end Pgtask
