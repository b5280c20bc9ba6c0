import Pgtask.Invariant.Kept

/-!
# Retry policies

A handler's policy is stored once and stays. A task takes it over as a whole, when it is
inserted or when it is first claimed, so that a claim never mixes two policies.
-/

open Sql Checked

namespace Pgtask

variable {t t' : Task} {db : Database} {id worker : Uuid} {ms : Int}

variable {e : Env} {l : Label} {s s' : Session} {server : Server}

def Task.handler (t : Task) : PolicyKey := ⟨t.queueName, t.taskName, t.handlerVersion⟩

def Database.policyOf (db : Database) (t : Task) : RetryColumns :=
  (db.handlerPolicies.get? t.handler).getD {}

theorem Task.handler_of_fixed (h : t'.fixed = t.fixed) : t'.handler = t.handler := by
  simp only [Task.fixed, Prod.mk.injEq] at h
  simp [Task.handler, h]

theorem RetryColumns.empty_coalesce (r : RetryColumns) : RetryColumns.coalesce {} r = r := by
  simp [RetryColumns.coalesce]

theorem RetryColumns.coalesce_self (r : RetryColumns) : r.coalesce r = r := by
  simp [RetryColumns.coalesce]

/-- The columns of a task are unset, or those of its handler's policy. -/
def Task.FollowsPolicy (db : Database) (t : Task) : Prop :=
  t.retry = {} ∨ db.handlerPolicies.get? t.handler = some t.retry

theorem Task.FollowsPolicy.of_policy (h : t.retry = db.policyOf t) : t.FollowsPolicy db := by
  unfold Task.FollowsPolicy
  unfold Database.policyOf at h
  cases hp : db.handlerPolicies.get? t.handler <;> simp_all

theorem Task.FollowsPolicy.coalesce (h : t.FollowsPolicy db) :
    t.retry.coalesce (db.policyOf t) = db.policyOf t := by
  rcases h with unset | stored
  · rw [unset, RetryColumns.empty_coalesce]
  · unfold Database.policyOf
    rw [stored]
    exact RetryColumns.coalesce_self _

structure PolicyInv (db : Database) : Prop where
  policies : ∀ k p, db.handlerPolicies.get? k = some p → p.kind.isSome = true ∧ p.wellFormed = true
  tasks : ∀ id t, db.tasks.get? id = some t → t.FollowsPolicy db

theorem Effect.policies (effect : Effect e l s s') {k : PolicyKey} :
    (∀ p, s.db.handlerPolicies.get? k = some p → s'.db.handlerPolicies.get? k = some p) ∧
      ∀ p, s'.db.handlerPolicies.get? k = some p →
        s.db.handlerPolicies.get? k = some p ∨ Holds (policyChecks k p) := by
  cases effect with
  | @policy _ k' r free checked =>
    simp only [Table.get?_put]
    split
    · rename_i hk
      subst hk
      exact ⟨fun p hp => absurd (free.symm.trans hp) (by simp), by rintro p ⟨⟩; exact .inr checked⟩
    · exact ⟨fun _ h => h, fun _ => .inl⟩
  | @fireManage _ id old new =>
    obtain ⟨keys, hk⟩ := manage_tables e id old new s.db
    simp only [hk]
    exact ⟨fun _ h => h, fun _ => .inl⟩
  | @delete _ id t =>
    obtain ⟨keys, hk⟩ := deleteTask_spec e s.db id t
    simp only [hk]
    exact ⟨fun _ h => h, fun _ => .inl⟩
  | _ => exact ⟨fun _ h => h, fun _ => .inl⟩

theorem Effect.newPolicy (effect : Effect e l s s')
    (ht : s'.db.tasks.get? id = some t) (label : l = .insert id ∨ l = .materialize id) :
    t.retry = s.db.policyOf t := by
  cases effect with
  | insert _ _ _ _ _ policy =>
    obtain rfl : _ = id := by simpa using label
    rw [Table.get?_put_self] at ht
    cases ht
    exact policy
  | materialize _ _ _ _ _ _ _ _ policy =>
    obtain rfl : _ = id := by simpa using label
    rw [Table.get?_put_self] at ht
    cases ht
    exact policy
  | _ => simp at label

theorem Task.woken_retry (now : Timestamp) (t : Task) : (t.woken now).retry = t.retry := by
  unfold Task.woken
  split <;> rfl

theorem RowStep.retryColumns (step : RowStep e db id l (some t) (some t')) :
    t'.retry = t.retry ∨ t'.retry = t.retry.coalesce (db.policyOf t) := by
  generalize hold : some t = row, hnew : some t' = row' at step
  cases step with
  | same => cases hold; cases hnew; exact .inl rfl
  | claim => cases hold; cases hnew; exact .inr rfl
  | wake =>
    cases hold
    cases hnew
    exact .inl (t.woken_retry e.now)
  | insert => cases hold
  | delete => cases hnew
  | _ =>
    cases hold
    cases hnew
    exact .inl rfl

theorem PolicyInv.row (h : PolicyInv s.db) (effect : Effect e l s s')
    (ht : s'.db.tasks.get? id = some t') :
    (∃ t, s.db.tasks.get? id = some t ∧ t'.handler = t.handler ∧ t'.retry = t.retry) ∨
      t'.retry = s.db.policyOf t' := by
  have step := effect.row id
  rw [ht] at step
  rcases step.fixed with ⟨t, row, hfixed⟩ | ⟨-, label⟩
  · have handler := Task.handler_of_fixed hfixed
    rw [row] at step
    rcases step.retryColumns with hsame | hmerged
    · exact .inl ⟨t, row, handler, hsame⟩
    · rw [(h.tasks id t row).coalesce] at hmerged
      exact .inr (by rw [hmerged]; unfold Database.policyOf; rw [handler])
  · exact .inr (effect.newPolicy ht label)

theorem effect_keeps_policies (effect : Effect e l s s') (h : PolicyInv s.db) : PolicyInv s'.db where
  policies k p hp := by
    rcases effect.policies.2 p hp with before | checked
    · exact h.policies k p before
    · exact ⟨checked ("handler_policies_retry_kind_not_null", p.kind.isSome) (by simp [policyChecks]),
        checked ("handler_policies_check", p.wellFormed) (by simp [policyChecks])⟩
  tasks id t' ht := by
    have follows : t'.FollowsPolicy s.db := by
      rcases h.row effect ht with ⟨t, row, handler, hsame⟩ | htaken
      · unfold Task.FollowsPolicy
        rw [handler, hsame]
        exact h.tasks id t row
      · exact .of_policy htaken
    exact follows.imp_right (effect.policies.1 _)

theorem run_policies (server : Server) (rs : List Request) : PolicyInv (run server rs).db :=
  run_keeps (I := fun s => PolicyInv s.db) ⟨by simp [World.session], by simp [World.session]⟩
    (fun _ _ _ _ effect h => effect_keeps_policies effect h) rs

/-! ## Runs -/

theorem run_keeps_policy {rs : List Request} {k : PolicyKey} {p : RetryColumns}
    (stored : (run server rs).db.handlerPolicies.get? k = some p) (since : List Request) :
    (run server (rs ++ since)).db.handlerPolicies.get? k = some p := by
  rw [run_append]
  refine runFrom_rule (I := fun w => w.db.handlerPolicies.get? k = some p) ?_ stored
  exact fun w r _ => step_keeps (I := fun s => s.db.handlerPolicies.get? k = some p)
    fun _ _ _ _ effect h => effect.policies.1 p h

theorem RowKept.retry {rs since : List Request}
    (kept : RowKept server rs since id) (row : (run server rs).db.tasks.get? id = some t)
    (set : t.retry ≠ {}) :
    ∃ t', (run server (rs ++ since)).db.tasks.get? id = some t' ∧ t'.retry = t.retry := by
  have stays := kept.keeps
    (I := fun s => PolicyInv s.db ∧ ∃ t', s.db.tasks.get? id = some t' ∧ t'.retry = t.retry)
    ?_ ⟨run_policies server rs, t, row, rfl⟩ (List.append_nil since).symm
  · exact stays.2
  rintro e l s s' hl effect ⟨h, t1, row1, hretry⟩
  refine ⟨effect_keeps_policies effect h, ?_⟩
  have step := effect.row id
  rw [row1] at step
  rcases step.stays with hstays | hdelete
  · obtain ⟨t2, row2⟩ := Option.isSome_iff_exists.mp hstays
    rw [row2] at step
    refine ⟨t2, row2, ?_⟩
    rcases step.retryColumns with hsame | hmerged
    · exact hsame.trans hretry
    · -- The columns are set, so they are those of the stored policy already.
      have stored := (h.tasks id t1 row1).resolve_left (hretry ▸ set)
      rw [hmerged, (h.tasks id t1 row1).coalesce, Database.policyOf, stored]
      exact hretry
  · exact absurd hdelete hl

/-! ## Claims -/

end Pgtask
