import Pgtask.Effect.Basic

/-!
# Row writes, when they return

One lemma for each write of `Triggers`: the session it leaves, and what its
checks have let through.
-/

open Sql Checked Option Table

namespace Pgtask

variable {checks : List (String × Bool)} {old new : Task} {id : Uuid} {s s' : Session}

/-! ## Checks -/

theorem require_ok {u : Unit} (h : require checks = .ok u) : Holds checks := by
  unfold require at h
  split at h
  · cases h
  · rename_i hn
    intro c hc
    have := List.find?_eq_none.mp hn c hc
    simpa using this

theorem Holds.require (h : Holds checks) : require checks = .ok () := by
  unfold Pgtask.require
  rw [List.find?_eq_none.mpr fun c hc => by simp [h c hc]]

theorem require_of_holds (h : Holds checks) : require checks = .ok () := by
  have hnone : checks.find? (fun c => !c.2) = none := by
    rw [List.find?_eq_none]
    intro c hc
    simp [h c hc]
  unfold require
  rw [hnone]

theorem require_error {err : SqlError}
    (h : require checks = .error err) : ∃ c, err = .checkViolation c := by
  unfold require at h
  split at h
  · cases h
    exact ⟨_, rfl⟩
  · cases h

theorem int4Succ_ok {n m : Nat} (h : int4Succ n = .ok m) : m = n + 1 := by
  unfold int4Succ at h
  split at h
  · cases h
    rfl
  · cases h

theorem limit_ok {n : Int} {m : Nat} (h : limit n = .ok m) : m = n.toNat ∧ 0 ≤ n := by
  unfold limit at h
  split at h
  · cases h
  · cases h
    exact ⟨rfl, by omega⟩

/-! ## States -/

theorem outstanding_eq_not (st : TaskState) : st.outstanding = !st.terminal := rfl

theorem crossed_outstanding {old new : TaskState} (h : old.outstanding = true)
    (h' : new.outstanding = true) (q : String) (queues : Table String Queue) :
    crossed old new q queues = queues := by
  unfold crossed
  rw [outstanding_eq_not, Bool.not_eq_true'] at h h'
  simp [outstanding_eq_not, h, h']

theorem afterUpdate_outstanding (h : old.state.outstanding = true)
    (h' : new.state.outstanding = true) (id : Uuid) : afterUpdate id old new = [] := by
  unfold afterUpdate
  rw [outstanding_eq_not, Bool.not_eq_true'] at h h'
  simp [outstanding_eq_not, h, h']

theorem write_outstanding (h : old.state.outstanding = true)
    (h' : new.state.outstanding = true) (s : Session) (id : Uuid) :
    s.write id old new = { s with db := { s.db with tasks := s.db.tasks.put id new } } := by
  unfold Session.write
  rw [crossed_outstanding h h', afterUpdate_outstanding h h', List.append_nil]

/-! ## Capacity -/

theorem adjust_released (db : Database) (q : String) :
    (if ((db.queues.get? q).bind Queue.maxOutstandingTasks).isSome then
      changeCapacity db q fun n => max (n - 1) 0 else db) =
      { db with queues := db.queues.adjust q Queue.released } := by
  cases hq : db.queues.get? q with
  | none => simp [adjust_of_none _ hq]
  | some x =>
    rw [adjust_of_some _ hq]
    unfold changeCapacity Queue.released
    cases hm : x.maxOutstandingTasks with
    | none => simp [hm, put_self hq]
    | some m => simp [hq, hm]

theorem take_place {db db' : Database} {q : String} {old : Option TaskState} {new : TaskState}
    (ho : old.any TaskState.outstanding = false) (hn : new.terminal = false)
    (h : enforceQueueCapacity old new q db = .ok db') :
    db' = { db with queues := db.queues.adjust q Queue.taken } ∧
      ∀ x, db.queues.get? q = some x → x.hasRoom := by
  unfold enforceQueueCapacity at h
  simp only [ho, hn, Bool.false_and, Bool.false_or, Bool.false_eq_true, if_false] at h
  cases hq : db.queues.get? q with
  | none =>
    simp only [hq, Option.bind_none, Except.ok.injEq] at h
    exact ⟨by rw [adjust_of_none _ hq, h], fun x hx => by cases hx⟩
  | some x =>
    rw [adjust_of_some _ hq]
    unfold Queue.taken Queue.hasRoom
    cases hm : x.maxOutstandingTasks with
    | none =>
      simp only [hq, bind_some, hm, Except.ok.injEq] at h
      refine ⟨by simp [← h, put_self hq], ?_⟩
      rintro y ⟨⟩ m hy
      rw [hm] at hy
      cases hy
    | some m =>
      simp only [hq, bind_some, hm, map_some, any_some, decide_eq_true_eq] at h
      split at h
      · rename_i hlt
        unfold changeCapacity at h
        simp only [hq, Except.ok.injEq] at h
        refine ⟨by simp [← h, hm], ?_⟩
        rintro y ⟨⟩ m' hy
        rw [hm] at hy
        cases hy
        exact hlt
      · cases h

/-! ## Tasks -/

theorem updateTask_spec (h : updateTask id old new s = .ok s') :
    s' = s.write id old new ∧ Holds (new.checks id) ∧
      (old.state.terminal = true → new.state.outstanding = true →
        ∀ q, s.db.queues.get? new.queueName = some q → q.hasRoom) := by
  unfold updateTask at h
  obtain ⟨db, hdb, h⟩ := bind_ok h
  obtain ⟨u, hu, h⟩ := bind_ok h
  cases h
  have hchecks := require_ok hu
  unfold Session.write crossed
  by_cases ho : old.state.outstanding = true
  · by_cases hn : new.state.terminal = true
    · -- The task finishes.
      unfold enforceQueueCapacity at hdb
      simp only [any_some, ho, hn, Bool.and_self, if_true, adjust_released,
        Except.ok.injEq] at hdb
      refine ⟨by simp [ho, hn, ← hdb], hchecks, fun ht => ?_⟩
      simp [outstanding_eq_not, ht] at ho
    · unfold enforceQueueCapacity at hdb
      simp only [any_some, ho, hn, Bool.true_and, Bool.true_or, if_true, if_false,
        Bool.false_eq_true, Except.ok.injEq] at hdb
      have ht : old.state.terminal = false := by simpa [outstanding_eq_not] using ho
      refine ⟨by simp [ho, hn, ht, ← hdb], hchecks, fun ht' => by simp [ht'] at ht⟩
  · have ht : old.state.terminal = true := by simpa [outstanding_eq_not] using ho
    by_cases hn : new.state.terminal = true
    · unfold enforceQueueCapacity at hdb
      simp only [any_some, ho, hn, Bool.false_and, Bool.or_true, if_true, if_false,
        Bool.false_eq_true, Except.ok.injEq] at hdb
      refine ⟨by simp [ho, hn, ht, outstanding_eq_not, ← hdb], hchecks, fun _ hn' => ?_⟩
      simp [outstanding_eq_not, hn] at hn'
    · -- The task is revived.
      obtain ⟨rfl, hroom⟩ := take_place (by simpa using ho) (by simpa using hn) hdb
      have hn' : new.state.outstanding = true := by simpa [outstanding_eq_not] using hn
      exact ⟨by simp [ho, ht, hn'], hchecks, fun _ _ => hroom⟩

theorem updateTaskColumns_spec (h : updateTaskColumns id new s = .ok s') :
    s' = { s with db := { s.db with tasks := s.db.tasks.put id new } } ∧
      Holds (new.checks id) := by
  unfold updateTaskColumns at h
  obtain ⟨u, hu, h⟩ := bind_ok h
  cases h
  exact ⟨rfl, require_ok hu⟩

theorem updateAttempt_spec {k : Uuid × Nat} {f : Attempt → Attempt}
    (h : updateAttempt k f s = .ok s') : s' = s.endAttempt k f := by
  unfold updateAttempt at h
  unfold Session.endAttempt
  cases hk : s.db.attempts.get? k with
  | none =>
    rw [hk] at h
    cases h
    rw [adjust_of_none f hk]
  | some a =>
    rw [hk] at h
    obtain ⟨u, hu, h⟩ := bind_ok h
    cases h
    rw [adjust_of_some f hk]

theorem wake_spec {e : Env} (h : wake e id s = .ok s') :
    s' = { s with db := { s.db with tasks := s.db.tasks.adjust id (Task.woken e.now) } } := by
  unfold wake at h
  cases ht : s.db.tasks.get? id with
  | none =>
    simp only [ht, Except.ok.injEq] at h
    rw [adjust_of_none _ ht, ← h]
  | some t =>
    simp only [ht] at h
    rw [adjust_of_some _ ht]
    unfold Task.woken
    split at h
    · rename_i hw
      obtain ⟨rfl, -, -⟩ := updateTask_spec h
      rw [if_pos hw, write_outstanding (by rw [hw]; rfl) rfl]
    · rename_i hw
      rw [if_neg hw, put_self ht]
      cases h
      rfl

/-! ## Checkpoints -/

theorem saveCheckpoint_spec {k : StepKey} {v stored : Json}
    (h : saveCheckpoint k v s = .ok (stored, s')) :
    s' = { s with db := { s.db with checkpoints := s.db.checkpoints.putNew k v } } ∧
      stored = (s.db.checkpoints.get? k).getD v ∧ Holds (checkpointChecks k v) := by
  unfold saveCheckpoint at h
  obtain ⟨u, hu, h⟩ := bind_ok h
  cases hk : s.db.checkpoints.get? k with
  | some c =>
    simp only [hk, Except.ok.injEq, Prod.mk.injEq] at h
    obtain ⟨rfl, rfl⟩ := h
    rw [putNew_of_some v hk]
    exact ⟨rfl, rfl, require_ok hu⟩
  | none =>
    simp only [hk] at h
    split at h
    · cases h
    · cases h
      rw [putNew_of_none v hk]
      exact ⟨rfl, rfl, require_ok hu⟩

theorem insertCheckpoint_spec {k : StepKey} {v : Json} (h : insertCheckpoint k v s = .ok s') :
    s.db.checkpoints.get? k = none ∧ Holds (checkpointChecks k v) ∧
      s' = { s with db := { s.db with checkpoints := s.db.checkpoints.put k v } } := by
  unfold insertCheckpoint at h
  obtain ⟨u, hu, h⟩ := bind_ok h
  split at h
  · cases h
  · rename_i hn
    cases h
    exact ⟨by simpa using hn, require_ok hu, rfl⟩

/-! ## The fence -/

theorem fenced_eq_some {db : Database} {attempt : Nat} {token : Uuid} {t : Task} :
    fenced db id attempt token = some t ↔
      db.tasks.get? id = some t ∧ t.state = .running ∧ t.attempt = attempt ∧
        t.leaseToken = some token := by
  unfold fenced
  rw [filter_eq_some_iff]
  simp [and_assoc]

end Pgtask
