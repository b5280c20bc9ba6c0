import Pgtask.Effect.Task
import Pgtask.Run

/-!
# Leases, attempts and the failure budget

One invariant over the tables `tasks` and `attempts`. An effect changes the row
of one task, and at most one row of its attempts, in one of the ways below.
-/

open Sql Checked Option Table

namespace Pgtask

variable {f : Attempt → Attempt} {e : Env} {s : Session}

def failureCount (attempts : Table (Uuid × Nat) Attempt) (id : Uuid) : Nat :=
  attempts.count fun k a => k.1 = id && a.state.failure

structure TaskOk (attempts : Table (Uuid × Nat) Attempt) (id : Uuid) (t : Task) : Prop where
  leased : t.state = .running →
    t.leaseToken.isSome = true ∧ t.leaseOwner.isSome = true ∧ t.leaseExpiresAt.isSome = true
  unleased : t.state ≠ .running →
    t.leaseToken = none ∧ t.leaseOwner = none ∧ t.leaseExpiresAt = none
  completed : t.completedAt.isSome = t.state.terminal
  cancelled : t.cancelRequestedAt.isSome = true ↔ t.state = .cancelled
  numbered : ∀ n, (attempts.get? (id, n)).isSome = true ↔ 1 ≤ n ∧ n ≤ t.attempt
  current : t.state = .running → ∃ a, attempts.get? (id, t.attempt) = some a ∧
    a.state = .running ∧ t.leaseToken = some a.leaseToken
  ended : ∀ n a, attempts.get? (id, n) = some a → a.state = .running →
    n = t.attempt ∧ t.state = .running
  finished : ∀ n a, attempts.get? (id, n) = some a →
    (a.finishedAt.isSome = true ↔ a.state ≠ .running)
  failures : t.failedAttempts = some (failureCount attempts id)
  counted : failureCount attempts id ≤ t.attempt
  counting : t.state = .running → failureCount attempts id < t.attempt
  budget : (failureCount attempts id : Int) ≤ t.maxAttempts
  left : t.state.outstanding = true → (failureCount attempts id : Int) < t.maxAttempts

structure LeaseInv (tasks : Table Uuid Task) (attempts : Table (Uuid × Nat) Attempt) : Prop where
  owned : ∀ k a, attempts.get? k = some a → (tasks.get? k.1).isSome = true
  tasks : ∀ id t, tasks.get? id = some t → TaskOk attempts id t

variable {tasks : Table Uuid Task} {attempts attempts' : Table (Uuid × Nat) Attempt} {id : Uuid}
  {t new : Task}

/-! ## Other tasks -/

theorem TaskOk.congr (h : TaskOk attempts id t)
    (hget : ∀ n, attempts'.get? (id, n) = attempts.get? (id, n))
    (hcount : failureCount attempts' id = failureCount attempts id) : TaskOk attempts' id t where
  leased := h.leased
  unleased := h.unleased
  completed := h.completed
  cancelled := h.cancelled
  numbered n := by rw [hget]; exact h.numbered n
  current hr := by rw [hget]; exact h.current hr
  ended n a ha := h.ended n a (by rw [← hget]; exact ha)
  finished n a ha := h.finished n a (by rw [← hget]; exact ha)
  failures := by rw [hcount]; exact h.failures
  counted := by rw [hcount]; exact h.counted
  counting := by rw [hcount]; exact h.counting
  budget := by rw [hcount]; exact h.budget
  left := by rw [hcount]; exact h.left

theorem LeaseInv.put (h : LeaseInv tasks attempts)
    (hown : ∀ k a, attempts'.get? k = some a → k.1 = id ∨ attempts.get? k ≠ none)
    (hget : ∀ j, j ≠ id → ∀ n, attempts'.get? (j, n) = attempts.get? (j, n))
    (hcount : ∀ j, j ≠ id → failureCount attempts' j = failureCount attempts j)
    (hnew : TaskOk attempts' id new) : LeaseInv (tasks.put id new) attempts' where
  owned k a ha := by
    rw [get?_put]
    split
    · rfl
    · rename_i hk
      rcases hown k a ha with hk' | hk'
      · exact absurd hk' hk
      · obtain ⟨b, hb⟩ := ne_none_iff_exists'.mp hk'
        exact h.owned k b hb
  tasks j c hc := by
    rw [get?_put] at hc
    split at hc
    · rename_i hj
      cases hc
      exact hj ▸ hnew
    · rename_i hj
      exact (h.tasks j c hc).congr (hget j hj) (hcount j hj)

theorem LeaseInv.putTask (h : LeaseInv tasks attempts) (hnew : TaskOk attempts id new) :
    LeaseInv (tasks.put id new) attempts :=
  h.put (fun _ _ ha => .inr (by rw [ha]; exact some_ne_none _)) (fun _ _ _ => rfl)
    (fun _ _ => rfl) hnew

theorem LeaseInv.putAdjust {n : Nat} (h : LeaseInv tasks attempts)
    (hnew : TaskOk (attempts.adjust (id, n) f) id new) :
    LeaseInv (tasks.put id new) (attempts.adjust (id, n) f) := by
  refine h.put ?_ ?_ ?_ hnew
  · intro k a ha
    rw [get?_adjust] at ha
    split at ha
    · rename_i hk
      exact .inl (by rw [hk])
    · exact .inr (by rw [ha]; exact some_ne_none _)
  · intro j hj m
    rw [get?_adjust, if_neg (by simp [hj])]
  · intro j hj
    refine count_adjust fun r _ => ?_
    simp [Ne.symm hj]

/-! ## One task -/

structure SameLease (t new : Task) : Prop where
  running : new.state = .running ↔ t.state = .running
  terminal : new.state.terminal = t.state.terminal
  cancelled : new.state = .cancelled ↔ t.state = .cancelled
  attempt : new.attempt = t.attempt
  maxAttempts : new.maxAttempts = t.maxAttempts
  failedAttempts : new.failedAttempts = t.failedAttempts
  leaseToken : new.leaseToken = t.leaseToken
  leaseOwner : new.leaseOwner = t.leaseOwner
  leaseExpiresAt : new.leaseExpiresAt.isSome = t.leaseExpiresAt.isSome
  completedAt : new.completedAt = t.completedAt
  cancelRequestedAt : new.cancelRequestedAt = t.cancelRequestedAt

theorem TaskOk.same (h : TaskOk attempts id t) (s : SameLease t new) : TaskOk attempts id new where
  leased hr := by
    rw [s.leaseToken, s.leaseOwner, s.leaseExpiresAt]
    exact h.leased (s.running.mp hr)
  unleased hr := by
    have := h.unleased (fun ht => hr (s.running.mpr ht))
    have hexp : new.leaseExpiresAt = none := by
      rw [← not_isSome_iff_eq_none, s.leaseExpiresAt, this.2.2]
      simp
    rw [s.leaseToken, s.leaseOwner]
    exact ⟨this.1, this.2.1, hexp⟩
  completed := by rw [s.completedAt, s.terminal, h.completed]
  cancelled := by rw [s.cancelRequestedAt, s.cancelled, h.cancelled]
  numbered n := by rw [s.attempt]; exact h.numbered n
  current hr := by
    rw [s.attempt, s.leaseToken]
    exact h.current (s.running.mp hr)
  ended n a ha hr := by
    rw [s.attempt, s.running]
    exact h.ended n a ha hr
  finished := h.finished
  failures := by rw [s.failedAttempts, h.failures]
  counted := by rw [s.attempt]; exact h.counted
  counting hr := by
    rw [s.attempt]
    exact h.counting (s.running.mp hr)
  budget := by rw [s.maxAttempts]; exact h.budget
  left ho := by
    rw [s.maxAttempts]
    refine h.left ?_
    rwa [TaskState.outstanding, s.terminal] at ho

theorem TaskOk.leave (h : TaskOk attempts id t) (running : t.state = .running)
    (hf : ∀ a : Attempt, a.state = .running → (f a).state ≠ .running ∧ (f a).finishedAt.isSome = true)
    (attempt : new.attempt = t.attempt) (maxAttempts : new.maxAttempts = t.maxAttempts)
    (stopped : new.state ≠ .running)
    (unleased : new.leaseToken = none ∧ new.leaseOwner = none ∧ new.leaseExpiresAt = none)
    (completed : new.completedAt.isSome = new.state.terminal)
    (cancelled : new.cancelRequestedAt.isSome = true ↔ new.state = .cancelled)
    (charge : ∀ a : Attempt, a.state = .running → ∃ c : Nat, c ≤ 1 ∧
      (if (f a).state.failure then 1 else 0) = c ∧
      new.failedAttempts = t.failedAttempts.map (· + c) ∧
      (new.state.outstanding = true → (failureCount attempts id + c : Int) < t.maxAttempts)) :
    TaskOk (attempts.adjust (id, t.attempt) f) id new := by
  obtain ⟨a, ha, har, htoken⟩ := h.current running
  obtain ⟨c, hc, hfc, hfailed, hleft⟩ := charge a har
  have hcount : failureCount (attempts.adjust (id, t.attempt) f) id = failureCount attempts id + c := by
    have := count_put_old (fun k a => decide (k.1 = id) && a.state.failure) (f a) ha
    have hnot : a.state.failure = false := by rw [har]; rfl
    unfold failureCount
    rw [adjust_of_some f ha]
    simp only [decide_true, Bool.true_and, hnot, Bool.false_eq_true, if_false] at this
    omega
  have hlt := h.counting running
  have hget : ∀ n b, (attempts.adjust (id, t.attempt) f).get? (id, n) = some b →
      (n = t.attempt ∧ b = f a) ∨ (n ≠ t.attempt ∧ attempts.get? (id, n) = some b) := by
    intro n b hb
    rw [get?_adjust] at hb
    split at hb
    · rename_i hn
      rw [ha, map_some, Option.some.injEq] at hb
      exact .inl ⟨by simpa using hn, hb.symm⟩
    · rename_i hn
      exact .inr ⟨by simpa using hn, hb⟩
  exact {
    leased := fun hr => absurd hr stopped
    unleased := fun _ => unleased
    completed := completed
    cancelled := cancelled
    numbered := fun n => by
      rw [attempt, get?_adjust, ← h.numbered n]
      split
      · rename_i hn
        rw [hn, isSome_map]
      · rfl
    current := fun hr => absurd hr stopped
    ended := fun n b hb hr => by
      rcases hget n b hb with ⟨-, rfl⟩ | ⟨hn, hb⟩
      · exact absurd hr (hf a har).1
      · exact absurd (h.ended n b hb hr).1 hn
    finished := fun n b hb => by
      rcases hget n b hb with ⟨-, rfl⟩ | ⟨hn, hb⟩
      · exact iff_of_true (hf a har).2 (hf a har).1
      · exact h.finished n b hb
    failures := by rw [hfailed, h.failures, hcount, map_some]
    counted := by rw [hcount, attempt]; omega
    counting := fun hr => absurd hr stopped
    budget := by
      have := h.left (by rw [running]; rfl)
      rw [hcount, maxAttempts]
      push_cast
      omega
    left := fun ho => by
      rw [hcount, maxAttempts]
      push_cast
      exact hleft ho }

theorem TaskOk.leave_uncharged (h : TaskOk attempts id t) (running : t.state = .running)
    (hf : ∀ a : Attempt, a.state = .running → (f a).state ≠ .running ∧
      (f a).finishedAt.isSome = true ∧ (f a).state.failure = false)
    (attempt : new.attempt = t.attempt) (maxAttempts : new.maxAttempts = t.maxAttempts)
    (failedAttempts : new.failedAttempts = t.failedAttempts) (stopped : new.state ≠ .running)
    (unleased : new.leaseToken = none ∧ new.leaseOwner = none ∧ new.leaseExpiresAt = none)
    (completed : new.completedAt.isSome = new.state.terminal)
    (cancelled : new.cancelRequestedAt.isSome = true ↔ new.state = .cancelled) :
    TaskOk (attempts.adjust (id, t.attempt) f) id new := by
  refine h.leave running (fun a ha => ⟨(hf a ha).1, (hf a ha).2.1⟩) attempt maxAttempts stopped
    unleased completed cancelled fun a ha => ⟨0, Nat.zero_le _, by simp [(hf a ha).2.2], ?_, ?_⟩
  · simp [failedAttempts]
  · intro _
    simpa using h.left (by rw [running]; rfl)

theorem TaskOk.idle (h : TaskOk attempts id t) (idle : t.state ≠ .running)
    (stopped : new.state ≠ .running) (attempt : new.attempt = t.attempt)
    (failedAttempts : new.failedAttempts = t.failedAttempts)
    (unleased : new.leaseToken = none ∧ new.leaseOwner = none ∧ new.leaseExpiresAt = none)
    (completed : new.completedAt.isSome = new.state.terminal)
    (cancelled : new.cancelRequestedAt.isSome = true ↔ new.state = .cancelled)
    (budget : (failureCount attempts id : Int) ≤ new.maxAttempts)
    (left : new.state.outstanding = true → (failureCount attempts id : Int) < new.maxAttempts) :
    TaskOk attempts id new where
  leased hr := absurd hr stopped
  unleased _ := unleased
  completed := completed
  cancelled := cancelled
  numbered n := by rw [attempt]; exact h.numbered n
  current hr := absurd hr stopped
  ended n a ha hr := absurd (h.ended n a ha hr).2 idle
  finished := h.finished
  failures := by rw [failedAttempts, h.failures]
  counted := by rw [attempt]; exact h.counted
  counting hr := absurd hr stopped
  budget := budget
  left := left

theorem TaskOk.claim {a : Attempt} (h : TaskOk attempts id t) (pending : t.state = .pending)
    (ha : a.state = .running ∧ a.finishedAt = none) (running : new.state = .running)
    (attempt : new.attempt = t.attempt + 1) (maxAttempts : new.maxAttempts = t.maxAttempts)
    (failedAttempts : new.failedAttempts = t.failedAttempts)
    (leased : new.leaseToken = some a.leaseToken ∧ new.leaseOwner.isSome = true ∧
      new.leaseExpiresAt.isSome = true) (completed : new.completedAt = t.completedAt)
    (cancelled : new.cancelRequestedAt = t.cancelRequestedAt) :
    TaskOk (attempts.put (id, t.attempt + 1) a) id new := by
  have hfree : attempts.get? (id, t.attempt + 1) = none := by
    rw [← not_isSome_iff_eq_none, h.numbered]
    omega
  have hcount : failureCount (attempts.put (id, t.attempt + 1) a) id = failureCount attempts id := by
    unfold failureCount
    rw [count_put_new _ _ hfree]
    simp [ha.1, AttemptState.failure]
  have hget : ∀ n b, (attempts.put (id, t.attempt + 1) a).get? (id, n) = some b →
      (n = t.attempt + 1 ∧ b = a) ∨ (n ≠ t.attempt + 1 ∧ attempts.get? (id, n) = some b) := by
    intro n b hb
    rw [get?_put] at hb
    split at hb
    · rename_i hn
      exact .inl ⟨by simpa using hn, (some.inj hb).symm⟩
    · rename_i hn
      exact .inr ⟨by simpa using hn, hb⟩
  have hold := h.left (by rw [pending]; rfl)
  exact {
    leased := fun _ => ⟨by rw [leased.1]; rfl, leased.2⟩
    unleased := fun hr => absurd running hr
    completed := by
      rw [completed, h.completed, pending, running]
      rfl
    cancelled := by
      rw [cancelled, h.cancelled, pending, running]
      simp
    numbered := fun n => by
      rw [attempt, get?_put]
      split
      · rename_i hn
        have hn : n = t.attempt + 1 := by simpa using hn
        simp [hn]
      · rename_i hn
        have hn : n ≠ t.attempt + 1 := by simpa using hn
        rw [h.numbered]
        omega
    current := fun _ => ⟨a, by rw [attempt]; exact get?_put_self _ _ _, ha.1, leased.1⟩
    ended := fun n b hb hr => by
      rcases hget n b hb with ⟨rfl, -⟩ | ⟨hn, hb⟩
      · exact ⟨attempt.symm, running⟩
      · have := (h.ended n b hb hr).2
        rw [pending] at this
        cases this
    finished := fun n b hb => by
      rcases hget n b hb with ⟨-, rfl⟩ | ⟨hn, hb⟩
      · simp [ha.1, ha.2]
      · exact h.finished n b hb
    failures := by rw [failedAttempts, h.failures, hcount]
    counted := by rw [hcount, attempt]; exact Nat.le_succ_of_le h.counted
    counting := fun _ => by rw [hcount, attempt]; exact Nat.lt_succ_of_le h.counted
    budget := by rw [hcount, maxAttempts]; exact h.budget
    left := fun _ => by rw [hcount, maxAttempts]; exact hold }

theorem TaskOk.fresh (hn : ∀ n, attempts.get? (id, n) = none) (new : t.New) : TaskOk attempts id t := by
  have hcount : failureCount attempts id = 0 := by
    refine Table.count_eq_zero fun k a hk => ?_
    rw [Bool.and_eq_false_iff, decide_eq_false_iff_not]
    refine .inl fun hid => ?_
    have := hn k.2
    rw [← hid, Prod.mk.eta, hk] at this
    cases this
  exact {
    leased := fun hr => by rw [new.state] at hr; cases hr
    unleased := fun _ => ⟨new.leaseToken, new.leaseOwner, new.leaseExpiresAt⟩
    completed := by rw [new.completedAt, new.state]; rfl
    cancelled := by rw [new.cancelRequestedAt, new.state]; simp
    numbered := fun n => by
      rw [hn, new.attempt, isSome_none, Bool.false_eq_true, false_iff]
      omega
    current := fun hr => by rw [new.state] at hr; cases hr
    ended := fun n a ha => by rw [hn] at ha; cases ha
    finished := fun n a ha => by rw [hn] at ha; cases ha
    failures := by rw [new.failedAttempts, hcount]
    counted := by rw [hcount]; exact Nat.zero_le _
    counting := fun hr => by rw [new.state] at hr; cases hr
    budget := by rw [hcount]; exact new.maxAttempts.le
    left := fun _ => by rw [hcount]; exact new.maxAttempts }

/-! ## Effects -/

theorem TaskOk.unfinished (h : TaskOk attempts id t) (ho : t.state.outstanding = true) :
    t.completedAt = none ∧ t.cancelRequestedAt = none := by
  have hnot : t.state.terminal = false := by simpa [TaskState.outstanding] using ho
  constructor
  · rw [← not_isSome_iff_eq_none, h.completed, hnot]
    exact Bool.noConfusion
  · rw [← not_isSome_iff_eq_none, h.cancelled]
    intro hc
    rw [hc] at hnot
    cases hnot

theorem LeaseInv.free (h : LeaseInv tasks attempts) (hid : tasks.get? id = none) (n : Nat) :
    attempts.get? (id, n) = none := by
  cases ha : attempts.get? (id, n) with
  | none => rfl
  | some a =>
    have := h.owned (id, n) a ha
    rw [hid] at this
    cases this

theorem sameLease_woken (now : Timestamp) (t : Task) : SameLease t (t.woken now) := by
  unfold Task.woken
  split
  · rename_i hw
    exact ⟨by simp [hw], by rw [hw]; rfl, by simp [hw], rfl, rfl, rfl, rfl, rfl, rfl, rfl, rfl⟩
  · exact ⟨Iff.rfl, rfl, Iff.rfl, rfl, rfl, rfl, rfl, rfl, rfl, rfl, rfl⟩

theorem LeaseInv.woken {j : Uuid} {now : Timestamp} (h : LeaseInv tasks attempts) :
    LeaseInv (tasks.adjust j (Task.woken now)) attempts := by
  cases hj : tasks.get? j with
  | none => rwa [adjust_of_none _ hj]
  | some c =>
    rw [adjust_of_some _ hj]
    exact h.putTask ((h.tasks j c hj).same (sameLease_woken now c))

theorem historicalFailures_eq {db : Database} (h : LeaseInv db.tasks db.attempts)
    (hid : db.tasks.get? id = some t) : historicalFailures db id t = failureCount db.attempts id := by
  unfold historicalFailures
  rw [(h.tasks id t hid).failures, getD_some]

theorem LeaseInv.deleted {db : Database} (h : LeaseInv db.tasks db.attempts)
    (childless : Childless db id) :
    LeaseInv (deleteTask e db (id, t)).tasks (deleteTask e db (id, t)).attempts := by
  have hattempts : (deleteTask e db (id, t)).attempts = db.attempts.delete fun k _ => k.1 = id := by
    obtain ⟨keys, hd⟩ := deleteTask_spec e db id t
    rw [hd]
  have hother : ∀ k : Uuid × Nat, k.1 ≠ id →
      (db.attempts.delete fun k _ => decide (k.1 = id)).get? k = db.attempts.get? k := by
    intro k hk
    rw [get?_delete]
    cases db.attempts.get? k <;> simp [hk]
  constructor
  · intro k a ha
    rw [hattempts, get?_delete_eq_some, decide_eq_false_iff_not] at ha
    rw [deleteTask_get? t childless, if_neg ha.2]
    exact h.owned k a ha.1
  · intro j c hj
    rw [deleteTask_get? t childless] at hj
    split at hj
    · cases hj
    · rename_i hne
      rw [hattempts]
      refine (h.tasks j c hj).congr (fun n => hother (j, n) hne) ?_
      unfold failureCount
      rw [count_delete]
      refine count_congr fun k a _ => ?_
      by_cases hk : k.1 = j
      · simp [hk, hne]
      · simp [hk]

theorem TaskOk.cancel_idle (h : TaskOk attempts id t) (idle : t.state ≠ .running) (f : Attempt → Attempt) :
    attempts.adjust (id, t.attempt) (fun a => if a.state = .running then f a else a) = attempts := by
  cases ha : attempts.get? (id, t.attempt) with
  | none => exact adjust_of_none _ ha
  | some a =>
    have hna : a.state ≠ .running := fun hr => idle (h.ended _ a ha hr).2
    rw [adjust_of_some _ ha, if_neg hna, put_self ha]

theorem effect_keeps_lease {l : Label} {s' : Session} (effect : Effect e l s s')
    (h : LeaseInv s.db.tasks s.db.attempts) : LeaseInv s'.db.tasks s'.db.attempts := by
  cases effect with
  | @claim _ id worker token t attempt ms row pending budget next fresh free =>
    subst next
    have hok := h.tasks id t row
    refine h.put ?_ ?_ ?_ (hok.claim pending ⟨rfl, rfl⟩ rfl rfl rfl ?_ ⟨rfl, rfl, rfl⟩ rfl rfl)
    · intro k a ha
      rw [get?_put] at ha
      split at ha
      · rename_i hk
        exact .inl (by rw [hk])
      · exact .inr (by rw [ha]; exact some_ne_none _)
    · intro j hj n
      exact get?_put_of_ne _ _ (by simp [hj])
    · intro j hj
      unfold failureCount
      rw [count_put_new _ _ free]
      simp [Ne.symm hj]
    · simp only [Task.claimed]
      rw [historicalFailures_eq h row, hok.failures]
  | renew row running =>
    have hexp := ((h.tasks _ _ row).leased running).2.2
    exact h.putTask ((h.tasks _ _ row).same
      ⟨Iff.rfl, rfl, Iff.rfl, rfl, rfl, rfl, rfl, rfl, by rw [hexp]; rfl, rfl, rfl⟩)
  | yield row running kind =>
    have hok := h.tasks _ _ row
    obtain ⟨hcompleted, hcancelled⟩ := hok.unfinished (by rw [running]; rfl)
    refine h.putAdjust (hok.leave_uncharged running ?_ rfl rfl rfl TaskState.noConfusion
      ⟨rfl, rfl, rfl⟩ (by simp [Task.yielded, hcompleted, TaskState.terminal])
      (by simp [Task.yielded, hcancelled]))
    intro a _
    rcases kind with rfl | rfl <;> exact ⟨AttemptState.noConfusion, rfl, rfl⟩
  | parkSignal row running =>
    have hok := h.tasks _ _ row
    obtain ⟨hcompleted, hcancelled⟩ := hok.unfinished (by rw [running]; rfl)
    exact h.putAdjust (hok.leave_uncharged running
      (fun a _ => ⟨AttemptState.noConfusion, rfl, rfl⟩) rfl rfl rfl TaskState.noConfusion
      ⟨rfl, rfl, rfl⟩ (by simp [Task.parked, hcompleted, TaskState.terminal])
      (by simp [Task.parked, hcancelled]))
  | parkResult row running =>
    have hok := h.tasks _ _ row
    obtain ⟨hcompleted, hcancelled⟩ := hok.unfinished (by rw [running]; rfl)
    exact h.putAdjust (hok.leave_uncharged running
      (fun a _ => ⟨AttemptState.noConfusion, rfl, rfl⟩) rfl rfl rfl TaskState.noConfusion
      ⟨rfl, rfl, rfl⟩ (by simp [Task.parked, hcompleted, TaskState.terminal])
      (by simp [Task.parked, hcancelled]))
  | complete row running =>
    have hok := h.tasks _ _ row
    obtain ⟨-, hcancelled⟩ := hok.unfinished (by rw [running]; rfl)
    exact h.putAdjust (hok.leave_uncharged running
      (fun a _ => ⟨AttemptState.noConfusion, rfl, rfl⟩) rfl rfl rfl TaskState.noConfusion
      ⟨rfl, rfl, rfl⟩ rfl (by simp [Task.completed, hcancelled]))
  | @fail _ id t error retry runAt ended row running kind =>
    have hok := h.tasks _ _ row
    obtain ⟨-, hcancelled⟩ := hok.unfinished (by rw [running]; rfl)
    have hhist := historicalFailures_eq h row
    refine h.putAdjust (hok.leave running ?_ rfl rfl ?_ ⟨rfl, rfl, rfl⟩ ?_ ?_ ?_)
    · intro a _
      rcases kind with rfl | rfl <;> exact ⟨AttemptState.noConfusion, rfl⟩
    · unfold Task.failedWith
      simp only
      split <;> exact TaskState.noConfusion
    · unfold Task.failedWith
      simp only
      split <;> rfl
    · unfold Task.failedWith
      simp only [hcancelled]
      split <;> simp
    · -- The one transition that charges the budget.
      intro a _
      refine ⟨1, le_refl 1, ?_, ?_, ?_⟩
      · rcases kind with rfl | rfl <;> rfl
      · simp [Task.failedWith, hok.failures, hhist]
      · intro ho
        unfold Task.failedWith at ho
        simp only at ho
        split at ho
        · rename_i hagain
          rw [Bool.and_eq_true, decide_eq_true_eq, hhist] at hagain
          exact_mod_cast hagain.2
        · cases ho
  | @cancel _ id t error row unfinished =>
    have hok := h.tasks _ _ row
    by_cases hr : t.state = .running
    · refine h.putAdjust (hok.leave_uncharged hr ?_ rfl rfl rfl TaskState.noConfusion
        ⟨rfl, rfl, rfl⟩ rfl (by simp [Task.cancelledAt]))
      intro a ha
      simp only [if_pos ha]
      exact ⟨AttemptState.noConfusion, rfl, rfl⟩
    · simp only [Session.endAttempt, Session.write]
      rw [hok.cancel_idle hr]
      exact h.putTask (hok.idle hr TaskState.noConfusion rfl rfl ⟨rfl, rfl, rfl⟩ rfl
        (by simp [Task.cancelledAt]) hok.budget (fun ho => by cases ho))
  | @retry _ id t row ended room _ =>
    have hok := h.tasks _ _ row
    have hidle : t.state ≠ .running := by
      rcases ended with hs | hs <;> rw [hs] <;> exact TaskState.noConfusion
    have hmax : (failureCount s.db.attempts id : Int) <
        max t.maxAttempts (historicalFailures s.db id t + 1) := by
      rw [historicalFailures_eq h row]
      omega
    exact h.putTask (hok.idle hidle TaskState.noConfusion rfl rfl ⟨rfl, rfl, rfl⟩ rfl
      (by simp [Task.retried]) hmax.le (fun _ => hmax))
  | insert fresh free new => exact h.putTask (.fresh (h.free free) new)
  | materialize fresh free new => exact h.putTask (.fresh (h.free free) new)
  | adopt row =>
    exact h.putTask ((h.tasks _ _ row).same
      ⟨Iff.rfl, rfl, Iff.rfl, rfl, rfl, rfl, rfl, rfl, rfl, rfl, rfl⟩)
  | adoptStored row =>
    exact h.putTask ((h.tasks _ _ row).same
      ⟨Iff.rfl, rfl, Iff.rfl, rfl, rfl, rfl, rfl, rfl, rfl, rfl, rfl⟩)
  | deliver => exact h.woken
  | deliverResult => exact h.woken
  | @fireManage _ id old new =>
    obtain ⟨keys, hk⟩ := manage_tables e id old new s.db
    rw [hk]
    exact h
  | delete row finished childless => exact h.deleted childless
  | _ => exact h

theorem leaseInv_empty : LeaseInv (World.session {}).db.tasks (World.session {}).db.attempts where
  owned _ _ h := by simp at h
  tasks _ _ h := by simp at h

theorem run_lease (server : Server) (rs : List Request) :
    LeaseInv (run server rs).db.tasks (run server rs).db.attempts := by
  have h : LeaseInv (run server rs).session.db.tasks (run server rs).session.db.attempts :=
    run_keeps (I := fun s => LeaseInv s.db.tasks s.db.attempts)
    leaseInv_empty (fun _ _ _ _ => effect_keeps_lease) rs
  simpa only [World.session_db] using h

/-! ## The columns of a lease -/

theorem claimRow_no_conflict {worker id : Uuid} {ms : Int} {t : Task}
    (h : LeaseInv s.db.tasks s.db.attempts) (row : s.db.tasks.get? id = some t) :
    claimRow e worker ms (id, t) s ≠ .error (.uniqueViolation "attempts_pkey") := by
  have hfree : s.db.attempts.get? (id, t.attempt + 1) = none := by
    rw [← not_isSome_iff_eq_none, (h.tasks id t row).numbered]
    omega
  intro herr
  unfold claimRow genRandomUuid at herr
  rcases bind_eq_error.mp herr with herr | ⟨attempt, hattempt, herr⟩
  · unfold int4Succ at herr
    split at herr <;> cases herr
  obtain rfl := int4Succ_ok hattempt
  rcases bind_eq_error.mp herr with herr | ⟨s1, h1, herr⟩
  · unfold updateTask at herr
    rcases bind_eq_error.mp herr with herr | ⟨db, -, herr⟩
    · unfold enforceQueueCapacity at herr
      simp only at herr
      repeat' split at herr
      all_goals cases herr
    rcases bind_eq_error.mp herr with herr | ⟨u, -, herr⟩
    · obtain ⟨c, hc⟩ := require_error herr
      cases hc
    · cases herr
  obtain ⟨rfl, -, -⟩ := updateTask_spec h1
  simp [Session.write, hfree] at herr

theorem claimRows_no_conflict {worker : Uuid} {ms : Int} {rows : List (Uuid × Task)} (h : LeaseInv s.db.tasks s.db.attempts) (nodup : (rows.map Prod.fst).Nodup)
    (current : ∀ x ∈ rows, Candidate e s.db x) :
    claimRows e worker ms rows s ≠ .error (.uniqueViolation "attempts_pkey") := by
  induction rows generalizing s with
  | nil => nofun
  | cons x rows ih =>
    intro herr
    obtain ⟨row, pending, budget, ready⟩ := current x List.mem_cons_self
    unfold claimRows at herr
    rcases bind_eq_error.mp herr with herr | ⟨⟨c, s1⟩, h1, herr⟩
    · exact claimRow_no_conflict h row herr
    rcases bind_eq_error.mp herr with herr | ⟨y, -, herr⟩
    · obtain ⟨l, effect, -⟩ := claimRow_spec row pending budget ready h1
      exact ih (effect_keeps_lease effect h) (List.nodup_cons.mp nodup).2
        (claimRow_keeps nodup current h1) herr
    · cases herr

/-- A task's lease, its terminal columns and its attempts agree after every run, and the
insert that a claim does into `attempts` is never a duplicate. -/
theorem lease_columns_agree (server : Server) (rs : List Request) :
    (∀ id t, (run server rs).db.tasks.get? id = some t → (if t.state = .running then
          t.leaseToken.isSome ∧ t.leaseOwner.isSome ∧ t.leaseExpiresAt.isSome
        else t.leaseToken = none ∧ t.leaseOwner = none ∧ t.leaseExpiresAt = none) ∧
      (t.completedAt.isSome ↔ t.state = .succeeded ∨ t.state = .failed ∨ t.state = .cancelled) ∧
      (t.cancelRequestedAt.isSome ↔ t.state = .cancelled) ∧
      (∀ n, ((run server rs).db.attempts.get? (id, n)).isSome ↔ 1 ≤ n ∧ n ≤ t.attempt) ∧
      (t.state = .running → ∃ a, (run server rs).db.attempts.get? (id, t.attempt) = some a ∧
        a.state = .running ∧ t.leaseToken = some a.leaseToken) ∧
      ∀ n a, (run server rs).db.attempts.get? (id, n) = some a →
        (a.state = .running → n = t.attempt ∧ t.state = .running) ∧
        (a.finishedAt.isSome ↔ a.state ≠ .running)) ∧
    ∀ now queueName workerId taskNames handlerVersions limit leaseMilliseconds,
      (step server (run server rs) ⟨now, .claim queueName workerId taskNames handlerVersions limit
        leaseMilliseconds⟩).1 ≠ .raised (.uniqueViolation "attempts_pkey") := by
  have inv := run_lease server rs
  constructor
  · intro id t row
    have hok := inv.tasks id t row
    refine ⟨?_, ?_, hok.cancelled, hok.numbered, hok.current, ?_⟩
    · split
      · exact hok.leased ‹_›
      · exact hok.unleased ‹_›
    · rw [hok.completed]
      cases t.state <;> simp [TaskState.terminal]
    · intro n a ha
      exact ⟨hok.ended n a ha, hok.finished n a ha⟩
  · intro now queueName workerId taskNames handlerVersions limit leaseMilliseconds hraised
    obtain ⟨hnodup, hcurrent⟩ := claimCandidates_spec (server.envAt now) (run server rs).session.db
      queueName (taskNames.zip handlerVersions) limit
    exact claimRows_no_conflict (s := (run server rs).session) inv hnodup hcurrent
      (map_eq_error.mp (step_raised hraised).1)

end Pgtask
