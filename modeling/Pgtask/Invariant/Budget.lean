import Pgtask.Invariant.Lease

/-!
# The failure budget

`failed_attempts` counts the attempts that ended in `failed` or `lost`. A call
charges the tasks that its reply says have failed, each of them once.
-/

open Sql Checked List

namespace Pgtask

variable {s s' : Session} {ls : List Label}

def failures (tasks : Table Uuid Task) (id : Uuid) : Option Nat :=
  (tasks.get? id).bind Task.failedAttempts

variable {e : Env} {tasks : Table Uuid Task} {id j : Uuid} {t new : Task}

theorem failures_of_some (row : tasks.get? id = some t) : failures tasks id = t.failedAttempts := by
  unfold failures
  rw [row]
  rfl

/-! ## One effect -/

theorem effect_failures {l : Label} {n : Nat} (effect : Effect e l s s')
    (h : failures s.db.tasks id = some n) (kept : l ≠ .delete id) :
    failures s'.db.tasks id = some (n + if l = .fail id then 1 else 0) := by
  unfold failures at h
  obtain ⟨t, row, hn⟩ := Option.bind_eq_some_iff.mp h
  have hcount : historicalFailures s.db id t = n := by
    unfold historicalFailures
    rw [hn]
    rfl
  have step := effect.row id
  unfold failures
  rw [row] at step
  generalize s'.db.tasks.get? id = row' at step
  cases step with
  | same other =>
    have hl : l ≠ .fail id := by
      rintro rfl
      exact other rfl
    rw [if_neg hl]
    exact hn
  | claim => exact congrArg some hcount
  | fail => simp [Task.failedWith, hcount]
  | park running key label => rcases label with rfl | rfl <;> exact hn
  | adopt orphan label => rcases label with rfl | rfl <;> exact hn
  | wake key label =>
    unfold Task.woken
    rcases label with rfl | rfl <;> (simp only [Option.map_some]; split <;> exact hn)
  | delete => exact absurd rfl kept
  | renew => exact hn
  | yield => exact hn
  | complete => exact hn
  | cancel => exact hn
  | retry => exact hn

theorem effects_failures {n : Nat} (path : Effects e ls s s')
    (h : failures s.db.tasks id = some n) (kept : .delete id ∉ ls) :
    failures s'.db.tasks id = some (n + ls.count (.fail id)) := by
  induction path generalizing n with
  | nil => exact h
  | @cons l ls s s1 s2 effect path ih =>
    rw [mem_cons, not_or] at kept
    rw [ih (effect_failures effect h (Ne.symm kept.1)) kept.2, List.count_cons, Nat.add_assoc]
    simp [Nat.add_comm]

/-! ## One call -/

def charged (e : Env) (db : Database) : Call → Reply → List Uuid
  | .failTask lease _ _, .states [some _] => [lease.taskId]
  | .failTasks failures, .states replies => failedIds failures replies
  | .recoverExpired queueName n, _ => (expiredLeases e db queueName n.toNat).map Prod.fst
  | _, _ => []

theorem count_fail_cascade (h : ∀ l ∈ ls, l.cascade = true) (id : Uuid) : ls.count (.fail id) = 0 :=
  List.count_eq_zero.mpr fun hm => by cases h _ hm

theorem count_fails {ids : List Uuid} (nodup : ids.Nodup)
    (h : ∀ l ∈ ls, l.cascade = true) (id : Uuid) :
    (ids.map Label.fail ++ ls).count (.fail id) = if id ∈ ids then 1 else 0 := by
  have hinj : Function.Injective Label.fail := fun a b hab => by cases hab; rfl
  rw [List.count_append, count_fail_cascade h, Nat.add_zero, List.count_map_of_injective _ _ hinj]
  split
  · exact List.count_eq_one_of_mem nodup ‹_›
  · exact List.count_eq_zero.mpr ‹_›

theorem effects_no_fail {c : Call} {id : Uuid} (h : c.effects (.fail id)) :
    (∃ lease error ms, c = .failTask lease error ms) ∨ (∃ failures, c = .failTasks failures) ∨
      ∃ queueName n, c = .recoverExpired queueName n := by
  cases c <;> simp_all [Call.effects, Label.enqueues, Label.cascade, Label.spawns,
    Label.freshlySpawns, Label.waits,
    Label.timesOut, Label.bookkeeping, Label.materializes]

theorem exec_charges {c : Call} {r : Reply} (hq : s.queued = []) (h : exec e c s = .ok (r, s')) :
    ∃ ls, Effects e ls s s' ∧ (∀ l ∈ ls, c.effects l) ∧
      ∀ id, ls.count (.fail id) = if id ∈ charged e s.db c r then 1 else 0 := by
  obtain ⟨⟨ls, path, hls⟩, -⟩ := exec_spec hq h
  by_cases hfail : ∃ id, c.effects (.fail id)
  · obtain ⟨id, hid⟩ := hfail
    -- These calls begin with their failures and go on with the triggers.
    have hallowed : ∀ (ids : List Uuid) (ls : List Label), (∀ l ∈ ls, l.cascade = true) →
        ∀ l ∈ ids.map Label.fail ++ ls, (∃ id, l = .fail id) ∨ l.cascade = true := by
      intro ids ls hls l hl
      rcases mem_append.mp hl with hl | hl
      · obtain ⟨j, -, rfl⟩ := List.mem_map.mp hl
        exact .inl ⟨j, rfl⟩
      · exact .inr (hls l hl)
    rcases effects_no_fail hid with ⟨lease, error, ms, rfl⟩ | ⟨fs, rfl⟩ | ⟨queueName, n, rfl⟩
    · obtain ⟨a, h1, rfl⟩ := reply_ok h
      obtain ⟨⟨ls, path, hls⟩, -⟩ := failTask_spec hq h1
      cases a with
      | none => exact ⟨ls, path, fun l hl => .inr (hls l hl), count_fail_cascade hls⟩
      | some state =>
        exact ⟨_, path, hallowed [lease.taskId] ls hls, count_fails (nodup_singleton _) hls⟩
    · obtain ⟨replies, h1, rfl⟩ := reply_ok h
      obtain ⟨⟨ls, path, hls⟩, -, hnodup⟩ := failTasks_spec hq h1
      exact ⟨_, path, hallowed _ ls hls, count_fails hnodup hls⟩
    · obtain ⟨count, h1, rfl⟩ := reply_ok h
      obtain ⟨⟨ls, path, hls⟩, -⟩ := recoverExpired_spec hq h1
      rw [← Function.comp_def Label.fail Prod.fst, ← List.map_map] at path
      exact ⟨_, path, hallowed _ ls hls,
        count_fails (nodup_take_sorted _ (Table.nodup_select _ _)) hls⟩
  · rw [not_exists] at hfail
    refine ⟨ls, path, hls, fun id => ?_⟩
    have hnone : charged e s.db c r = [] := by
      unfold charged
      split
      · exact absurd (.inl ⟨id, rfl⟩) (hfail id)
      · exact absurd (.inl ⟨id, rfl⟩) (hfail id)
      · exact absurd (.inl ⟨id, rfl⟩) (hfail id)
      · rfl
    rw [hnone, if_neg not_mem_nil]
    exact List.count_eq_zero.mpr fun hm => hfail id (hls _ hm)

theorem deletes_row (path : Effects e ls s s') (h : ∀ l ∈ ls, ∃ j, l = .delete j) (id : Uuid) :
    s'.db.tasks.get? id = s.db.tasks.get? id ∨ s'.db.tasks.get? id = none := by
  induction path with
  | nil => exact .inl rfl
  | @cons l ls s s1 s2 effect path ih =>
    rw [forall_mem_cons] at h
    obtain ⟨⟨j, rfl⟩, h⟩ := h
    have step := effect.row id
    rcases ih h with h2 | h2
    · rw [h2]
      generalize s.db.tasks.get? id = row, s1.db.tasks.get? id = row1 at step
      cases step with
      | same => exact .inl rfl
      | delete => exact .inr rfl
      | park _ _ label => rcases label with h | h <;> cases h
      | insert _ label => rcases label with h | h <;> cases h
      | adopt _ label => rcases label with h | h <;> cases h
      | wake _ label => rcases label with h | h <;> cases h
    · exact .inr h2

/-! ## The budget test of a claim -/

theorem pending_claimable {db : Database} {handlers : List (String × Int)} {now : Timestamp}
    (inv : LeaseInv db.tasks db.attempts) (row : db.tasks.get? id = some t)
    (pending : t.state = .pending) (ready : t.runAt ≤ now)
    (handler : (t.taskName, t.handlerVersion) ∈ handlers) :
    claimable db t.queueName handlers now id t = true := by
  have hbudget : (historicalFailures db id t : Int) < t.maxAttempts := by
    rw [historicalFailures_eq inv row]
    exact (inv.tasks id t row).left (by rw [pending]; rfl)
  unfold claimable
  simp [pending, ready, hbudget, handler]

theorem mem_claimCandidates {db : Database} {q : Queue} {handlers : List (String × Int)} {n : Int}
    (queue : db.queues.get? t.queueName = some q) (unpaused : q.pausedAt = none)
    (row : db.tasks.get? id = some t) (hc : claimable db t.queueName handlers e.now id t = true)
    (room : (db.tasks.rows.length : Int) < n) :
    (id, t) ∈ claimCandidates e db t.queueName handlers n := by
  unfold claimCandidates
  split
  · rename_i hpaused
    simp [queue, unpaused] at hpaused
  extract_lets starved priorityCandidates
  rw [mem_append]
  by_cases hs : (id, t) ∈ starved
  · exact .inl hs
  · right
    have hlen : starved.length ≤ 1 := by
      unfold starved
      rw [length_take]
      split <;> omega
    unfold priorityCandidates
    rw [take_of_length_le, mem_insertionSort, Table.mem_select]
    · refine ⟨row, ?_⟩
      rw [hc, Bool.true_and, Bool.not_eq_true', List.any_eq_false]
      rintro ⟨j, c⟩ hx hj
      obtain ⟨hrow, -⟩ := Table.mem_select.mp (mem_take_sorted hx)
      obtain rfl : j = id := of_decide_eq_true hj
      obtain rfl : t = c := Option.some.inj (row.symm.trans hrow)
      exact hs hx
    · rw [length_insertionSort]
      exact (List.length_filter_le _ db.tasks.rows).trans (by omega)

/-- The count of failures is exact and within the budget, a task that can still run has some
budget left, and a call charges exactly the tasks whose failure it reports. -/
theorem failure_budget (server : Server) (rs : List Request) :
    (∀ id t, (run server rs).db.tasks.get? id = some t →
      t.failedAttempts = some (failureCount (run server rs).db.attempts id) ∧
      failureCount (run server rs).db.attempts id ≤ t.attempt ∧
      (failureCount (run server rs).db.attempts id : Int) ≤ t.maxAttempts ∧
      (t.state = .pending ∨ t.state = .running ∨ t.state = .waiting →
        (failureCount (run server rs).db.attempts id : Int) < t.maxAttempts) ∧
      ∀ q now handlers limit, (run server rs).db.queues.get? t.queueName = some q →
        q.pausedAt = none → t.state = .pending → t.runAt ≤ now →
        (t.taskName, t.handlerVersion) ∈ handlers →
        ((run server rs).db.tasks.rows.length : Int) < limit →
        (id, t) ∈ claimCandidates (server.envAt now) (run server rs).db t.queueName handlers limit) ∧
    ∀ r reply, (step server (run server rs) r).1 = .returned reply →
      ∀ id t, (run server rs).db.tasks.get? id = some t →
        (∃ t', (step server (run server rs) r).2.db.tasks.get? id = some t' ∧
          t'.failedAttempts = t.failedAttempts.map (· +
            if id ∈ charged (server.envAt r.now) (run server rs).db r.call reply then 1 else 0)) ∨
        (step server (run server rs) r).2.db.tasks.get? id = none ∧
          ∃ queueName n, r.call = .deleteExpiredTerminal queueName n := by
  have inv := run_lease server rs
  constructor
  · intro id t row
    have hok := inv.tasks id t row
    refine ⟨hok.failures, hok.counted, hok.budget, ?_, ?_⟩
    · intro hs
      refine hok.left ?_
      rcases hs with h | h | h <;> rw [h] <;> rfl
    · intro q now handlers limit queue unpaused pending ready handler room
      exact mem_claimCandidates queue unpaused row
        (pending_claimable inv row pending ready handler) room
  · intro r reply hreply id t row
    rcases step_spec server (run server rs) r with ⟨reply', s', hexec, hs', hout, -⟩ | ⟨error, hout, -⟩
    · rw [hout] at hreply
      cases hreply
      obtain ⟨ls, path, hls, hcount⟩ := exec_charges rfl hexec
      rw [← World.session_db (step _ _ _).2, ← hs']
      by_cases hdelete : .delete id ∈ ls
      · obtain ⟨queueName, n, hcall⟩ := effects_no_delete (hls _ hdelete)
        rw [hcall] at hls ⊢
        rcases deletes_row path hls id with hsame | hgone
        · exact Or.inl ⟨t, hsame.trans row, by simp [charged]⟩
        · exact Or.inr ⟨hgone, queueName, n, rfl⟩
      · have hok := (inv.tasks id t row).failures
        have hfail := effects_failures path ((failures_of_some row).trans hok) hdelete
        rw [hcount id] at hfail
        obtain ⟨t', row', ht'⟩ := Option.bind_eq_some_iff.mp hfail
        exact Or.inl ⟨t', row', by rw [ht', hok]; rfl⟩
    · rw [hout] at hreply
      cases hreply

end Pgtask
