import Pgtask.Effect.Task
import Pgtask.Run

/-!
# The capacity counter

The trigger `enforce_queue_capacity` keeps a counter in each limited queue. The
counter is the number of unfinished tasks of the queue, except that an
occurrence that `materialize_schedule` skips is counted as well.
-/

open Sql Table

namespace Pgtask

variable {e : Env} {l : Label} {s s' : Session} {db db' : Database} {id : Uuid} {t new : Task}
  {server : Server}

def CapacityInv (db : Database) : Prop :=
  ∀ name q, db.queues.get? name = some q → q.maxOutstandingTasks.isSome = true →
    q.capacityOutstandingTasks = outstandingIn db name

/-! ## Writes -/

theorem CapacityInv.same (h : CapacityInv db) (queues : db'.queues = db.queues)
    (tasks : ∀ name, outstandingIn db' name = outstandingIn db name) : CapacityInv db' := by
  intro name q hq hlimit
  rw [tasks, h name q (queues ▸ hq) hlimit]

theorem outstandingIn_put (row : db.tasks.get? id = some t) (tasks : db'.tasks = db.tasks.put id new)
    (queue : new.queueName = t.queueName) (state : new.state.outstanding = t.state.outstanding)
    (name : String) : outstandingIn db' name = outstandingIn db name := by
  have := count_put_old (fun _ t => t.queueName = name && t.state.outstanding) new row
  rw [queue, state] at this
  unfold outstandingIn
  rw [tasks]
  omega

theorem outstandingIn_pos (row : db.tasks.get? id = some t) (ho : t.state.outstanding = true) :
    0 < outstandingIn db t.queueName :=
  Table.count_pos_iff.mpr ⟨id, t, row, by simp [ho]⟩

theorem taken_capacity {q : Queue} (h : q.taken.maxOutstandingTasks.isSome = true) :
    q.maxOutstandingTasks.isSome = true ∧
      q.taken.capacityOutstandingTasks = q.capacityOutstandingTasks + 1 := by
  rw [taken_maxOutstandingTasks] at h
  unfold Queue.taken
  rw [if_pos h]
  exact ⟨h, rfl⟩

theorem released_capacity {q : Queue} (h : q.released.maxOutstandingTasks.isSome = true) :
    q.maxOutstandingTasks.isSome = true ∧
      q.released.capacityOutstandingTasks = max (q.capacityOutstandingTasks - 1) 0 := by
  by_cases hq : q.maxOutstandingTasks.isSome = true
  · unfold Queue.released
    rw [if_pos hq]
    exact ⟨hq, rfl⟩
  · unfold Queue.released at h
    rw [if_neg hq] at h
    exact absurd h hq

theorem CapacityInv.take (h : CapacityInv db) {queueName : String}
    (queues : db'.queues = db.queues.adjust queueName Queue.taken)
    (tasks : ∀ name, outstandingIn db' name =
      outstandingIn db name + if queueName = name then 1 else 0) : CapacityInv db' := by
  intro name q hq hlimit
  rw [queues, get?_adjust] at hq
  rw [tasks]
  split at hq
  · rename_i hname
    obtain ⟨q0, hq0, rfl⟩ := Option.map_eq_some_iff.mp hq
    obtain ⟨hlimit0, hcapacity⟩ := taken_capacity hlimit
    rw [hcapacity, h queueName q0 hq0 hlimit0, hname, if_pos rfl]
    rfl
  · rename_i hname
    rw [h name q hq hlimit, if_neg (Ne.symm hname)]
    rfl

theorem CapacityInv.insert (h : CapacityInv db) (free : db.tasks.get? id = none)
    (ho : new.state.outstanding = true) (tasks : db'.tasks = db.tasks.put id new)
    (queues : db'.queues = db.queues.adjust new.queueName Queue.taken) : CapacityInv db' := by
  refine h.take queues fun name => ?_
  unfold outstandingIn
  rw [tasks, count_put_new _ _ free]
  simp [ho]

theorem CapacityInv.write (h : CapacityInv db) (row : db.tasks.get? id = some t)
    (tasks : db'.tasks = db.tasks.put id new)
    (queues : db'.queues = crossed t.state new.state new.queueName db.queues)
    (queue : new.queueName = t.queueName) : CapacityInv db' := by
  have hcount : ∀ name, (outstandingIn db' name +
      if t.queueName = name ∧ t.state.outstanding = true then 1 else 0) = outstandingIn db name +
        if t.queueName = name ∧ new.state.outstanding = true then 1 else 0 := by
    intro name
    have := count_put_old (fun _ t => t.queueName = name && t.state.outstanding) new row
    unfold outstandingIn
    rw [tasks]
    simpa [queue] using this
  unfold crossed at queues
  rw [queue] at queues
  cases ht : t.state.outstanding <;> cases hn : new.state.outstanding
  · have hterminal : t.state.terminal = true := by simpa [TaskState.outstanding] using ht
    rw [if_neg (by simp [ht]), if_neg (by simp [hn])] at queues
    refine h.same queues fun name => ?_
    simpa [ht, hn] using hcount name
  · have hterminal : t.state.terminal = true := by simpa [TaskState.outstanding] using ht
    rw [if_neg (by simp [ht]), if_pos (by simp [hn, hterminal])] at queues
    refine h.take queues fun name => ?_
    simpa [ht, hn] using hcount name
  · have hterminal : new.state.terminal = true := by simpa [TaskState.outstanding] using hn
    rw [if_pos (by simp [ht, hterminal])] at queues
    intro name q hq hlimit
    have hname := hcount name
    simp only [ht, hn, and_true, Bool.false_eq_true, and_false, if_false, Nat.add_zero] at hname
    rw [queues, get?_adjust] at hq
    split at hq
    · rename_i hqueue
      subst hqueue
      obtain ⟨q0, hq0, rfl⟩ := Option.map_eq_some_iff.mp hq
      obtain ⟨hlimit0, hcapacity⟩ := released_capacity hlimit
      have hpos := outstandingIn_pos row ht
      rw [if_pos rfl] at hname
      rw [hcapacity, h _ q0 hq0 hlimit0]
      omega
    · rename_i hqueue
      rw [if_neg (Ne.symm hqueue)] at hname
      rw [h name q hq hlimit, ← hname]
      rfl
  · have hnot : new.state.terminal = false := by simpa [TaskState.outstanding] using hn
    have hnot' : t.state.terminal = false := by simpa [TaskState.outstanding] using ht
    rw [if_neg (by simp [hnot]), if_neg (by simp [hnot'])] at queues
    refine h.same queues fun name => ?_
    simpa [ht, hn] using hcount name

/-! ## Effects -/

theorem CapacityInv.woken (h : CapacityInv db) {now : Timestamp} (queues : db'.queues = db.queues)
    (tasks : db'.tasks = db.tasks.adjust id (Task.woken now)) : CapacityInv db' := by
  refine h.same queues fun name => ?_
  unfold outstandingIn
  rw [tasks]
  refine count_adjust fun t _ => ?_
  have hqueue : (t.woken now).queueName = t.queueName := congrArg Prod.fst (t.woken_fixed now)
  rw [hqueue, t.woken_outstanding]

theorem outstandingIn_deleteTask (row : db.tasks.get? id = some t)
    (finished : t.state.terminal = true) (name : String) :
    outstandingIn (deleteTask e db (id, t)) name = outstandingIn db name := by
  obtain ⟨keys, hk⟩ := deleteTask_spec e db id t
  simp only [outstandingIn, hk]
  rw [Table.count_update, count_delete]
  refine count_congr fun j c hj => ?_
  have hparent : ∀ f : Task, (if f.parentTaskId = some id then { f with parentTaskId := none } else f).queueName
      = f.queueName ∧ (if f.parentTaskId = some id then { f with parentTaskId := none } else f).state
      = f.state := by
    intro f
    split <;> exact ⟨rfl, rfl⟩
  rw [(hparent c).1, (hparent c).2]
  by_cases hji : j = id
  · subst hji
    obtain rfl : c = t := Option.some.inj (hj.symm.trans row)
    simp [TaskState.outstanding, finished]
  · simp [hji]

theorem effect_keeps_capacity (effect : Effect e l s s') (hl : ∀ queueName, l ≠ .phantom queueName)
    (h : CapacityInv s.db) : CapacityInv s'.db := by
  cases effect with
  | claim row pending => exact h.same rfl (outstandingIn_put row rfl rfl (by rw [pending]; rfl))
  | renew row | adopt row | adoptStored row => exact h.same rfl (outstandingIn_put row rfl rfl rfl)
  | yield row | parkSignal row | parkResult row | complete row | fail row | cancel row | retry row =>
    exact h.write row rfl rfl rfl
  | insert _ free new | materialize _ free new =>
    exact h.insert free (by rw [new.state]; rfl) rfl rfl
  | phantom => exact absurd rfl (hl _)
  | deliver | deliverResult => exact h.woken rfl rfl
  | @fireManage _ id old new =>
    obtain ⟨keys, hk⟩ := manage_tables e id old new s.db
    rw [hk]
    exact h.same rfl fun _ => rfl
  | @delete _ id t row finished =>
    obtain ⟨keys, hk⟩ := deleteTask_spec e s.db id t
    refine h.same (by rw [hk]) (outstandingIn_deleteTask row finished)
  | @addQueue _ name =>
    intro n q hq hlimit
    rw [get?_put] at hq
    split at hq
    · cases hq
      cases hlimit
    · exact h n q hq hlimit
  | @configure _ name q counter =>
    intro n q' hq hlimit
    rw [get?_put] at hq
    split at hq
    · rename_i hn
      cases hq
      subst hn
      obtain ⟨m, hm⟩ := Option.isSome_iff_exists.mp hlimit
      rw [counter m hm]
      split
      · rename_i capacity hcapacity
        obtain ⟨q0, hq0, hcapacity⟩ := Option.bind_eq_some_iff.mp hcapacity
        obtain ⟨m0, hm0, rfl⟩ := Option.map_eq_some_iff.mp hcapacity
        exact h _ q0 hq0 (by rw [hm0]; rfl)
      · rfl
    · exact h n q' hq hlimit
  | @touchQueue _ name q q' row limit counter =>
    intro n q'' hq hlimit
    rw [get?_put] at hq
    split at hq
    · rename_i hn
      cases hq
      subst hn
      rw [limit] at hlimit
      rw [counter]
      exact h _ q row hlimit
    · exact h n q'' hq hlimit
  | _ => exact h

/-! ## Runs -/

def admittedBy (db : Database) : Call → Option (Uuid × Schedule × List Timestamp)
  | .materializeSchedule id expected occurrences _ =>
    (admitted db id expected occurrences).map fun x => (id, x.1, x.2)
  | _ => none

/-- The call inserts all the occurrences it admits, or their queue keeps no counter. -/
def MaterializesAll (db : Database) (c : Call) : Prop :=
  ∀ id schedule instants, admittedBy db c = some (id, schedule, instants) →
    FirstOccurrences db id instants ∨ unlimited db schedule.definition.queueName

theorem effects_no_phantom {c : Call} {queueName : String} (h : c.effects (.phantom queueName)) :
    ∃ id expected occurrences next, c = .materializeSchedule id expected occurrences next := by
  cases c <;> simp_all [Call.effects, Label.enqueues, Label.cascade, Label.spawns,
    Label.freshlySpawns, Label.waits,
    Label.timesOut, Label.bookkeeping, Label.materializes]

theorem step_keeps_capacity {w : World} {r : Request} (ok : MaterializesAll w.db r.call)
    (h : CapacityInv w.db) : CapacityInv (step server w r).2.db := by
  rcases step_spec server w r with ⟨reply', s', hexec, hs', -, ls, path, hls⟩ | ⟨-, -, hw⟩
  · by_cases hphantom : ∃ queueName, r.call.effects (.phantom queueName)
    · obtain ⟨queueName, hphantom⟩ := hphantom
      obtain ⟨id, expected, occurrences, next, hcall⟩ := effects_no_phantom hphantom
      rw [hcall] at hexec ok
      obtain ⟨count, hmaterialize, -⟩ := reply_ok hexec
      obtain ⟨⟨ls, path, -, hall⟩, -⟩ := materializeSchedule_spec hmaterialize
      have hfirst := hall fun c instants hc => ok id c instants (congrArg (Option.map _) hc)
      rw [← World.session_db, ← hs']
      exact path.keeps (P := fun s => CapacityInv s.db)
        (fun l s s' (hl : ∀ q, l ≠ .phantom q) effect => effect_keeps_capacity effect hl) hfirst h
    · refine path.keeps (P := fun s => CapacityInv s.db) (fun l s s' hl effect => ?_) hls h
      refine effect_keeps_capacity effect fun queueName hqueue => hphantom ⟨queueName, ?_⟩
      rwa [← hqueue]
  · rw [hw]
    exact h

/-- In a run whose `materialize_schedule` calls insert all the occurrences they admit, the counter
of every limited queue is the number of its unfinished tasks. -/
theorem capacity_counts_outstanding (server : Server) (rs : List Request)
    (first : EveryStep server (fun w r => MaterializesAll w.db r.call) rs) :
    ∀ name q m, (run server rs).db.queues.get? name = some q → q.maxOutstandingTasks = some m →
      q.capacityOutstandingTasks = outstandingIn (run server rs).db name := by
  have inv : CapacityInv (run server rs).db := by
    refine run_rule_of (I := fun w => CapacityInv w.db) ?_ (fun rs r ok h => step_keeps_capacity ok h)
      rs first
    intro name q hq
    cases hq
  intro name q m hq hm
  exact inv name q hq (by rw [hm]; rfl)

def hourly (payload : Json) : ScheduleDefinition where
  kind := .interval
  intervalMilliseconds := some 3600000
  cronExpression := none
  misfirePolicy := .latest
  catchUpLimit := none
  queueName := "default"
  taskName := "a"
  handlerVersion := 1
  payload
  headers := .obj []
  priority := 0
  maxAttempts := 5

def scheduledRun : List Request :=
  [⟨0, .putQueue "default" ⟨604800, 2592000, some 10, 300⟩⟩,
   ⟨1, .putSchedule (Uuid.ofNat 50) "s" (hourly .null) 5⟩,
   ⟨6, .materializeSchedule (Uuid.ofNat 50) 5 [5] 3600000005⟩]

theorem scheduledRun_counts :
    EveryStep countingServer (fun w r => MaterializesAll w.db r.call) scheduledRun ∧
      ∀ q, (run countingServer scheduledRun).db.queues.get? "default" = some q →
        q.maxOutstandingTasks = some 10 → q.capacityOutstandingTasks = 1 := by
  have first : EveryStep countingServer (fun w r => MaterializesAll w.db r.call) scheduledRun := by
    have hfin : ∀ i : Fin scheduledRun.length,
        (admittedBy (run countingServer (scheduledRun.take i)).db (scheduledRun.get i).call).all
          (fun x => decide (x.2.2.Nodup ∧ ∀ instant ∈ x.2.2, materialized
            (run countingServer (scheduledRun.take i)).db x.1 instant = false)) = true := by
      decide +kernel
    refine everyStep_of_fin fun i id schedule instants hc => Or.inl ?_
    have := hfin i
    rw [hc] at this
    exact of_decide_eq_true (p := _ ∧ _) this
  refine ⟨first, fun q hq hm => ?_⟩
  have hcount : outstandingIn (run countingServer scheduledRun).db "default" = 1 := by decide +kernel
  rw [capacity_counts_outstanding countingServer scheduledRun first "default" q 10 hq hm, hcount]
  rfl

theorem skipped_occurrence_is_counted :
    let rs := scheduledRun ++ [⟨7, .putSchedule (Uuid.ofNat 50) "s" (hourly (.bool true)) 5⟩,
      ⟨8, .materializeSchedule (Uuid.ofNat 50) 5 [5] 3600000005⟩]
    ((run countingServer rs).db.queues.get? "default").map (fun q =>
        (q.maxOutstandingTasks, q.capacityOutstandingTasks)) = some (some 10, 2) ∧
      outstandingIn (run countingServer rs).db "default" = 1 := by
  decide +kernel

end Pgtask
