import Pgtask.Effect.Waits

/-!
# Every call is a sequence of effects

`exec_spec` collects the functions. `Call.effects` says which effects a call can
have, and everything later argues about effects only.
-/

open Sql Checked List Table

namespace Pgtask

variable {e : Env}

/-! ## Retention -/

theorem preserve_spec (e : Env) (id : Uuid) (t : Task) (db : Database) :
    ∃ keys, preserveDeletedIdempotencyKey e id t db = { db with idempotencyKeys := keys } := by
  unfold preserveDeletedIdempotencyKey
  split
  · exact ⟨_, rfl⟩
  · split
    · exact ⟨_, rfl⟩
    · split
      · exact ⟨_, rfl⟩
      · exact ⟨_, rfl⟩

theorem deleteTask_spec (e : Env) (db : Database) (id : Uuid) (t : Task) :
    ∃ keys, deleteTask e db (id, t) = { db with
        tasks := (db.tasks.delete fun k _ => k = id).update fun _ c =>
          if c.parentTaskId = some id then { c with parentTaskId := none } else c
        attempts := db.attempts.delete fun k _ => k.1 = id
        checkpoints := db.checkpoints.delete fun k _ => k.taskId = id
        signals := db.signals.delete fun k _ => k.taskId = id
        waits := db.waits.delete fun k _ => k.taskId = id
        resultWaits := db.resultWaits.delete fun k w => k.taskId = id || w.resultTaskId = id
        idempotencyKeys := keys } := by
  unfold deleteTask
  obtain ⟨keys, h⟩ := preserve_spec e id t { db with
        tasks := (db.tasks.delete fun k _ => k = id).update fun _ c =>
          if c.parentTaskId = some id then { c with parentTaskId := none } else c
        attempts := db.attempts.delete fun k _ => k.1 = id
        checkpoints := db.checkpoints.delete fun k _ => k.taskId = id
        signals := db.signals.delete fun k _ => k.taskId = id
        waits := db.waits.delete fun k _ => k.taskId = id
        resultWaits := db.resultWaits.delete fun k w => k.taskId = id || w.resultTaskId = id }
  exact ⟨keys, h⟩

def Childless (db : Database) (id : Uuid) : Prop :=
  ∀ j c, db.tasks.get? j = some c → c.parentTaskId ≠ some id

theorem deleteTask_get? {db : Database} {id : Uuid} (t : Task) (h : Childless db id) (j : Uuid) :
    (deleteTask e db (id, t)).tasks.get? j = if j = id then none else db.tasks.get? j := by
  obtain ⟨keys, hd⟩ := deleteTask_spec e db id t
  rw [hd, get?_update, get?_delete]
  cases hj : db.tasks.get? j with
  | none => simp
  | some c =>
    by_cases hji : j = id
    · simp [hji]
    · simp [hji, h j c hj]

theorem deletes_spec {rows : List (Uuid × Task)} {s : Session} (hq : s.queued = [])
    (nodup : (rows.map Prod.fst).Nodup)
    (current : ∀ x ∈ rows, s.db.tasks.get? x.1 = some x.2 ∧ x.2.state.terminal = true ∧
      Childless s.db x.1) :
    Effects e (rows.map fun x => .delete x.1) s { s with db := rows.foldl (deleteTask e) s.db } := by
  induction rows generalizing s with
  | nil => exact .nil _
  | cons x rows ih =>
    obtain ⟨id, t⟩ := x
    rw [map_cons, nodup_cons] at nodup
    rw [forall_mem_cons] at current
    obtain ⟨⟨row, finished, childless⟩, current⟩ := current
    refine .cons (.delete row finished childless hq) (ih hq nodup.2 ?_)
    intro y hy
    have hne : y.1 ≠ id := fun hyi => nodup.1 (List.mem_map.mpr ⟨y, hy, hyi⟩)
    obtain ⟨hyrow, hyfinished, hychildless⟩ := current y hy
    refine ⟨?_, hyfinished, ?_⟩
    · rw [deleteTask_get? t childless, if_neg hne, hyrow]
    · intro j c hj
      rw [deleteTask_get? t childless] at hj
      split at hj
      · cases hj
      · exact hychildless j c hj

theorem deleteExpiredTerminal_spec {queueName : String} {n : Int} {count : Nat} {s s' : Session}
    (hq : s.queued = []) (h : deleteExpiredTerminal e queueName n s = .ok (count, s')) :
    (∃ ls, Effects e ls s s' ∧ ∀ l ∈ ls, ∃ id, l = .delete id) ∧ s'.queued = s.queued := by
  unfold deleteExpiredTerminal at h
  obtain ⟨m, -, h⟩ := bind_ok h
  cases h
  refine ⟨⟨_, deletes_spec hq (nodup_take_sorted _ (nodup_select _ _)) ?_, ?_⟩, rfl⟩
  · intro x hx
    obtain ⟨hrow, hp⟩ := mem_select.mp (show (x.1, x.2) ∈ _ from mem_take_sorted hx)
    simp only [expiredTerminal, Bool.and_eq_true, Bool.not_eq_true', List.any_eq_false] at hp
    refine ⟨hrow, hp.1.1.2, fun j c hj hc => ?_⟩
    exact hp.2 (j, c) (mem_rows_iff.mpr hj) (by simp [hc])
  · intro l hl
    obtain ⟨x, -, rfl⟩ := List.mem_map.mp hl
    exact ⟨x.1, rfl⟩

theorem deleteExpiredIdempotencyKeys_spec {queueName : String} {n : Int} {count : Nat}
    {s s' : Session} (h : deleteExpiredIdempotencyKeys e queueName n s = .ok (count, s')) :
    Effect e .dropKeys s s' ∧ s'.queued = s.queued := by
  unfold deleteExpiredIdempotencyKeys at h
  obtain ⟨m, -, h⟩ := bind_ok h
  cases h
  refine ⟨.dropKeys ?_, rfl⟩
  intro k hk
  obtain ⟨x, hx, rfl⟩ := List.mem_map.mp hk
  obtain ⟨hrow, hp⟩ := mem_select.mp (show (x.1, x.2) ∈ _ from mem_take_sorted hx)
  rw [Bool.and_eq_true] at hp
  exact ⟨x.2, hrow, hp.2⟩

/-! ## Administration -/

theorem cancelTask_spec {id : Uuid} {r : Option (String × String)} {s s' : Session}
    (hq : s.queued = []) (h : cancelTask e id s = .ok (r, s')) :
    (∃ ls, Effects e ls s s' ∧ ∀ l ∈ ls, l.cascade = true) ∧ s'.queued = [] := by
  apply cancelUnfinished_spec (.obj [("type", .str "cancelled")]) hq
  unfold cancelTask at h
  unfold cancelUnfinished
  split at h
  · rename_i hn
    cases h
    rw [hn]
  · rename_i t ht
    obtain ⟨s1, h1, h⟩ := bind_ok h
    obtain ⟨s2, h2, h⟩ := bind_ok h
    cases h
    rw [ht]
    exact bind_eq_ok.mpr ⟨s1, h1, h2⟩

theorem drain_manage {id : Uuid} {old new : Task} {depth : Nat} {s s' : Session}
    (hq : s.queued = [.manageIdempotencyKey id old new]) (h : drain e depth s = .ok s') :
    s' = { s with db := manageIdempotencyKey e id old new s.db, queued := [] } := by
  unfold drain at h
  rw [hq] at h
  cases depth with
  | zero => cases h
  | succ depth =>
    obtain ⟨s1, h1, h⟩ := bind_ok h
    cases h1
    unfold drain at h
    cases h
    rfl

theorem adminRetryTask_spec {id : Uuid} {actor : Option String} {r : Bool} {s s' : Session}
    (hq : s.queued = []) (h : adminRetryTask e id actor s = .ok (r, s')) :
    (Effects e [] s s' ∨ Effects e [.retry id, .fireManage id, .frame] s s') ∧ s'.queued = [] ∧
      s'.db.schedules = s.db.schedules := by
  unfold adminRetryTask at h
  obtain ⟨a, -, h⟩ := bind_ok h
  split at h
  · cases h
    exact ⟨.inl (.nil _), hq, rfl⟩
  · rename_i t ht
    obtain ⟨budget, hb, h⟩ := bind_ok h
    obtain rfl := int4Succ_ok hb
    obtain ⟨s1, h1, h⟩ := bind_ok h
    obtain ⟨s2, h2, h⟩ := bind_ok h
    cases h
    rw [Option.filter_eq_some_iff, Bool.or_eq_true, decide_eq_true_eq, decide_eq_true_eq] at ht
    obtain ⟨rfl, checked, hroom⟩ := updateTask_spec h1
    have hterminal : t.state.terminal = true := by
      rcases ht.2 with h | h <;> rw [h] <;> rfl
    set new := t.retried e.now (max t.maxAttempts ((historicalFailures s.db id t + 1 : Nat) : Int))
      with hnew
    have hqueue : (s.write id t new).queued = [.manageIdempotencyKey id t new] := by
      have hout : new.state.outstanding = true := rfl
      have hnot : new.state.terminal = false := rfl
      unfold Session.write afterUpdate
      simp [hq, hterminal, hout, hnot]
    have hs2 := drain_manage hqueue h2
    subst hs2
    have hretry : Effect e (.retry id) s (s.write id t new) :=
      .retry ht.1 ht.2 (hroom hterminal rfl) hq checked
    have hmanage := Effect.fireManage (e := e) hqueue (get?_put_self _ _ _)
      (by rw [hterminal]; exact Bool.noConfusion)
    refine ⟨.inr (.cons hretry (.cons hmanage (.single (.frame (.same _))))), rfl, ?_⟩
    unfold recordAudit manageIdempotencyKey manageReservation
    repeat' split
    all_goals rfl

/-! ## Calls -/

def Call.effects : Call → Label → Prop
  | .putQueue name _ => fun l => l = .configure name
  | .setQueuePaused name _ | .sampleQueueDemand name _ => fun l => l = .touchQueue name
  | .enqueue _ | .enqueueMany _ => fun l => l.enqueues = true
  | .claim .. => fun l => ∃ lease, l = .claim lease
  | .renewLeases .. => fun l => ∃ id, l = .renew id
  | .completeTask .. | .completeTasks _ => fun l => (∃ id, l = .complete id) ∨ l.cascade = true
  | .failTask .. | .failTasks _ | .recoverExpired .. =>
    fun l => (∃ id, l = .fail id) ∨ l.cascade = true
  | .releaseTasks _ => fun l => ∃ id, l = .yield id
  | .suspendTask lease .. => fun l => (∃ k, l = .checkpoint k) ∨ l = .yield lease.taskId
  | .spawnTask lease .. => fun l => l.spawns lease.taskId
  | .commitCheckpoint .. => fun l => ∃ k, l = .checkpoint k
  | .emitSignal key _ => fun l => (∃ k, l = .deliver k) ∨ l = .signal key
  | .waitForSignal lease .. | .waitForResult lease .. => fun l => l.waits lease.taskId
  | .recoverWaitTimeouts _ => fun l => ∃ k, l = .deliver k
  | .recoverResultWaitTimeouts _ => fun l => l.timesOut = true
  | .registerWorker worker .. => fun l => l.bookkeeping = true ∨ l = .enroll worker
  | .putSchedule .. => fun l => l.bookkeeping = true
  | .materializeSchedule .. => fun l => l.materializes = true
  | .deleteExpiredTerminal .. => fun l => ∃ id, l = .delete id
  | .deleteExpiredIdempotencyKeys .. => fun l => l = .dropKeys
  | .cancelTask _ => fun l => l.cascade = true
  | .adminCancelTask .. => fun l => l.cascade = true ∨ l = .frame
  | .adminRetryTask id _ => fun l => l = .retry id ∨ l = .fireManage id ∨ l = .frame
  | .heartbeatWorker .. => fun l => l = .heartbeat
  | .deleteExpiredWorkers .. => fun l => l = .dropWorkers
  | .setSchedulePaused .. | .deleteSchedule _
  | .adminSetSchedulePaused .. => fun l => l = .frame
  | .getCheckpoint _ | .claimDueSchedules _ => fun _ => False

def Done (e : Env) (c : Call) (s s' : Session) : Prop :=
  (∃ ls, Effects e ls s s' ∧ ∀ l ∈ ls, c.effects l) ∧ s'.queued = []

theorem Done.single {c : Call} {l : Label} {s s' : Session} (h : Effect e l s s') (hl : c.effects l)
    (hq : s'.queued = []) : Done e c s s' :=
  ⟨⟨[l], .single h, fun l' hl' => by rw [mem_singleton.mp hl']; exact hl⟩, hq⟩

theorem Done.nothing {c : Call} {s : Session} (hq : s.queued = []) : Done e c s s :=
  ⟨⟨[], .nil _, by simp⟩, hq⟩

theorem reply_ok {α : Type} {x : Result (α × Session)} {f : α → Reply} {r : Reply} {s' : Session}
    (h : x.map (reply f) = .ok (r, s')) : ∃ a, x = .ok (a, s') ∧ f a = r := by
  obtain ⟨⟨a, s1⟩, hx, hr⟩ := map_eq_ok.mp h
  cases hr
  exact ⟨a, hx, rfl⟩

theorem exec_spec {c : Call} {r : Reply} {s s' : Session} (hq : s.queued = [])
    (h : exec e c s = .ok (r, s')) : Done e c s s' := by
  cases c with
  | putQueue name config =>
    obtain ⟨q, h, -⟩ := reply_ok h
    obtain ⟨effect, hq'⟩ := putQueue_spec h
    exact .single effect rfl (hq'.trans hq)
  | setQueuePaused name paused =>
    cases h
    obtain ⟨h, hq'⟩ := setQueuePaused_spec (e := e) (Prod.eta _).symm
    exact ⟨h, hq'.trans hq⟩
  | enqueue request =>
    obtain ⟨a, h, -⟩ := reply_ok h
    obtain ⟨h, hq'⟩ := enqueue_effects h
    exact ⟨h, hq'.trans hq⟩
  | enqueueMany items =>
    obtain ⟨a, h, -⟩ := reply_ok h
    obtain ⟨h, hq'⟩ := enqueueMany_effects h
    exact ⟨h, hq'.trans hq⟩
  | claim queueName worker names versions n ms =>
    obtain ⟨a, h, -⟩ := reply_ok h
    obtain ⟨leases, path, -, hq', -⟩ := claim_spec h
    exact ⟨⟨_, path, by simp [Call.effects]⟩, hq'.trans hq⟩
  | renewLeases leases ms =>
    obtain ⟨ids, h, -⟩ := reply_ok h
    obtain ⟨path, hq'⟩ := renewLeases_spec h
    exact ⟨⟨_, path, by simp [Call.effects]⟩, hq'.trans hq⟩
  | completeTask lease result =>
    obtain ⟨a, h, -⟩ := reply_ok h
    obtain ⟨⟨ls, path, hls⟩, hq'⟩ := completeTask_spec hq h
    exact ⟨⟨ls, path, fun l hl => (hls l hl).imp_left fun h => ⟨_, h⟩⟩, hq'⟩
  | completeTasks completions =>
    obtain ⟨a, h, -⟩ := reply_ok h
    exact completeTasks_spec hq h
  | failTask lease error ms =>
    obtain ⟨a, h, -⟩ := reply_ok h
    obtain ⟨⟨ls, path, hls⟩, hq'⟩ := failTask_spec hq h
    refine ⟨⟨_, path, fun l hl => ?_⟩, hq'⟩
    rcases mem_append.mp hl with hl | hl
    · split at hl
      · exact .inl ⟨_, mem_singleton.mp hl⟩
      · cases hl
    · exact .inr (hls l hl)
  | failTasks failures =>
    obtain ⟨a, h, -⟩ := reply_ok h
    obtain ⟨⟨ls, path, hls⟩, hq', -⟩ := failTasks_spec hq h
    refine ⟨⟨_, path, fun l hl => ?_⟩, hq'⟩
    rcases mem_append.mp hl with hl | hl
    · obtain ⟨id, -, rfl⟩ := List.mem_map.mp hl
      exact .inl ⟨id, rfl⟩
    · exact .inr (hls l hl)
  | releaseTasks leases =>
    obtain ⟨ids, h, -⟩ := reply_ok h
    obtain ⟨path, hq'⟩ := releaseTasks_spec h
    exact ⟨⟨_, path, by simp [Call.effects]⟩, hq'.trans hq⟩
  | recoverExpired queueName n =>
    obtain ⟨a, h, -⟩ := reply_ok h
    obtain ⟨⟨ls, path, hls⟩, hq'⟩ := recoverExpired_spec hq h
    refine ⟨⟨_, path, fun l hl => ?_⟩, hq'⟩
    rcases mem_append.mp hl with hl | hl
    · obtain ⟨x, -, rfl⟩ := List.mem_map.mp hl
      exact .inl ⟨x.1, rfl⟩
    · exact .inr (hls l hl)
  | suspendTask lease stepName occ wakeAt delay =>
    obtain ⟨a, h, -⟩ := reply_ok h
    obtain ⟨h, hq'⟩ := suspendTask_spec h
    exact ⟨h, hq'.trans hq⟩
  | spawnTask lease stepName occ request =>
    obtain ⟨a, h, -⟩ := reply_ok h
    obtain ⟨hspawn, hq'⟩ := spawnTask_spec h
    refine ⟨?_, hq'.trans hq⟩
    rcases hspawn with ⟨ls, path, hls⟩ | ⟨t, v, child, -, -, -, effect⟩
    · exact ⟨ls, path, fun l hl => .inl (hls l hl)⟩
    · refine ⟨_, .single effect, fun l hl => .inr ⟨child, ?_⟩⟩
      exact mem_singleton.mp hl
  | commitCheckpoint lease stepName occ value =>
    obtain ⟨a, h, -⟩ := reply_ok h
    rcases commitCheckpoint_spec (e := e) h with ⟨-, rfl, -⟩ | ⟨t, stored, ls, -, -, path, hls, hq', -⟩
    · exact .nothing hq
    · exact ⟨⟨ls, path, fun l hl => ⟨_, hls l hl⟩⟩, hq'.trans hq⟩
  | getCheckpoint key =>
    cases h
    exact .nothing hq
  | emitSignal key value =>
    obtain ⟨a, h, -⟩ := reply_ok h
    obtain ⟨h, hq'⟩ := emitSignal_spec h
    exact ⟨h, hq'.trans hq⟩
  | waitForSignal lease stepName occ signalName signalOcc ms =>
    obtain ⟨a, h, -⟩ := reply_ok h
    obtain ⟨h, hq', -⟩ := waitForSignal_spec h
    exact ⟨h, hq'.trans hq⟩
  | recoverWaitTimeouts n =>
    obtain ⟨a, h, -⟩ := reply_ok h
    obtain ⟨h, hq'⟩ := recoverWaitTimeouts_spec h
    exact ⟨h, hq'.trans hq⟩
  | waitForResult lease stepName occ child ms =>
    obtain ⟨a, h, -⟩ := reply_ok h
    obtain ⟨h, hq', -⟩ := waitForResult_spec h
    exact ⟨h, hq'.trans hq⟩
  | recoverResultWaitTimeouts n =>
    obtain ⟨a, h, -⟩ := reply_ok h
    exact recoverResultWaitTimeouts_spec hq h
  | registerWorker worker queueName version registration ttl =>
    obtain ⟨s1, h, hr⟩ := map_eq_ok.mp h
    cases hr
    obtain ⟨h, hq'⟩ := registerWorker_spec h
    exact ⟨h, hq'.trans hq⟩
  | heartbeatWorker worker ttl draining =>
    cases h
    unfold heartbeatWorker
    split
    · exact .nothing hq
    · rename_i w hw
      exact .single (.heartbeat (Option.filter_eq_some_iff.mp hw).1 rfl) rfl hq
  | deleteExpiredWorkers grace n =>
    obtain ⟨a, h, -⟩ := reply_ok h
    unfold deleteExpiredWorkers at h
    obtain ⟨m, -, h⟩ := bind_ok h
    cases h
    exact .single .dropWorkers rfl hq
  | sampleQueueDemand queueName ms =>
    obtain ⟨a, h, -⟩ := reply_ok h
    obtain ⟨h, hq'⟩ := sampleQueueDemand_spec h
    exact ⟨h, hq'.trans hq⟩
  | putSchedule id name definition next =>
    obtain ⟨a, h, -⟩ := reply_ok h
    obtain ⟨h, hq'⟩ := putSchedule_spec h
    exact ⟨h, hq'.trans hq⟩
  | setSchedulePaused id paused =>
    cases h
    unfold setSchedulePaused
    split
    · exact .nothing hq
    · rename_i c hc
      refine .single (.frame (.put (.inr ⟨c, hc, ?_⟩))) rfl hq
      exact ⟨rfl, rfl⟩
  | deleteSchedule id =>
    cases h
    exact .single (.frame (.delete _ _)) rfl hq
  | claimDueSchedules n =>
    obtain ⟨rows, -, hr⟩ := map_eq_ok.mp h
    cases hr
    exact .nothing hq
  | materializeSchedule id expected occurrences next =>
    obtain ⟨a, h, -⟩ := reply_ok h
    obtain ⟨⟨ls, path, hls, -⟩, hq'⟩ := materializeSchedule_spec h
    exact ⟨⟨ls, path, hls⟩, hq'.trans hq⟩
  | deleteExpiredTerminal queueName n =>
    obtain ⟨a, h, -⟩ := reply_ok h
    obtain ⟨h, hq'⟩ := deleteExpiredTerminal_spec hq h
    exact ⟨h, hq'.trans hq⟩
  | deleteExpiredIdempotencyKeys queueName n =>
    obtain ⟨a, h, -⟩ := reply_ok h
    obtain ⟨effect, hq'⟩ := deleteExpiredIdempotencyKeys_spec h
    exact .single effect rfl (hq'.trans hq)
  | cancelTask id =>
    obtain ⟨a, h, -⟩ := reply_ok h
    exact cancelTask_spec hq h
  | adminCancelTask id actor =>
    obtain ⟨a, h, -⟩ := reply_ok h
    unfold adminCancelTask at h
    obtain ⟨actor, -, h⟩ := bind_ok h
    obtain ⟨⟨cancelled, s1⟩, h1, h⟩ := bind_ok h
    cases h
    obtain ⟨⟨ls, path, hls⟩, hq'⟩ := cancelTask_spec hq h1
    split
    · refine ⟨⟨_, path.append (.single (.frame (.same _))), fun l hl => ?_⟩, hq'⟩
      rcases mem_append.mp hl with hl | hl
      · exact .inl (hls l hl)
      · exact .inr (mem_singleton.mp hl)
    · exact ⟨⟨ls, path, fun l hl => .inl (hls l hl)⟩, hq'⟩
  | adminRetryTask id actor =>
    obtain ⟨a, h, -⟩ := reply_ok h
    obtain ⟨path | path, hq', -⟩ := adminRetryTask_spec hq h
    · exact ⟨⟨_, path, by simp⟩, hq'⟩
    · exact ⟨⟨_, path, by simp [Call.effects]⟩, hq'⟩
  | adminSetSchedulePaused id paused actor =>
    obtain ⟨a, h, -⟩ := reply_ok h
    unfold adminSetSchedulePaused setSchedulePaused at h
    obtain ⟨actor, -, h⟩ := bind_ok h
    cases hid : s.db.schedules.get? id with
    | none =>
      rw [hid] at h
      cases h
      exact .nothing hq
    | some schedule =>
      rw [hid] at h
      cases h
      refine .single (.frame (.put (.inr ⟨schedule, hid, ?_⟩))) rfl hq
      exact ⟨rfl, rfl⟩

theorem effects_no_retry {c : Call} {id : Uuid} (h : c.effects (.retry id)) :
    ∃ actor, c = .adminRetryTask id actor := by
  cases c <;> simp_all [Call.effects, Label.enqueues, Label.cascade, Label.spawns,
    Label.freshlySpawns, Label.waits,
    Label.timesOut, Label.bookkeeping, Label.materializes]

theorem effects_no_delete {c : Call} {id : Uuid} (h : c.effects (.delete id)) :
    ∃ queueName n, c = .deleteExpiredTerminal queueName n := by
  cases c <;> simp_all [Call.effects, Label.enqueues, Label.cascade, Label.spawns,
    Label.freshlySpawns, Label.waits,
    Label.timesOut, Label.bookkeeping, Label.materializes]

end Pgtask
