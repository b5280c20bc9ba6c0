import Pgtask.Effect.Triggers

/-! # Enqueue, queues and schedules as effects -/

open Sql Checked List Table

namespace Pgtask

variable {name queueName : String} {s s' : Session} {r : EnqueueRequest} {t : Task} {id : Uuid}
  {db : Database} {d : ScheduleDefinition}

variable {e : Env}

/-! ## Queues -/

theorem addQueue_spec (h : addQueue name s = .ok s') :
    (∃ ls, Effects e ls s s' ∧ ∀ l ∈ ls, l = .addQueue name) ∧
      (∃ q, s'.db.queues.get? name = some q) ∧
      ∃ queues, s' = { s with db := { s.db with queues := queues } } := by
  unfold addQueue at h
  obtain ⟨u, hu, h⟩ := bind_ok h
  cases hq : s.db.queues.get? name with
  | some q =>
    simp only [hq, Except.ok.injEq] at h
    subst h
    exact ⟨⟨[], .nil _, by simp⟩, ⟨q, hq⟩, _, rfl⟩
  | none =>
    simp only [hq, Except.ok.injEq] at h
    subst h
    refine ⟨⟨[.addQueue name], .single (.addQueue hq (require_ok hu)), by simp⟩, ⟨{}, ?_⟩, _, rfl⟩
    exact get?_put_self _ _ _

theorem putQueue_spec {config : QueueConfig} {q : Queue}
    (h : putQueue name config s = .ok (q, s')) :
    Effect e (.configure name) s s' ∧ s'.queued = s.queued := by
  unfold putQueue at h
  obtain ⟨u, hu, h⟩ := bind_ok h
  cases h
  refine ⟨.configure ?_ (require_ok hu), rfl⟩
  intro m hm
  obtain ⟨terminal, idempotency, maximum, starvation⟩ := config
  cases hm
  rfl

theorem setQueuePaused_spec {paused : Bool} {r : Option Queue}
    (h : setQueuePaused e name paused s = (r, s')) :
    (∃ ls, Effects e ls s s' ∧ ∀ l ∈ ls, l = .touchQueue name) ∧ s'.queued = s.queued := by
  unfold setQueuePaused at h
  split at h
  · cases h
    exact ⟨⟨[], .nil _, by simp⟩, rfl⟩
  · rename_i q hq
    cases h
    exact ⟨⟨[.touchQueue name], .single (.touchQueue hq rfl rfl rfl rfl), by simp⟩, rfl⟩

theorem sampleQueueDemand_spec {ms : Int} {r : DemandReply}
    (h : sampleQueueDemand e name ms s = .ok (r, s')) :
    (∃ ls, Effects e ls s s' ∧ ∀ l ∈ ls, l = .touchQueue name) ∧ s'.queued = s.queued := by
  unfold sampleQueueDemand at h
  split at h
  · cases h
  · split at h
    · cases h
      exact ⟨⟨[], .nil _, by simp⟩, rfl⟩
    · rename_i q hq
      extract_lets fresh ready live routed unrouted q' at h
      split at h
      · cases h
        exact ⟨⟨[], .nil _, by simp⟩, rfl⟩
      · cases h
        exact ⟨⟨[.touchQueue name], .single (.touchQueue hq rfl rfl rfl rfl), by simp⟩, rfl⟩

/-! ## Rows to insert -/

theorem argument_ok {α : Type} {value : Option α} {valid : α → Bool} {message : String} {a : α}
    (h : argument value valid message = .ok a) : value = some a ∧ valid a = true := by
  unfold argument at h
  split at h
  · split at h
    · rename_i hv
      cases h
      exact ⟨rfl, hv⟩
    · cases h
  · cases h

theorem enqueueRow_spec (h : enqueueRow e r = .ok t) :
    t.New ∧ t.scheduleId = none ∧ t.retry = {} ∧ t.idempotencyKey = r.idempotencyKey ∧
      r.queueName = some t.queueName ∧ validName 255 t.taskName = true := by
  unfold enqueueRow at h
  obtain ⟨taskName, hname, h⟩ := bind_ok h
  obtain ⟨queueName, hqueue, h⟩ := bind_ok h
  obtain ⟨version, -, h⟩ := bind_ok h
  obtain ⟨maxAttempts, hmax, h⟩ := bind_ok h
  obtain ⟨payload, -, h⟩ := bind_ok h
  obtain ⟨headers, -, h⟩ := bind_ok h
  cases h
  have hpos := (argument_ok hmax).2
  exact ⟨⟨rfl, rfl, rfl, rfl, rfl, rfl, rfl, rfl, rfl, by simpa using hpos⟩, rfl, rfl, rfl,
    (argument_ok hqueue).1, (argument_ok hname).2⟩

theorem beforeInsertTask_spec {row : Task} (pending : row.state = .pending) (unset : row.retry = {})
    (h : beforeInsertTask id row s = .ok (t, s')) : s' = { s with db := { s.db with
        queues := s.db.queues.adjust row.queueName Queue.taken } } ∧
      (∀ q, s.db.queues.get? row.queueName = some q → q.hasRoom) ∧
      t = { row with retry := (s.db.handlerPolicies.get?
        ⟨row.queueName, row.taskName, row.handlerVersion⟩).getD {} } ∧
      0 < t.maxAttempts ∧ Holds (t.checks id) := by
  unfold beforeInsertTask at h
  obtain ⟨db, hdb, h⟩ := bind_ok h
  obtain ⟨u, hu, h⟩ := bind_ok h
  cases h
  obtain ⟨rfl, hroom⟩ := take_place rfl (by rw [pending]; rfl) hdb
  have hmax := require_ok hu ("tasks_max_attempts_check", _) (by simp [Task.checks]; rfl)
  refine ⟨rfl, hroom, ?_, by simpa using hmax, require_ok hu⟩
  unfold snapshotTaskRetryPolicy
  rw [unset]

theorem Task.New.withRetry (h : t.New) (r : RetryColumns) : Task.New { t with retry := r } :=
  ⟨h.state, h.attempt, h.leaseToken, h.leaseOwner, h.leaseExpiresAt, h.cancelRequestedAt,
    h.completedAt, h.parentTaskId, h.failedAttempts, h.maxAttempts⟩

/-! ## Enqueue -/

theorem insertTask_spec {row : Task} (new : row.New)
    (unset : row.retry = {}) (h : insertTask id row s = .ok s') :
    ∃ t : Task, t = { row with retry := t.retry } ∧
      t.retry = (s.db.handlerPolicies.get?
        ⟨row.queueName, row.taskName, row.handlerVersion⟩).getD {} ∧
      s' = { s with db := { s.db with
        tasks := s.db.tasks.put id t
        queues := s.db.queues.adjust row.queueName Queue.taken } } ∧
      s.db.tasks.get? id = none ∧ Holds (t.checks id) ∧
      ∃ q, s.db.queues.get? row.queueName = some q ∧ q.hasRoom := by
  unfold insertTask at h
  obtain ⟨⟨t, s1⟩, h1, h⟩ := bind_ok h
  obtain ⟨rfl, hroom, rfl, -, checked⟩ := beforeInsertTask_spec new.state unset h1
  simp only at h
  split at h
  · cases h
  · rename_i hfree
    split at h
    · cases h
    · rename_i hqueue
      cases h
      refine ⟨_, rfl, rfl, rfl, by simpa using hfree, checked, ?_⟩
      cases hq : s.db.queues.get? row.queueName with
      | none => simp [hq] at hqueue
      | some q => exact ⟨q, rfl, hroom q hq⟩

theorem enqueue_spec {created : Bool} (h : enqueue e r s = .ok ((id, created), s')) :
    ∃ row ls, enqueueRow e r = .ok row ∧ (∀ l ∈ ls, l = .addQueue row.queueName) ∧
      s'.queued = s.queued ∧
      ((created = true ∧ id = e.uuid s.drawn ∧ Effects e (ls ++ [.insert id]) s s' ∧
          s'.db.tasks.get? id = some { row with retry := (s.db.handlerPolicies.get?
            ⟨row.queueName, row.taskName, row.handlerVersion⟩).getD {} }) ∨
        (created = false ∧ Effects e (ls ++ [.draw]) s s' ∧ s'.db.tasks = s.db.tasks ∧
          ∃ key reservation, r.idempotencyKey = some key ∧ reservation.taskId = id ∧
            activeReservation e s.db row.queueName key = some reservation)) := by
  unfold enqueue genRandomUuid at h
  obtain ⟨row, hrow, h⟩ := bind_ok h
  obtain ⟨s1, h1, h⟩ := bind_ok h
  obtain ⟨new, unscheduled, unset, hkey, -, hnamed⟩ := enqueueRow_spec hrow
  -- The candidate id is drawn before the queue is added, but neither reads the other.
  have hadd : addQueue row.queueName s = .ok { s1 with drawn := s.drawn } := by
    unfold addQueue at h1 ⊢
    obtain ⟨u, hu, h1⟩ := bind_ok h1
    refine bind_eq_ok.mpr ⟨u, hu, ?_⟩
    simp only at h1
    split at h1 <;> cases h1 <;> simp_all
  obtain ⟨⟨ls, path, hls⟩, -, queues, hs1⟩ := addQueue_spec (e := e) hadd
  obtain ⟨db1, drawn1, queued1⟩ := s1
  have hdrawn : drawn1 = s.drawn + 1 := by
    obtain ⟨-, -, queues', hs⟩ := addQueue_spec (e := e) h1
    exact congrArg Session.drawn hs
  cases hs1
  subst hdrawn
  refine ⟨row, ls, hrow, hls, ?_⟩
  cases hr : r.idempotencyKey with
  | none =>
    simp only [hr] at h
    obtain ⟨s2, h2, h⟩ := bind_ok h
    cases h
    obtain ⟨t, ht, hretry, rfl, hfree, checked, hqueue⟩ := insertTask_spec new unset h2
    have hnone : t.idempotencyKey = none := by rw [ht, hkey, hr]
    refine ⟨rfl, .inl ⟨rfl, rfl, path.append (.single ?_), ?_⟩⟩
    · have := Effect.insert (e := e) (t := t)
        (s := { s with db := { s.db with queues := queues } }) rfl hfree
        (by rw [ht]; exact new.withRetry _) (by rw [ht]; exact unscheduled)
        (by rw [ht]; exact hqueue) (by rw [hretry, ht]) (by rw [hnone]; rintro _ ⟨⟩)
        (by rw [ht]; exact hnamed) checked
      unfold reserved at this
      rw [hnone] at this
      rw [ht] at this ⊢
      exact this
    · rw [get?_put_self, ht, hretry]
  | some key =>
    simp only [hr] at h
    split at h
    · rename_i reservation hres
      cases h
      refine ⟨rfl, .inr ⟨rfl, path.append (.single .draw), rfl, key, reservation, rfl, rfl, hres⟩⟩
    · rename_i hres
      obtain ⟨s2, h2, h⟩ := bind_ok h
      cases h
      obtain ⟨t, ht, hretry, rfl, hfree, checked, hqueue⟩ := insertTask_spec new unset h2
      have hsome : t.idempotencyKey = some key := by rw [ht, hkey, hr]
      refine ⟨rfl, .inl ⟨rfl, rfl, path.append (.single ?_), ?_⟩⟩
      · have := Effect.insert (e := e) (t := t)
          (s := { s with db := { s.db with queues := queues } }) rfl hfree
          (by rw [ht]; exact new.withRetry _) (by rw [ht]; exact unscheduled)
          (by rw [ht]; exact hqueue) (by rw [hretry, ht]; rfl)
          (by rw [hsome, ht]; rintro _ ⟨⟩; exact hres) (by rw [ht]; exact hnamed) checked
        unfold reserved at this
        rw [hsome] at this
        rw [ht] at this ⊢
        exact this
      · rw [get?_put_self, ht, hretry]
        rfl

def Label.enqueues : Label → Bool
  | .addQueue _ | .insert _ | .draw => true
  | _ => false

theorem enqueue_effects {reply : Uuid × Bool} (h : enqueue e r s = .ok (reply, s')) :
    (∃ ls, Effects e ls s s' ∧ ∀ l ∈ ls, l.enqueues = true) ∧ s'.queued = s.queued := by
  obtain ⟨row, ls, -, hls, hq, h⟩ := enqueue_spec h
  have hls : ∀ l ∈ ls, l.enqueues = true := fun l hl => by rw [hls l hl]; rfl
  refine ⟨?_, hq⟩
  rcases h with ⟨-, -, path, -⟩ | ⟨-, path, -⟩
  · exact ⟨_, path, fun l hl => by
      rcases mem_append.mp hl with hl | hl
      · exact hls l hl
      · rw [mem_singleton.mp hl]; rfl⟩
  · exact ⟨_, path, fun l hl => by
      rcases mem_append.mp hl with hl | hl
      · exact hls l hl
      · rw [mem_singleton.mp hl]; rfl⟩

theorem enqueueMany_effects {items : List EnqueueItem} {replies : List (Uuid × Bool)} (h : enqueueMany e items s = .ok (replies, s')) :
    (∃ ls, Effects e ls s s' ∧ ∀ l ∈ ls, l.enqueues = true) ∧ s'.queued = s.queued := by
  induction items generalizing s replies with
  | nil =>
    cases h
    exact ⟨⟨[], .nil _, by simp⟩, rfl⟩
  | cons item items ih =>
    unfold enqueueMany at h
    obtain ⟨⟨r, s1⟩, h1, h⟩ := bind_ok h
    obtain ⟨⟨rs, s2⟩, h2, h⟩ := bind_ok h
    cases h
    obtain ⟨⟨ls, path, hls⟩, hq⟩ := enqueue_effects h1
    obtain ⟨⟨ls', path', hls'⟩, hq'⟩ := ih h2
    refine ⟨⟨ls ++ ls', path.append path', ?_⟩, hq'.trans hq⟩
    rintro l hl
    rcases mem_append.mp hl with hl | hl
    · exact hls l hl
    · exact hls' l hl

/-! ## Workers -/

def Label.bookkeeping : Label → Bool
  | .addQueue _ | .policy | .frame => true
  | _ => false

theorem Planned.same (db : Database) : Planned db db.schedules := fun _ c h => Or.inr ⟨c, h, rfl, rfl⟩

theorem Planned.put {c : Schedule}
    (h : (Holds c.checks ∧ ∃ q, db.queues.get? c.definition.queueName = some q) ∨
      ∃ c0, db.schedules.get? id = some c0 ∧ c0.name = c.name ∧ c0.definition = c.definition) :
    Planned db (db.schedules.put id c) := by
  intro j d hj
  rw [get?_put] at hj
  split at hj
  · rename_i he
    cases hj
    rw [he]
    exact h
  · exact .inr ⟨d, hj, rfl, rfl⟩

theorem Planned.delete (db : Database) (p : Uuid → Schedule → Bool) :
    Planned db (db.schedules.delete p) :=
  fun _ c h => .inr ⟨c, (get?_delete_eq_some.mp h).1, rfl, rfl⟩

theorem scheduleNamed_spec {x : Uuid × Schedule}
    (h : scheduleNamed db name = some x) : db.schedules.get? x.1 = some x.2 ∧ x.2.name = name := by
  unfold scheduleNamed at h
  have hname := find?_some h
  exact ⟨mem_rows_iff.mp (mem_of_find?_eq_some h), by simpa using hname⟩

theorem Registration.policies_inj {r : Registration} (aligned : r.aligned = true)
    (nodup : r.capabilities.Nodup) {p q : PolicyKey × RetryColumns}
    (hp : p ∈ r.policies queueName) (hq : q ∈ r.policies queueName) (same : p.1 = q.1) : p = q := by
  refine inj_on_of_nodup_map (f := Prod.fst) ?_ hp hq same
  unfold Registration.policies
  rw [map_fst_zip]
  · refine nodup.map fun a b h => ?_
    simp only [PolicyKey.mk.injEq, true_and] at h
    exact Prod.ext h.1 h.2
  · simp only [Registration.aligned, Bool.and_eq_true, decide_eq_true_eq] at aligned
    simp only [Registration.capabilities, Registration.retries, length_map, List.length_zip]
    omega

theorem insertCapability_spec {worker : Uuid} {c : String × Int}
    (h : insertCapability worker s c = .ok s') :
    Effect e (.enroll worker) s s' ∧ s'.queued = s.queued := by
  unfold insertCapability at h
  obtain ⟨u, -, h⟩ := bind_ok h
  cases h
  refine ⟨.enroll (fun _ _ => rfl) fun c' hc' => ?_, rfl⟩
  exact get?_put_of_ne _ _ fun h => hc' (by rw [h])

theorem insertPolicy_spec {p : PolicyKey × RetryColumns} (h : insertPolicy s p = .ok s') :
    (∃ ls, Effects e ls s s' ∧ ∀ l ∈ ls, l = .policy) ∧ s'.queued = s.queued := by
  unfold insertPolicy at h
  obtain ⟨u, hu, h⟩ := bind_ok h
  split at h
  · cases h
    exact ⟨⟨[], .nil _, by simp⟩, rfl⟩
  · rename_i hp
    cases h
    exact ⟨⟨[.policy], .single (.policy hp (require_ok hu)), by simp⟩, rfl⟩

theorem foldlM_allowed {α : Type} {f : Session → α → Result Session} {allowed : Label → Prop}
    (round : ∀ s a s', f s a = .ok s' →
      (∃ ls, Effects e ls s s' ∧ ∀ l ∈ ls, allowed l) ∧ s'.queued = s.queued)
    {l : List α} (h : l.foldlM f s = .ok s') :
    (∃ ls, Effects e ls s s' ∧ ∀ l ∈ ls, allowed l) ∧ s'.queued = s.queued := by
  refine foldlM_rule (fun _ s' => (∃ ls, Effects e ls s s' ∧ ∀ l ∈ ls, allowed l) ∧
    s'.queued = s.queued) ?_ h ⟨⟨[], .nil _, by simp⟩, rfl⟩
  rintro a rest s1 s2 ⟨⟨ls, path, hls⟩, hq⟩ h1
  obtain ⟨⟨ls', path', hls'⟩, hq'⟩ := round s1 a s2 h1
  refine ⟨⟨ls ++ ls', path.append path', ?_⟩, hq'.trans hq⟩
  intro l hl
  rcases mem_append.mp hl with hl | hl
  · exact hls l hl
  · exact hls' l hl

theorem registerWorker_spec {worker : Uuid} {version : String} {r : Registration}
    {ttl : Int} (h : registerWorker e worker queueName version r ttl s = .ok s') :
    (∃ ls, Effects e ls s s' ∧ ∀ l ∈ ls, l.bookkeeping = true ∨ l = .enroll worker) ∧
      s'.queued = s.queued := by
  unfold registerWorker at h
  split at h
  · cases h
  · split at h
    · cases h
    · split at h
      · cases h
      · obtain ⟨s1, h1, h2⟩ := bind_ok h
        obtain ⟨s2, h2, h3⟩ := bind_ok h2
        obtain ⟨⟨ls1, path1, hls1⟩, -, queues, rfl⟩ := addQueue_spec (e := e) h1
        obtain ⟨⟨ls2, path2, hls2⟩, hq2⟩ := foldlM_allowed (e := e)
          (f := insertCapability worker) (fun s c s' h =>
            ⟨⟨[.enroll worker], .single (insertCapability_spec h).1, fun l hl => mem_singleton.mp hl⟩,
              (insertCapability_spec (e := e) h).2⟩) h2
        split at h3
        · cases h3
        · obtain ⟨⟨ls3, path3, hls3⟩, hq3⟩ := foldlM_allowed (e := e)
            (fun s p s' h => insertPolicy_spec h) h3
          refine ⟨⟨_, path1.append (.cons (.enroll (fun id hid => get?_put_of_ne _ _ hid)
            fun c hc => get?_delete_of_false fun _ => by simpa using hc)
            (path2.append path3)), ?_⟩, hq3.trans hq2⟩
          intro l hl
          simp only [mem_append, mem_cons] at hl
          rcases hl with hl | rfl | hl | hl
          · exact .inl (by rw [hls1 l hl]; rfl)
          · exact .inr rfl
          · exact .inr (hls2 l hl)
          · exact .inl (by rw [hls3 l hl]; rfl)

/-! ## Schedules -/

theorem putSchedule_spec {next : Timestamp}
    {r : Uuid × Schedule} (h : putSchedule id name d next s = .ok (r, s')) :
    (∃ ls, Effects e ls s s' ∧ ∀ l ∈ ls, l.bookkeeping = true) ∧ s'.queued = s.queued := by
  unfold putSchedule at h
  obtain ⟨s1, h1, h⟩ := bind_ok h
  obtain ⟨u, hu, h⟩ := bind_ok h
  obtain ⟨⟨ls, path, hls⟩, hqueue, queues, rfl⟩ := addQueue_spec (e := e) h1
  have hls : ∀ l ∈ ls, l.bookkeeping = true := fun l hl => by rw [hls l hl]; rfl
  have hframe : ∀ l ∈ ls ++ [Label.frame], l.bookkeeping = true := by
    intro l hl
    rcases mem_append.mp hl with hl | hl
    · exact hls l hl
    · rw [mem_singleton.mp hl]; rfl
  have hchecks := require_ok hu
  split at h
  · rename_i old current hcurrent
    split at h
    · cases h
      exact ⟨⟨ls, path, hls⟩, rfl⟩
    · cases h
      obtain ⟨-, hname⟩ := scheduleNamed_spec hcurrent
      have hplan : Holds (Schedule.checks { current with definition := d, nextRunAt := next }) := by
        have hname : current.name = name := hname
        simpa only [Schedule.checks, hname] using hchecks
      exact ⟨⟨_, path.append (.single (.frame (.put (.inl ⟨hplan, hqueue⟩)))), hframe⟩, rfl⟩
  · split at h
    · cases h
    · cases h
      exact ⟨⟨_, path.append (.single (.frame (.put (.inl ⟨hchecks, hqueue⟩)))), hframe⟩, rfl⟩

theorem taken_unlimited {queues : Table String Queue} {q : Queue}
    (hq : queues.get? name = some q) (h : q.maxOutstandingTasks = none) :
    queues.adjust name Queue.taken = queues := by
  rw [adjust_of_some _ hq]
  unfold Queue.taken
  simp [h, put_self hq]

theorem materializeOccurrence_spec {instant : Timestamp} {inserted : Bool}
    (planned : ∃ c, s.db.schedules.get? id = some c ∧ c.definition = d)
    (h : materializeOccurrence e id d instant s = .ok (inserted, s')) :
    s'.queued = s.queued ∧ s'.db.schedules = s.db.schedules ∧ s'.db.queues = s.db.queues.adjust d.queueName Queue.taken ∧
      ((inserted = true ∧ materialized s.db id instant = false ∧
          ∃ new t, Effect e (.materialize new) s s' ∧ s'.db.tasks = s.db.tasks.put new t ∧
            t.scheduledFor = some instant ∧ t.scheduleId = some id) ∨
        (inserted = false ∧ materialized s.db id instant = true ∧
          ((∃ q, s.db.queues.get? d.queueName = some q ∧ q.maxOutstandingTasks.isSome = true ∧
            Effect e (.phantom d.queueName) s s') ∨ Effect e .draw s s'))) := by
  unfold materializeOccurrence genRandomUuid at h
  obtain ⟨⟨t, s1⟩, h1, h⟩ := bind_ok h
  obtain ⟨rfl, hroom, ht, hmax, checked⟩ := beforeInsertTask_spec rfl rfl h1
  have hnew : (d.occurrence id instant).New :=
    ⟨rfl, rfl, rfl, rfl, rfl, rfl, rfl, rfl, rfl, by rw [ht] at hmax; exact hmax⟩
  simp only at h
  split at h
  · rename_i hm
    cases h
    refine ⟨rfl, rfl, rfl, .inr ⟨rfl, hm, ?_⟩⟩
    cases hq : s.db.queues.get? d.queueName with
    | none =>
      right
      have hnone : s.db.queues.adjust (d.occurrence id instant).queueName Queue.taken =
        s.db.queues := adjust_of_none _ hq
      rw [hnone]
      exact .draw
    | some q =>
      cases hmax : q.maxOutstandingTasks with
      | none =>
        -- An unlimited queue keeps no counter.
        right
        have hsame : s.db.queues.adjust (d.occurrence id instant).queueName Queue.taken =
            s.db.queues := taken_unlimited hq hmax
        rw [hsame]
        exact .draw
      | some m => exact .inl ⟨q, rfl, by simp [hmax], .phantom⟩
  · rename_i hm
    split at h
    · cases h
    · rename_i hfree
      split at h
      · cases h
      · rename_i hqueue
        cases h
        have hfirst : materialized s.db id instant = false := Bool.eq_false_iff.mpr hm
        obtain ⟨c, hc, rfl⟩ := planned
        refine ⟨rfl, rfl, rfl, .inl ⟨rfl, hfirst, _, t, ?_, rfl, by rw [ht]; rfl, by rw [ht]; rfl⟩⟩
        have hexists : ∃ q, s.db.queues.get? c.definition.queueName = some q ∧ q.hasRoom := by
          cases hq : s.db.queues.get? c.definition.queueName with
          | none => simp [ht, ScheduleDefinition.occurrence, hq] at hqueue
          | some q => exact ⟨q, rfl, hroom q hq⟩
        have := Effect.materialize (e := e) (s := s) (t := t) rfl (by simpa using hfree)
          (by rw [ht]; exact hnew.withRetry _) (by rw [ht]; rfl) (by rw [ht]; rfl) (by rw [ht]; rfl)
          hfirst (by rw [ht]; exact hexists) (by rw [ht]) ⟨c, hc, by rw [ht]⟩ checked
        rwa [show t.queueName = (c.definition.occurrence id instant).queueName by rw [ht]] at this

theorem materialized_put {db' : Database} {new : Uuid} {instant other : Timestamp}
    (ht : t.scheduledFor = some instant) (htasks : db'.tasks = db.tasks.put new t)
    (hne : other ≠ instant) (h : materialized db id other = false) :
    materialized db' id other = false := by
  unfold materialized at h ⊢
  rw [List.any_eq_false] at h ⊢
  rintro ⟨j, c⟩ hj
  rw [htasks, mem_rows_iff, get?_put] at hj
  split at hj
  · cases hj
    simp [ht, Ne.symm hne]
  · exact h (j, c) (mem_rows_iff.mpr hj)

def Label.materializes : Label → Bool
  | .materialize _ | .phantom _ | .draw | .frame => true
  | _ => false

def FirstOccurrences (db : Database) (id : Uuid) (occurrences : List Timestamp) : Prop :=
  occurrences.Nodup ∧ ∀ instant ∈ occurrences, materialized db id instant = false

def unlimited (db : Database) (queueName : String) : Prop :=
  ∀ q, db.queues.get? queueName = some q → q.maxOutstandingTasks = none

theorem taken_maxOutstandingTasks (q : Queue) :
    q.taken.maxOutstandingTasks = q.maxOutstandingTasks := by
  unfold Queue.taken
  split <;> rfl

theorem unlimited_taken {db' : Database} (h : unlimited db queueName)
    (hqueues : db'.queues = db.queues.adjust queueName Queue.taken) : unlimited db' queueName := by
  intro q hq
  rw [hqueues, get?_adjust, if_pos rfl] at hq
  obtain ⟨q0, hq0, rfl⟩ := Option.map_eq_some_iff.mp hq
  rw [taken_maxOutstandingTasks, h q0 hq0]

theorem materializeOccurrences_spec {occurrences : List Timestamp} {count : Nat}
    (planned : ∃ c, s.db.schedules.get? id = some c ∧ c.definition = d)
    (h : materializeOccurrences e id d occurrences s = .ok (count, s')) :
    (∃ ls, Effects e ls s s' ∧ (∀ l ∈ ls, l.materializes = true) ∧
      (FirstOccurrences s.db id occurrences ∨ unlimited s.db d.queueName →
        ∀ l ∈ ls, ∀ q, l ≠ .phantom q)) ∧ s'.queued = s.queued := by
  induction occurrences generalizing s count with
  | nil =>
    cases h
    exact ⟨⟨[], .nil _, by simp, by simp⟩, rfl⟩
  | cons instant rest ih =>
    unfold materializeOccurrences at h
    obtain ⟨⟨inserted, s1⟩, h1, h⟩ := bind_ok h
    obtain ⟨⟨n, s2⟩, h2, h⟩ := bind_ok h
    cases h
    obtain ⟨hq, hplan, hqueues, h1⟩ := materializeOccurrence_spec planned h1
    obtain ⟨⟨ls, path, hls, hfirst⟩, hq'⟩ := ih (by rw [hplan]; exact planned) h2
    have hunlimited : unlimited s.db d.queueName → ∀ l ∈ ls, ∀ q, l ≠ .phantom q :=
      fun hu => hfirst (.inr (unlimited_taken hu hqueues))
    rcases h1 with ⟨-, hm, new, t, effect, htasks, ht, -⟩ | ⟨-, hm, h1⟩
    · refine ⟨⟨_, .cons effect path, forall_mem_cons.mpr ⟨rfl, hls⟩, ?_⟩, hq'.trans hq⟩
      rintro (⟨hnodup, hnone⟩ | hu)
      on_goal 2 => exact forall_mem_cons.mpr ⟨by rintro _ ⟨⟩, hunlimited hu⟩
      rw [nodup_cons] at hnodup
      refine forall_mem_cons.mpr ⟨by rintro _ ⟨⟩, hfirst (.inl ⟨hnodup.2, ?_⟩)⟩
      intro other hother
      have hne : other ≠ instant := fun he => hnodup.1 (he ▸ hother)
      exact materialized_put ht htasks hne (hnone other (mem_cons_of_mem _ hother))
    · -- The occurrence has its task already, so the list is not one of first occurrences.
      have hdup : ¬ FirstOccurrences s.db id (instant :: rest) := by
        rintro ⟨-, hnone⟩
        rw [hnone instant mem_cons_self] at hm
        cases hm
      rcases h1 with ⟨q, hqueue, hlimited, effect⟩ | effect
      · refine ⟨⟨_, .cons effect path, forall_mem_cons.mpr ⟨rfl, hls⟩, ?_⟩, hq'.trans hq⟩
        rintro (hf | hu)
        · exact absurd hf hdup
        · rw [hu q hqueue] at hlimited
          cases hlimited
      · refine ⟨⟨_, .cons effect path, forall_mem_cons.mpr ⟨rfl, hls⟩, ?_⟩, hq'.trans hq⟩
        rintro (hf | hu)
        · exact absurd hf hdup
        · exact forall_mem_cons.mpr ⟨by rintro _ ⟨⟩, hunlimited hu⟩

def admitted (db : Database) (id : Uuid) (expectedNextRunAt : Timestamp)
    (occurrences : List Timestamp) : Option (Schedule × List Timestamp) :=
  ((db.schedules.get? id).filter fun c => c.pausedAt.isNone && c.nextRunAt = expectedNextRunAt).map
    fun c => (c, occurrences.take (allowedCount db c.definition.queueName occurrences.length))

theorem materializeSchedule_spec {expected next : Timestamp}
    {occurrences : List Timestamp} {count : Nat}
    (h : materializeSchedule e id expected occurrences next s = .ok (count, s')) :
    (∃ ls, Effects e ls s s' ∧ (∀ l ∈ ls, l.materializes = true) ∧
      ((∀ c instants, admitted s.db id expected occurrences = some (c, instants) →
        FirstOccurrences s.db id instants ∨ unlimited s.db c.definition.queueName) →
        ∀ l ∈ ls, ∀ q, l ≠ .phantom q)) ∧ s'.queued = s.queued := by
  unfold materializeSchedule at h
  unfold admitted
  split at h
  · cases h
    exact ⟨⟨[], .nil _, by simp, by simp⟩, rfl⟩
  · rename_i c hc
    obtain ⟨⟨ls, path, hls, hfirst⟩, hq⟩ :=
      materializeOccurrences_spec ⟨_, get?_put_self _ _ _, rfl⟩ h
    have hrow := (Option.filter_eq_some_iff.mp hc).1
    refine ⟨⟨_, .cons (.frame (.put (.inr ⟨c, hrow, ?_⟩))) path,
      forall_mem_cons.mpr ⟨rfl, hls⟩, ?_⟩, hq⟩
    · exact ⟨rfl, rfl⟩
    intro hok
    refine forall_mem_cons.mpr ⟨by rintro _ ⟨⟩, hfirst ?_⟩
    exact hok c _ (by rw [hc]; rfl)

end Pgtask
