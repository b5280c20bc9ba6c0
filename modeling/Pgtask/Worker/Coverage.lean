import Pgtask.Invariant.Policies
import Pgtask.Worker.Startup

/-!
# What a registration covers

A worker claims from all its queues and registers for the first of them. Demand
queries and retry policies see the registration.
-/

open Sql Checked List Table

namespace Pgtask

variable {queueName version : String} {handlers : List (String × Int)} {db : Database}

variable {e : Env} {l : Label} {s s' : Session} {server : Server}

/-! ## The rows of a registration -/

theorem insertCapability_db {worker : Uuid} {c : String × Int}
    (h : insertCapability worker s c = .ok s') : s' = { s with db := { s.db with
      workerCapabilities := s.db.workerCapabilities.put ⟨worker, c.1, c.2⟩ () } } := by
  unfold insertCapability at h
  obtain ⟨u, -, h⟩ := bind_ok h
  cases h
  rfl

theorem insertCapabilities_stored {worker : Uuid} {cs : List (String × Int)}
    (h : cs.foldlM (insertCapability worker) s = .ok s') : s'.db.workers = s.db.workers ∧
      ∀ c ∈ cs, (s'.db.workerCapabilities.get? ⟨worker, c.1, c.2⟩).isSome = true := by
  have stored := foldlM_rule (fun rest s1 => s1.db.workers = s.db.workers ∧ ∀ c ∈ cs, c ∈ rest ∨
    (s1.db.workerCapabilities.get? ⟨worker, c.1, c.2⟩).isSome = true) ?_ h ⟨rfl, fun _ => .inl⟩
  · exact ⟨stored.1, fun c hc => (stored.2 c hc).resolve_left (by simp)⟩
  rintro c rest s1 s2 ⟨hworkers, hstored⟩ hinsert
  rw [insertCapability_db hinsert]
  refine ⟨hworkers, fun c' hc' => ?_⟩
  rw [get?_put]
  split
  · exact .inr rfl
  · rename_i hne
    refine (hstored c' hc').imp_left fun hrest => ?_
    rcases mem_cons.mp hrest with rfl | hrest
    · exact absurd rfl hne
    · exact hrest

theorem insertPolicy_stored {p : PolicyKey × RetryColumns} (h : insertPolicy s p = .ok s')
    (agrees : ∀ v, s.db.handlerPolicies.get? p.1 = some v → v = p.2) :
    s'.db.workers = s.db.workers ∧ s'.db.workerCapabilities = s.db.workerCapabilities ∧
      ∀ k, s'.db.handlerPolicies.get? k =
        if k = p.1 then some p.2 else s.db.handlerPolicies.get? k := by
  unfold insertPolicy at h
  obtain ⟨u, -, h⟩ := bind_ok h
  split at h
  · rename_i v hv
    cases h
    refine ⟨rfl, rfl, fun k => ?_⟩
    split
    · rename_i hk
      rw [hk, hv, agrees v hv]
    · rfl
  · cases h
    exact ⟨rfl, rfl, fun k => get?_put _ _ _ _⟩

theorem insertPolicies_stored {ps : List (PolicyKey × RetryColumns)}
    (unique : ∀ p ∈ ps, ∀ q ∈ ps, p.1 = q.1 → p = q)
    (agrees : ∀ p ∈ ps, ∀ v, s.db.handlerPolicies.get? p.1 = some v → v = p.2)
    (h : ps.foldlM insertPolicy s = .ok s') :
    s'.db.workers = s.db.workers ∧ s'.db.workerCapabilities = s.db.workerCapabilities ∧
      ∀ p ∈ ps, s'.db.handlerPolicies.get? p.1 = some p.2 := by
  have stored := foldlM_rule (fun rest s1 => (∀ p ∈ rest, p ∈ ps) ∧ s1.db.workers = s.db.workers ∧
    s1.db.workerCapabilities = s.db.workerCapabilities ∧
    (∀ p ∈ ps, ∀ v, s1.db.handlerPolicies.get? p.1 = some v → v = p.2) ∧
    ∀ p ∈ ps, p ∈ rest ∨ s1.db.handlerPolicies.get? p.1 = some p.2) ?_ h
    ⟨fun _ => id, rfl, rfl, agrees, fun _ => .inl⟩
  · obtain ⟨-, hworkers, hcapabilities, -, hstored⟩ := stored
    exact ⟨hworkers, hcapabilities, fun p hp => (hstored p hp).resolve_left (by simp)⟩
  rintro p rest s1 s2 ⟨hrest, hworkers, hcapabilities, hagrees, hstored⟩ hinsert
  have hp := hrest p mem_cons_self
  obtain ⟨hworkers2, hcapabilities2, hget⟩ := insertPolicy_stored hinsert (hagrees p hp)
  refine ⟨fun q hq => hrest q (mem_cons_of_mem _ hq), hworkers2.trans hworkers,
    hcapabilities2.trans hcapabilities, fun q hq v hv => ?_, fun q hq => ?_⟩
  · rw [hget] at hv
    split at hv
    · rename_i hk
      cases hv
      rw [unique q hq p hp hk]
    · exact hagrees q hq v hv
  · rw [hget]
    split
    · rename_i hk
      exact .inr (by rw [unique q hq p hp hk])
    · rename_i hk
      refine (hstored q hq).imp_left fun h => ?_
      rcases mem_cons.mp h with rfl | h
      · exact absurd rfl hk
      · exact h

theorem registerWorker_stored {worker : Uuid} {r : Registration}
    {ttl : Int} (h : registerWorker e worker queueName version r ttl s = .ok s') :
    (∃ w, s'.db.workers.get? worker = some w ∧ w.queueName = queueName) ∧
      (∀ c ∈ r.capabilities, (s'.db.workerCapabilities.get? ⟨worker, c.1, c.2⟩).isSome = true) ∧
      ∀ p ∈ r.policies queueName, s'.db.handlerPolicies.get? p.1 = some p.2 := by
  unfold registerWorker at h
  split at h
  · cases h
  rename_i aligned
  split at h
  · cases h
  rename_i nodup
  split at h
  · cases h
  obtain ⟨s1, -, h⟩ := bind_ok h
  obtain ⟨s2, hcapabilities, h⟩ := bind_ok h
  split at h
  · cases h
  rename_i clean
  obtain ⟨hworkers, stored⟩ := insertCapabilities_stored hcapabilities
  obtain ⟨hworkers', hcapabilities', hpolicies⟩ := insertPolicies_stored
    (fun p hp q hq => Registration.policies_inj (by simpa using aligned) (by simpa using nodup) hp hq)
    (fun p hp v hv => by
      by_contra differs
      exact clean (List.any_eq_true.mpr ⟨p, hp, by simp [hv, differs]⟩)) h
  refine ⟨?_, ?_, hpolicies⟩
  · rw [hworkers', hworkers]
    exact ⟨_, get?_put_self _ _ _, rfl⟩
  · rw [hcapabilities']
    exact stored

/-! ## Other calls -/

theorem Effect.worker (effect : Effect e l s s') {id : Uuid} (hl : l ≠ .enroll id) {w' : Worker}
    (row : s'.db.workers.get? id = some w') :
    (∃ w, s.db.workers.get? id = some w ∧ w'.queueName = w.queueName) ∧
      ∀ n v, s'.db.workerCapabilities.get? ⟨id, n, v⟩ = s.db.workerCapabilities.get? ⟨id, n, v⟩ := by
  cases effect with
  | @enroll _ worker _ _ others theirs =>
    have hne : id ≠ worker := fun h => hl (by rw [h])
    exact ⟨⟨w', (others id hne).symm.trans row, rfl⟩, fun n v => theirs _ hne⟩
  | @heartbeat _ worker w w1 hw queue =>
    refine ⟨?_, fun _ _ => rfl⟩
    rw [get?_put] at row
    split at row
    · rename_i hid
      cases row
      exact ⟨w, hid ▸ hw, queue⟩
    · exact ⟨w', row, rfl⟩
  | dropWorkers =>
    obtain ⟨hrow, kept⟩ := get?_delete_eq_some.mp row
    exact ⟨⟨w', hrow, rfl⟩, fun _ _ => get?_delete_of_false fun _ => kept⟩
  | @fireManage _ j old new =>
    obtain ⟨keys, hk⟩ := manage_tables e j old new s.db
    rw [hk] at row ⊢
    exact ⟨⟨w', row, rfl⟩, fun _ _ => rfl⟩
  | @delete _ j t =>
    obtain ⟨keys, hk⟩ := deleteTask_spec e s.db j t
    rw [hk] at row ⊢
    exact ⟨⟨w', row, rfl⟩, fun _ _ => rfl⟩
  | _ => exact ⟨⟨w', row, rfl⟩, fun _ _ => rfl⟩

def Call.enrolls (id : Uuid) : Call → Bool
  | .registerWorker worker .. => worker = id
  | _ => false

theorem effects_no_enroll {c : Call} {id : Uuid} (h : c.effects (.enroll id)) :
    c.enrolls id = true := by
  cases c <;> simp_all [Call.effects, Call.enrolls, Label.enqueues, Label.cascade, Label.spawns,
    Label.freshlySpawns, Label.waits, Label.timesOut, Label.bookkeeping, Label.materializes]

/-- The row of the worker, while it is there, is for this queue and these handlers. -/
def Enrolled (id : Uuid) (queueName : String) (handlers : List (String × Int)) (db : Database) : Prop :=
  ∀ w, db.workers.get? id = some w → w.queueName = queueName ∧
    ∀ c ∈ handlers, (db.workerCapabilities.get? ⟨id, c.1, c.2⟩).isSome = true

theorem Effect.keeps_enrolled {id : Uuid}
    (effect : Effect e l s s') (hl : l ≠ .enroll id) (h : Enrolled id queueName handlers s.db) :
    Enrolled id queueName handlers s'.db := by
  intro w' row
  obtain ⟨⟨w, hw, hqueue⟩, hsame⟩ := effect.worker hl row
  obtain ⟨hname, hhandlers⟩ := h w hw
  exact ⟨hqueue.trans hname, fun c hc => by rw [hsame]; exact hhandlers c hc⟩

theorem runFrom_enrolled (server : Server) {id : Uuid} {w : World}
    {since : List Request} (own : ∀ r ∈ since, r.call.enrolls id = false)
    (h : Enrolled id queueName handlers w.db) :
    Enrolled id queueName handlers (runFrom server w since).db := by
  refine runFrom_rule (I := fun w => Enrolled id queueName handlers w.db) ?_ h
  intro w r hr
  refine step_keeps (I := fun s => Enrolled id queueName handlers s.db) ?_
  intro l s s' hl effect
  refine effect.keeps_enrolled fun hid => ?_
  exact absurd ((effects_no_enroll (hid ▸ hl)).symm.trans (own r hr)) nofun

/-! ## Demand -/

/-- A live worker for the task's queue that can run it and is not draining. -/
def CanRun (e : Env) (db : Database) (t : Task) (id : Uuid) : Prop :=
  ∃ w, db.workers.get? id = some w ∧ w.queueName = t.queueName ∧ w.draining = false ∧
    e.now < w.expiresAt ∧
    (db.workerCapabilities.get? ⟨id, t.taskName, t.handlerVersion⟩).isSome = true

theorem routable_iff {t : Task} : routable e db t = true ↔ ∃ id, CanRun e db t id := by
  unfold routable CanRun
  rw [decide_eq_true_iff, ne_eq, length_eq_zero_iff, eq_nil_iff_forall_not_mem]
  simp only [Prod.forall, not_forall, not_not, mem_select, Bool.and_eq_true,
    Bool.not_eq_true', decide_eq_true_eq, and_assoc]

def routedTasks (e : Env) (db : Database) (queueName : String) : List (Uuid × Task) :=
  (readyTasks e db queueName).filter fun x => routable e db x.2

def unroutedTasks (e : Env) (db : Database) (queueName : String) : List (Uuid × Task) :=
  (readyTasks e db queueName).filter fun x => !routable e db x.2

theorem sampleQueueDemand_counts {ms : Int} {reply : DemandReply}
    (h : sampleQueueDemand e queueName ms s = .ok (reply, s')) (sampled : reply.sampled = true) :
    reply.routableTasks = (routedTasks e s.db queueName).length ∧
      reply.unroutableTasks = (unroutedTasks e s.db queueName).length := by
  unfold sampleQueueDemand at h
  split at h
  · cases h
  split at h
  · cases h
    cases sampled
  rename_i q hq
  extract_lets fresh ready live routed unrouted q' at h
  split at h
  · cases h
    cases sampled
  · cases h
    have hready : ready = readyTasks e s.db queueName := by
      refine filter_congr fun x _ => ?_
      by_cases hname : x.2.queueName = queueName <;> simp [hname, hq]
    have hrouted : routed = (routedTasks e s.db queueName).length := by
      simp only [routed, routedTasks, hready, countP_eq_length_filter]
    refine ⟨hrouted, ?_⟩
    have hsplit := List.length_eq_countP_add_countP (fun x : Uuid × Task => routable e s.db x.2)
      (l := ready)
    simp only [Bool.not_eq_true, Bool.decide_eq_false] at hsplit
    simp only [unrouted, unroutedTasks, routed, ← hready, ← countP_eq_length_filter]
    omega

theorem queueDemand_counts {names : List String} {versions : List Int} {demand : QueueDemand}
    (h : queueDemand e queueName names versions db = .ok demand) :
    demand.readyTasks = (readyTasks e db queueName).length ∧
    demand.unroutableTasks = (unroutedTasks e db queueName).length := by
  unfold queueDemand at h
  split at h
  · cases h
  · cases h
    exact ⟨rfl, by simp only [unroutedTasks, countP_eq_length_filter]⟩

theorem count_ready {name : String} {q : Queue} (hq : db.queues.get? name = some q)
    (p : Task → Bool) : (db.tasks.count fun _ t => t.queueName = name &&
      (t.state = .pending && t.runAt ≤ e.now && q.pausedAt.isNone && p t)) =
        ((readyTasks e db name).filter fun x => p x.2).length := by
  unfold readyTasks Table.select Table.count
  rw [countP_eq_length_filter, List.filter_filter]
  congr 1
  refine filter_congr fun x _ => ?_
  by_cases hname : x.2.queueName = name
  · simp [hname, hq, Bool.and_comm]
  · simp [hname]

theorem queueOverview_counts {o : QueueOverview} (h : o ∈ queueOverview e db) :
    o.routableCount = (routedTasks e db o.name).length ∧
      o.unroutableCount = (unroutedTasks e db o.name).length := by
  obtain ⟨⟨name, q⟩, hrow, rfl⟩ := List.mem_map.mp h
  have hq := mem_rows_iff.mp hrow
  exact ⟨count_ready hq (routable e db), count_ready hq fun t => !routable e db t⟩

/-! ## Claims -/

theorem claimCandidates_claimable {n : Int} {x : Uuid × Task}
    (h : x ∈ claimCandidates e db queueName handlers n) :
    ∃ ready, claimable db queueName handlers ready x.1 x.2 = true := by
  unfold claimCandidates at h
  split at h
  · cases h
  extract_lets starved priorityCandidates at h
  rcases mem_append.mp h with hx | hx
  · exact ⟨_, (mem_select.mp (show (x.1, x.2) ∈ _ from mem_take_sorted hx)).2⟩
  · have hc := (mem_select.mp (show (x.1, x.2) ∈ _ from mem_take_sorted hx)).2
    rw [Bool.and_eq_true] at hc
    exact ⟨_, hc.1⟩

theorem claim_policy {worker : Uuid} {names : List String} {versions : List Int}
    {n ms : Int} {claimed : List (Uuid × Task)} (h : PolicyInv s.db)
    (hclaim : claim e queueName worker names versions n ms s = .ok (claimed, s')) {x : Uuid × Task}
    (hx : x ∈ claimed) : x.2.retry = s.db.policyOf x.2 ∧ x.2.queueName = queueName ∧
      (x.2.taskName, x.2.handlerVersion) ∈ names.zip versions := by
  obtain ⟨t, db, token, ht, hpolicies, hnext⟩ := claimRows_next hclaim x hx
  obtain ⟨row, -⟩ := (claimCandidates_spec e s.db queueName (names.zip versions) n).2 _ ht
  obtain ⟨ready, hc⟩ := claimCandidates_claimable ht
  have hretry : x.2.retry = t.retry.coalesce (s.db.policyOf t) := by
    rw [hnext]
    unfold Database.policyOf
    rw [← hpolicies]
    rfl
  refine ⟨?_, ?_⟩
  · rw [hretry, (h.tasks _ t row).coalesce, hnext]
    rfl
  · rw [hnext]
    unfold claimable at hc
    simp only [Bool.and_eq_true, decide_eq_true_eq, contains_iff_mem] at hc
    exact ⟨hc.1.1.1.1, hc.2⟩

/-! ## Workers -/

theorem Store.retryPolicyColumns_kind {policy : Core.RetryPolicy} {columns : RetryColumns}
    (h : retryPolicyColumns policy = .ok columns) : columns.kind.isSome = true := by
  cases policy with
  | never =>
    cases h
    rfl
  | fixed delay =>
    obtain ⟨ms, -, h⟩ := bind_ok h
    cases h
    rfl
  | exponential baseDelay factor maxDelay =>
    obtain ⟨base, -, h⟩ := bind_ok h
    obtain ⟨factor, -, h⟩ := bind_ok h
    obtain ⟨ms, -, h⟩ := bind_ok h
    cases h
    rfl

theorem getD_eq_iff {p : Option RetryColumns} {columns : RetryColumns}
    (set : columns.kind.isSome = true) : p.getD {} = columns ↔ p = some columns := by
  cases p with
  | none =>
    constructor
    · rintro rfl
      cases set
    · intro h
      cases h
  | some p => exact Option.some_inj.symm

theorem Store.integer_ok {n : Nat} {error : PostgresError} {m : Int} (h : integer n error = .ok m) :
    m = n := by
  unfold integer at h
  split at h
  · cases h
  · cases h
    rfl

theorem Registration.retries_of (names : List String) (versions : List Int)
    (policies : List RetryColumns) :
    Registration.retries ⟨names, versions, policies.map RetryColumns.kind,
      policies.map RetryColumns.baseDelayMilliseconds, policies.map RetryColumns.factor,
      policies.map RetryColumns.maxDelayMilliseconds⟩ = policies := by
  unfold Registration.retries
  simp only [zip_map', List.map_map]
  exact List.map_id _

namespace Runtime

variable {F : Type} {registry : HandlerRegistry F} {config : WorkerConfig} {id : Uuid}

theorem Worker.new_ok {w : Worker F} (h : Worker.new registry config id = .ok w) :
    w.registry = registry ∧ w.config = config ∧ w.id = id := by
  unfold Worker.new at h
  split at h
  · cases h
  split at h
  · cases h
  split at h
  · cases h
  split at h
  · split at h
    · cases h
    · cases h
      exact ⟨rfl, rfl, rfl⟩
  · cases h

def handlerColumns (registry : HandlerRegistry F) : List (String × Int) :=
  registry.capabilities.map fun c => (c.1, (c.2 : Int))

theorem Worker.registration_ok {w : Worker F} {call : Call}
    (h : w.registration version = .ok call) :
    ∃ r ttl, call = .registerWorker w.id w.firstQueue version r ttl ∧
      r.capabilities = handlerColumns w.registry ∧
      ∀ key handler, w.registry.handlers.get? key = some handler →
        ∃ columns, Store.retryPolicyColumns handler.retryPolicy = .ok columns ∧
          (⟨w.firstQueue, key.1, key.2⟩, columns) ∈ r.policies w.firstQueue := by
  unfold Worker.registration Store.registerWorker at h
  split at h
  · cases h
  obtain ⟨ttl, -, h⟩ := bind_ok h
  split at h
  · cases h
  obtain ⟨versions, hversions, h⟩ := bind_ok h
  obtain ⟨policies, hpolicies, h⟩ := bind_ok h
  cases h
  have hversions := mapM_eq_map (g := fun c => (c.1.2 : Int)) (fun _ _ => Store.integer_ok) hversions
  refine ⟨_, ttl, rfl, ?_, ?_⟩
  · rw [Registration.capabilities, hversions, zip_map']
    unfold handlerColumns HandlerRegistry.capabilities HandlerRegistry.registrations
    simp
  · intro key handler hrow
    have hmem : (key, handler.retryPolicy) ∈ w.registry.registrations :=
      List.mem_map.mpr ⟨(key, handler), mem_rows_iff.mpr hrow, rfl⟩
    obtain ⟨columns, hzip, hcolumns⟩ := mapM_mem_zip hpolicies hmem
    refine ⟨columns, hcolumns, ?_⟩
    unfold Registration.policies
    rw [Registration.capabilities, hversions, zip_map', Registration.retries_of, List.map_map,
      List.zip_map_left]
    exact List.mem_map.mpr ⟨_, hzip, rfl⟩

theorem Worker.registered {w : Worker F} {call : Call}
    (hcall : w.registration version = .ok call) {rs since : List Request} {now : Timestamp}
    (returned : (step server (run server rs) ⟨now, call⟩).1 = .returned .done)
    (own : ∀ r ∈ since, r.call.enrolls w.id = false) :
    let db := (run server (rs ++ ⟨now, call⟩ :: since)).db
    Enrolled w.id w.firstQueue (handlerColumns w.registry) db ∧
      ∀ key handler, w.registry.handlers.get? key = some handler →
        ∃ columns, Store.retryPolicyColumns handler.retryPolicy = .ok columns ∧
          db.handlerPolicies.get? ⟨w.firstQueue, key.1, key.2⟩ = some columns := by
  intro db
  obtain ⟨r, ttl, rfl, hcapabilities, hpolicies⟩ := Worker.registration_ok hcall
  obtain ⟨s', hexec, hs'⟩ := step_returned returned
  obtain ⟨_, hregister, hreply⟩ := map_eq_ok.mp hexec
  cases hreply
  obtain ⟨⟨row, hrow, hqueue⟩, hcaps, hstored⟩ := registerWorker_stored hregister
  rw [hcapabilities] at hcaps
  have hdb : (run server (rs ++ [⟨now, .registerWorker w.id w.firstQueue version r ttl⟩])).db = s'.db := by
    rw [run_concat, hs', World.session_db]
  constructor
  · have enrolled : Enrolled w.id w.firstQueue (handlerColumns w.registry)
        (run server (rs ++ [⟨now, .registerWorker w.id w.firstQueue version r ttl⟩])).db := by
      rw [hdb]
      intro row' hrow'
      obtain rfl := Option.some.inj (hrow.symm.trans hrow')
      exact ⟨hqueue, hcaps⟩
    have kept := runFrom_enrolled server own enrolled
    rw [← run_append, append_assoc] at kept
    exact kept
  · intro key handler hhandler
    obtain ⟨columns, hcolumns, hmem⟩ := hpolicies key handler hhandler
    refine ⟨columns, hcolumns, ?_⟩
    have stored := hstored _ hmem
    rw [← hdb] at stored
    have kept := run_keeps_policy stored since
    rw [append_assoc] at kept
    exact kept

/-- A ready task that a live worker can execute is counted as routable exactly if it is in the first
queue of the worker, or another worker can run it. A task it claims carries the policy it has
registered for the handler exactly if it is from the first queue, or that queue has the same policy. -/
theorem registration_covers (server : Server) (registry : HandlerRegistry F) (config : WorkerConfig)
    (id : Uuid) (w : Worker F) (accepted : Worker.new registry config id = .ok w) (version : String)
    (rs since : List Request) (now : Timestamp) (call : Call)
    (registration : w.registration version = .ok call)
    (returned : (step server (run server rs) ⟨now, call⟩).1 = .returned .done)
    (own : ∀ r ∈ since, r.call.enrolls id = false) :
    let after := run server (rs ++ ⟨now, call⟩ :: since)
    (∀ now row, after.db.workers.get? id = some row → row.draining = false → now < row.expiresAt →
      ∀ queueName ∈ config.queues, ∀ x ∈ readyTasks (server.envAt now) after.db queueName,
        (x.2.taskName, x.2.handlerVersion) ∈ handlerColumns registry →
          ((x ∈ routedTasks (server.envAt now) after.db queueName ∧
              x ∉ unroutedTasks (server.envAt now) after.db queueName) ↔
            config.queues.head? = some queueName ∨
              ∃ other, other ≠ id ∧ CanRun (server.envAt now) after.db x.2 other)) ∧
    (∀ e queueName,
      (∀ ms reply s', sampleQueueDemand e queueName ms after.session = .ok (reply, s') →
        reply.sampled = true → reply.routableTasks = (routedTasks e after.db queueName).length ∧
          reply.unroutableTasks = (unroutedTasks e after.db queueName).length) ∧
      (∀ names versions demand, queueDemand e queueName names versions after.db = .ok demand →
        demand.readyTasks = (readyTasks e after.db queueName).length ∧
          demand.unroutableTasks = (unroutedTasks e after.db queueName).length) ∧
      ∀ o ∈ queueOverview e after.db, o.name = queueName →
        o.routableCount = (routedTasks e after.db queueName).length ∧
          o.unroutableCount = (unroutedTasks e after.db queueName).length) ∧
    ∀ now, ∀ queueName ∈ config.queues, ∀ n rows,
      (step server after ⟨now, w.claims.claim (queueName, n)⟩).1 = .returned (.tasks rows) →
        ∀ x ∈ rows, ∃ name handlerVersion handler columns,
          x.2.taskName = name ∧ x.2.handlerVersion = (handlerVersion : Nat) ∧
          registry.get name handlerVersion = some handler ∧
          Store.retryPolicyColumns handler.retryPolicy = .ok columns ∧
          (x.2.retry = columns ↔ config.queues.head? = some queueName ∨
            after.db.handlerPolicies.get? ⟨queueName, name, handlerVersion⟩ = some columns) := by
  intro after
  obtain ⟨rfl, rfl, rfl⟩ := Worker.new_ok accepted
  have hfirst : ∀ queueName, w.config.queues.head? = some queueName ↔ w.firstQueue = queueName := by
    intro queueName
    rw [List.head?_eq_some_head w.queues]
    exact Option.some_inj
  obtain ⟨enrolled, policies⟩ := Worker.registered registration returned own
  refine ⟨?_, fun e queueName => ⟨?_, fun names versions demand h => queueDemand_counts h, ?_⟩, ?_⟩
  · intro now row hrow hdraining hlive queueName _ x hx hhandler
    obtain ⟨hname, hcapabilities⟩ := enrolled row hrow
    have hqueue : x.2.queueName = queueName := by
      have h := (mem_select.mp (show (x.1, x.2) ∈ _ from hx)).2
      simp only [Bool.and_eq_true, decide_eq_true_eq] at h
      exact h.1.1.1
    have hrouted : (x ∈ routedTasks (server.envAt now) after.db queueName ∧
        x ∉ unroutedTasks (server.envAt now) after.db queueName) ↔
          routable (server.envAt now) after.db x.2 = true := by
      simp [routedTasks, unroutedTasks, hx]
    rw [hrouted, routable_iff, hfirst]
    constructor
    · rintro ⟨other, hother⟩
      by_cases hid : other = w.id
      · obtain ⟨row', hrow', hqueue', -⟩ := hother
        rw [hid, hrow] at hrow'
        cases hrow'
        exact Or.inl (hname.symm.trans (hqueue'.trans hqueue))
      · exact Or.inr ⟨other, hid, hother⟩
    · rintro (hq | ⟨other, -, hother⟩)
      · exact ⟨w.id, row, hrow, hname.trans (hq.trans hqueue.symm), hdraining, hlive,
          hcapabilities _ hhandler⟩
      · exact ⟨other, hother⟩
  · intro ms reply s' h sampled
    rw [← World.session_db after]
    exact sampleQueueDemand_counts h sampled
  · rintro o ho rfl
    exact queueOverview_counts ho
  · intro now queueName _ n rows hclaim x hx
    obtain ⟨s', hexec, -⟩ := step_returned hclaim
    obtain ⟨claimed, hclaim, hreply⟩ := reply_ok hexec
    cases hreply
    obtain ⟨hretry, hqueue, hhandler⟩ := claim_policy (run_policies server _) hclaim hx
    rw [zip_map'] at hhandler
    obtain ⟨⟨name, handlerVersion⟩, hmem, heq⟩ := List.mem_map.mp hhandler
    obtain ⟨⟨key, handler⟩, hrow, hkey⟩ := List.mem_map.mp hmem
    cases hkey
    have hhandlerRow := mem_rows_iff.mp hrow
    obtain ⟨columns, hcolumns, hstored⟩ := policies _ handler hhandlerRow
    simp only [Prod.mk.injEq] at heq
    refine ⟨name, handlerVersion, handler, columns, heq.1.symm, heq.2.symm, hhandlerRow, hcolumns, ?_⟩
    have hcarries : x.2.retry = columns ↔
        after.db.handlerPolicies.get? ⟨queueName, name, handlerVersion⟩ = some columns := by
      rw [hretry]
      unfold Database.policyOf Task.handler
      rw [hqueue, ← heq.1, ← heq.2]
      exact getD_eq_iff (Store.retryPolicyColumns_kind hcolumns)
    rw [hcarries, hfirst]
    constructor
    · exact Or.inr
    · rintro (rfl | h)
      · exact hstored
      · exact h

/-! ## Two queues -/

def coverageRegistry : HandlerRegistry Unit :=
  (HandlerRegistry.registerDurable {} "t" 1 (.fixed 5000000) ()).2

def coverageWorker : Worker Unit :=
  ⟨coverageRegistry, { queues := ["a", "b"] }, Uuid.ofNat 100, by decide, by decide, by decide⟩

def coverageCall : Call :=
  .registerWorker (Uuid.ofNat 100) "a" "1" ⟨["t"], [1], [some .fixed], [some 5], [none], [none]⟩ 30000

def coverageSince : List Request :=
  let request : EnqueueRequest := { taskName := some "t", payload := some .null }
  [⟨1, .enqueue { request with queueName := some "a" }⟩,
   ⟨2, .enqueue { request with queueName := some "b" }⟩]

def coverageRun : World := run countingServer (⟨0, coverageCall⟩ :: coverageSince)

theorem coverage_first_queue : (readyTasks (countingServer.envAt 3) coverageRun.db "a").length = 1 ∧
      ∀ x ∈ readyTasks (countingServer.envAt 3) coverageRun.db "a",
        x ∈ routedTasks (countingServer.envAt 3) coverageRun.db "a" ∧
          x ∉ unroutedTasks (countingServer.envAt 3) coverageRun.db "a" := by
  refine ⟨by decide +kernel, ?_⟩
  have covers := (registration_covers countingServer coverageRegistry { queues := ["a", "b"] }
    (Uuid.ofNat 100) coverageWorker rfl "1" [] coverageSince 0 coverageCall rfl (by decide +kernel)
    (by decide)).1
  intro x hx
  have hhandler : ∀ x ∈ readyTasks (countingServer.envAt 3) coverageRun.db "a",
      (x.2.taskName, x.2.handlerVersion) ∈ handlerColumns coverageRegistry := by decide +kernel
  exact (covers 3 ⟨"a", "1", false, 30000000⟩ (by decide +kernel) rfl (by decide) "a" (by decide) x hx
    (hhandler x hx)).mpr (Or.inl rfl)

theorem second_queue_uncovered :
    Worker.new coverageRegistry { queues := ["a", "b"] } (Uuid.ofNat 100) = .ok coverageWorker ∧
    coverageWorker.registration "1" = .ok coverageCall ∧
    (step countingServer {} ⟨0, coverageCall⟩).1 = .returned .done ∧
    coverageRun.db.workers.get? (Uuid.ofNat 100) = some ⟨"a", "1", false, 30000000⟩ ∧
    ((readyTasks (countingServer.envAt 3) coverageRun.db "b").map fun x =>
      (x.2.taskName, x.2.handlerVersion)) = [("t", 1)] ∧
    (step countingServer coverageRun ⟨3, .sampleQueueDemand "b" 1000⟩).1 =
      .returned (.demand ⟨true, 0, 0, 1⟩) ∧
    queueDemand (countingServer.envAt 3) "b" ["t"] [1] coverageRun.db = .ok ⟨1, 1, 1⟩ ∧
    ((queueOverview (countingServer.envAt 3) coverageRun.db).map fun o =>
      (o.name, o.routableCount, o.unroutableCount)) = [("a", 1, 0), ("b", 0, 1)] ∧
    ((step countingServer coverageRun ⟨3, coverageWorker.claims.claim ("a", 1)⟩).1.rows.map fun x =>
      x.2.retry) = [{ kind := some .fixed, baseDelayMilliseconds := some 5 }] ∧
    ((step countingServer coverageRun ⟨3, coverageWorker.claims.claim ("b", 1)⟩).1.rows.map fun x =>
      x.2.retry) = [{}] := by
  refine ⟨rfl, rfl, ?_⟩
  decide +kernel

end Runtime

end Pgtask
