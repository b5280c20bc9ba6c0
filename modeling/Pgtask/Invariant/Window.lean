import Pgtask.Invariant.Keys
import Pgtask.Invariant.Names

/-!
# The idempotency window

A task that was enqueued with a key holds the key until the retention of its
queue has passed since it finished. Until then every enqueue with the key gets
that task, and afterwards the next one gets a new task.
-/

open Sql Checked List Option

namespace Pgtask

variable {e : Env} {l : Label} {s s' : Session} {db : Database} {id : Uuid}
  {k : String × String} {server : Server}

/-! ## Enqueues -/

def Call.requests : Call → List EnqueueRequest
  | .enqueue request => [request]
  | .enqueueMany items => items.map EnqueueItem.request
  | _ => []

def EnqueueRequest.asksFor (r : EnqueueRequest) (k : String × String) : Prop :=
  r.queueName = some k.1 ∧ r.idempotencyKey = some k.2

inductive Enqueues (e : Env) : List EnqueueRequest → Session → List (Uuid × Bool) → Session → Prop
  | nil {s : Session} : Enqueues e [] s [] s
  | cons {r : EnqueueRequest} {rs : List EnqueueRequest} {x : Uuid × Bool} {xs : List (Uuid × Bool)}
      {s s₁ s₂ : Session} (head : enqueue e r s = .ok (x, s₁)) (tail : Enqueues e rs s₁ xs s₂) :
      Enqueues e (r :: rs) s (x :: xs) s₂

theorem enqueueMany_enqueues {items : List EnqueueItem} {replies : List (Uuid × Bool)}
    (h : enqueueMany e items s = .ok (replies, s')) :
    Enqueues e (items.map EnqueueItem.request) s replies s' := by
  induction items generalizing s replies with
  | nil =>
    cases h
    exact .nil
  | cons item items ih =>
    obtain ⟨⟨x, s1⟩, h1, h⟩ := bind_ok h
    obtain ⟨⟨xs, s2⟩, h2, ⟨⟩⟩ := bind_ok h
    exact .cons h1 (ih h2)

theorem exec_enqueued {c : Call} {replies : List (Uuid × Bool)}
    (h : exec e c s = .ok (.enqueued replies, s')) : Enqueues e c.requests s replies s' := by
  cases c with
  | enqueue request =>
    obtain ⟨x, hcall, ⟨⟩⟩ := reply_ok h
    exact .cons hcall .nil
  | enqueueMany items =>
    obtain ⟨xs, hcall, ⟨⟩⟩ := reply_ok h
    exact enqueueMany_enqueues hcall
  | _ => simp_all [exec, map_eq_ok, reply]

theorem enqueueRow_carries {r : EnqueueRequest} {row t : Task} (h : enqueueRow e r = .ok row)
    (ht : t.fixed = row.fixed) : t.carries k ↔ r.asksFor k := by
  obtain ⟨-, -, -, hkey, hqueue, -⟩ := enqueueRow_spec h
  rw [Task.carries_of_fixed ht]
  unfold Task.carries EnqueueRequest.asksFor
  rw [hkey, hqueue, Option.some.injEq]

theorem enqueue_other {r : EnqueueRequest} {x : Uuid × Bool} (h : enqueue e r s = .ok (x, s'))
    (other : ¬ r.asksFor k) : s'.db.idempotencyKeys.get? k = s.db.idempotencyKeys.get? k ∧
      ∀ j t, s'.db.tasks.get? j = some t → t.carries k → s.db.tasks.get? j = some t := by
  obtain ⟨id, created⟩ := x
  obtain ⟨row, ls, hrow, hls, -, h⟩ := enqueue_spec h
  have queues : ∀ {s1 : Session}, Effects e ls s s1 →
      s1.db.idempotencyKeys = s.db.idempotencyKeys ∧ s1.db.tasks = s.db.tasks := by
    intro s1 path
    refine path.keeps (P := fun s1 => s1.db.idempotencyKeys = s.db.idempotencyKeys ∧
      s1.db.tasks = s.db.tasks) ?_ hls ⟨rfl, rfl⟩
    rintro l s1 s2 rfl ⟨⟩ h
    exact h
  rcases h with ⟨-, -, path, hnew⟩ | ⟨-, path, htasks, -⟩
  · obtain ⟨s1, path1, path2⟩ := path.unappend
    obtain ⟨hkeys, htasks⟩ := queues path1
    cases path2 with
    | cons effect nil =>
      cases nil
      have hc : ∀ t, s'.db.tasks.get? id = some t → ¬ t.carries k := by
        intro t ht
        cases hnew.symm.trans ht
        exact fun carries => other ((enqueueRow_carries hrow rfl).mp carries)
      constructor
      · have key := effect.key k
        rw [← hkeys]
        generalize s1.db.idempotencyKeys.get? k = before, hafter : s'.db.idempotencyKeys.get? k = after
          at key
        cases key with
        | same => rfl
        | reserve row carries => exact absurd carries (hc _ row)
      · intro j t ht carries
        have step := effect.row j
        rw [ht, htasks] at step
        generalize s.db.tasks.get? j = before, hafter : some t = after at step
        cases step with
        | same => rfl
        | insert _ label =>
          cases hafter
          rcases label with h | h
          · cases h
            exact absurd carries (hc t ht)
          · cases h
        | park _ _ label | adopt _ label | wake _ label => rcases label with h | h <;> cases h
  · obtain ⟨s1, path1, path2⟩ := path.unappend
    obtain ⟨hkeys, -⟩ := queues path1
    cases path2 with
    | cons effect nil =>
      cases nil
      cases effect
      exact ⟨by rw [hkeys], fun j t ht _ => htasks ▸ ht⟩

theorem enqueue_reserved {r : EnqueueRequest} {row : Task} {reservation : Reservation}
    (hrow : enqueueRow e r = .ok row) (asks : r.asksFor k)
    (held : s.db.idempotencyKeys.get? k = some reservation)
    (active : reservation.expiresAt.any (· ≤ e.now) = false) :
    ∃ s', enqueue e r s = .ok ((reservation.taskId, false), s') ∧
      s'.db.idempotencyKeys = s.db.idempotencyKeys ∧ s'.db.tasks = s.db.tasks := by
  obtain ⟨-, -, -, -, hqueue, -⟩ := enqueueRow_spec hrow
  have hk : row.queueName = k.1 := some.inj (hqueue.symm.trans asks.1)
  have hvalid : validName 128 row.queueName = true := by
    unfold enqueueRow at hrow
    obtain ⟨taskName, -, hrow⟩ := bind_ok hrow
    obtain ⟨queueName, hq, hrow⟩ := bind_ok hrow
    rw [hqueue] at hq
    obtain ⟨⟨⟩, h2⟩ := argument_ok hq
    exact h2
  obtain ⟨s1, hadd⟩ : ∃ s1, addQueue row.queueName { s with drawn := s.drawn + 1 } = .ok s1 := by
    unfold addQueue
    have hrequire : require (({} : Queue).checks row.queueName) = .ok () := by
      simp [require, Queue.checks, hvalid]
    rw [hrequire]
    cases hfound : s.db.queues.get? row.queueName with
    | none => exact ⟨_, rfl⟩
    | some _ => exact ⟨_, rfl⟩
  obtain ⟨-, -, queues, hs1⟩ := addQueue_spec (e := e) hadd
  have hactive : activeReservation e s1.db row.queueName k.2 = some reservation := by
    unfold activeReservation
    rw [hs1, hk]
    exact filter_eq_some_iff.mpr ⟨held, by rw [active]; rfl⟩
  refine ⟨s1, ?_, by rw [hs1], by rw [hs1]⟩
  unfold enqueue genRandomUuid
  refine bind_eq_ok.mpr ⟨row, hrow, bind_eq_ok.mpr ⟨s1, hadd, ?_⟩⟩
  rw [asks.2]
  simp only [hactive]

theorem enqueue_free {r : EnqueueRequest} {id : Uuid} {created : Bool}
    (h : enqueue e r s = .ok ((id, created), s')) (asks : r.asksFor k)
    (free : ∀ x, s.db.idempotencyKeys.get? k = some x → x.expiresAt.any (· ≤ e.now) = true) :
    created = true ∧ s.db.tasks.get? id = none ∧
      (∃ t, s'.db.tasks.get? id = some t ∧ t.carries k ∧ t.state.outstanding = true) ∧
      s'.db.idempotencyKeys.get? k = some ⟨id, none⟩ := by
  obtain ⟨row, ls, hrow, hls, -, h⟩ := enqueue_spec h
  rcases h with ⟨rfl, -, path, hnew⟩ | ⟨-, -, -, key, reservation, hkey, -, hactive⟩
  · have carries := (enqueueRow_carries (t := { row with retry := _ }) hrow rfl).mpr asks
    have hpending := (enqueueRow_spec hrow).1.state
    obtain ⟨s1, path1, path2⟩ := path.unappend
    have htasks : s1.db.tasks = s.db.tasks := by
      refine path1.keeps (P := fun s1 => s1.db.tasks = s.db.tasks) ?_ hls rfl
      rintro l s1 s2 rfl ⟨⟩ h
      exact h
    cases path2 with
    | cons effect nil =>
      cases nil
      refine ⟨rfl, ?_, ⟨_, hnew, carries, ?_⟩, effect.new_reservation (.inl rfl) hnew carries⟩
      · rw [← htasks]
        cases effect with
        | insert _ free => exact free
      · show row.state.outstanding = true
        rw [hpending]
        rfl
  · obtain ⟨hfound, hnot⟩ := filter_eq_some_iff.mp hactive
    obtain ⟨-, -, -, -, hqueue, -⟩ := enqueueRow_spec hrow
    have hk : (row.queueName, key) = k :=
      Prod.ext (some.inj (hqueue.symm.trans asks.1)) (some.inj (hkey.symm.trans asks.2))
    rw [hk] at hfound
    rw [free _ hfound] at hnot
    cases hnot

theorem enqueue_keeps_row {r : EnqueueRequest} {x : Uuid × Bool} {j : Uuid} {t : Task}
    (h : enqueue e r s = .ok (x, s')) (row : s.db.tasks.get? j = some t) :
    s'.db.tasks.get? j = some t := by
  obtain ⟨⟨ls, path, hls⟩, -⟩ := enqueue_effects h
  refine path.keeps (P := fun s => s.db.tasks.get? j = some t) (fun l s s' hl effect row => ?_) hls row
  have step := effect.row j
  rw [row] at step
  generalize hold : some t = old, hnew : s'.db.tasks.get? j = new at step
  cases step with
  | same => rfl
  | insert => cases hold
  | park _ _ label | adopt _ label | wake _ label => rcases label with rfl | rfl <;> cases hl
  | _ => cases hl

theorem Enqueues.keeps_row {rs : List EnqueueRequest} {xs : List (Uuid × Bool)} {j : Uuid} {t : Task}
    (h : Enqueues e rs s xs s') (row : s.db.tasks.get? j = some t) : s'.db.tasks.get? j = some t := by
  induction h with
  | nil => exact row
  | cons head _ ih => exact ih (enqueue_keeps_row head row)

theorem Enqueues.reserved {rs : List EnqueueRequest} {xs : List (Uuid × Bool)}
    {reservation : Reservation} (h : Enqueues e rs s xs s')
    (held : s.db.idempotencyKeys.get? k = some reservation)
    (active : reservation.expiresAt.any (· ≤ e.now) = false) :
    List.Forall₂ (fun r x => r.asksFor k → x = (reservation.taskId, false)) rs xs ∧
      ∀ j t, s'.db.tasks.get? j = some t → t.carries k → s.db.tasks.get? j = some t := by
  induction h with
  | nil => exact ⟨.nil, fun _ _ h _ => h⟩
  | @cons r rs x xs s s1 s2 head tail ih =>
    by_cases asks : r.asksFor k
    · obtain ⟨row, ls, hrow, -⟩ := enqueue_spec head
      obtain ⟨s', hreply, hkeys, htasks⟩ := enqueue_reserved hrow asks held active
      cases hreply.symm.trans head
      obtain ⟨hxs, hnew⟩ := ih (by rw [hkeys, held])
      exact ⟨.cons (fun _ => rfl) hxs, fun j t ht hc => htasks ▸ hnew j t ht hc⟩
    · obtain ⟨hkey, hother⟩ := enqueue_other head asks
      obtain ⟨hxs, hnew⟩ := ih (by rw [hkey, held])
      exact ⟨.cons (fun h => absurd h asks) hxs, fun j t ht hc => hother j t (hnew j t ht hc) hc⟩

theorem Enqueues.free {before after : List EnqueueRequest} {r : EnqueueRequest}
    {xs : List (Uuid × Bool)} (h : Enqueues e (before ++ r :: after) s xs s')
    (free : ∀ x, s.db.idempotencyKeys.get? k = some x → x.expiresAt.any (· ≤ e.now) = true)
    (first : ∀ q ∈ before, ¬ q.asksFor k) (asks : r.asksFor k) :
    ∃ j t, xs[before.length]? = some (j, true) ∧ s.db.tasks.get? j = none ∧
      s'.db.tasks.get? j = some t ∧ t.carries k := by
  induction before generalizing s xs with
  | nil =>
    cases h with
    | @cons _ _ x _ _ _ _ head tail =>
      obtain ⟨j, created⟩ := x
      obtain ⟨rfl, hnone, ⟨t, row, carries, -⟩, -⟩ := enqueue_free head asks free
      exact ⟨j, t, rfl, hnone, tail.keeps_row row, carries⟩
  | cons q before ih =>
    cases h with
    | cons head tail =>
      obtain ⟨hkey, hother⟩ := enqueue_other head (first q mem_cons_self)
      obtain ⟨j, t, hx, hnone, row, carries⟩ := ih tail (by rwa [hkey])
        fun q' hq' => first q' (mem_cons_of_mem _ hq')
      refine ⟨j, t, hx, ?_, row, carries⟩
      by_contra hsome
      obtain ⟨t0, ht0⟩ := ne_none_iff_exists'.mp hsome
      rw [enqueue_keeps_row head ht0] at hnone
      cases hnone

/-! ## Finished tasks keep their reservation -/

/-- The task that was enqueued with the key `k` is there and has not finished. -/
def Unfinished (db : Database) (k : String × String) (id : Uuid) : Prop :=
  ∃ t, db.tasks.get? id = some t ∧ t.carries k ∧ t.state.outstanding = true

structure Finished (k : String × String) (id : Uuid) (d : Timestamp) (s : Session) : Prop where
  holder : ∀ r, s.db.idempotencyKeys.get? k = some r → r = ⟨id, some d⟩
  finished : ¬ Unfinished s.db k id
  settled : ∀ old new, Trigger.manageIdempotencyKey id old new ∈ s.queued → ¬ new.carries k

theorem mem_afterUpdate {id j : Uuid} {t new old' new' : Task}
    (h : Trigger.manageIdempotencyKey id old' new' ∈ afterUpdate j t new) :
    id = j ∧ new' = new ∧ (t.state.outstanding = true ∨ new.state.outstanding = true) := by
  unfold afterUpdate at h
  split at h
  · rename_i hstate
    rw [Bool.and_eq_true] at hstate
    simp only [mem_cons, reduceCtorEq, Trigger.manageIdempotencyKey.injEq, not_mem_nil,
      or_false, false_or] at h
    exact ⟨h.1, h.2.2, .inl hstate.1⟩
  · split at h
    · rename_i hstate
      rw [Bool.and_eq_true] at hstate
      simp only [mem_singleton, Trigger.manageIdempotencyKey.injEq] at h
      exact ⟨h.1, h.2.2, .inr hstate.2⟩
    · cases h

theorem Finished.effect {d : Timestamp} (effect : Effect e l s s') (h : Finished k id d s)
    (hl : ∀ t, l = .retry id → s.db.tasks.get? id = some t → ¬ t.carries k) : (Finished k id d s' ∧
        (e.now < d → s'.db.idempotencyKeys.get? k = s.db.idempotencyKeys.get? k)) ∨
      ∃ j t, l = .insert j ∧ s'.db.tasks.get? j = some t ∧ t.carries k ∧
        ∀ x, s.db.idempotencyKeys.get? k = some x → x.expiresAt.any (· ≤ e.now) = true := by
  by_cases created : ∃ j t, l = .insert j ∧ s'.db.tasks.get? j = some t ∧ t.carries k
  · obtain ⟨j, t, rfl, row, carries⟩ := created
    refine .inr ⟨j, t, rfl, row, carries, ?_⟩
    have key := effect.key k
    generalize s.db.idempotencyKeys.get? k = before, hafter : s'.db.idempotencyKeys.get? k = after
      at key
    cases key with
    | same _ unreserved => exact absurd carries (unreserved j t rfl row)
    | reserve _ _ free => exact free
  have finished : ¬ Unfinished s'.db k id := by
    rintro ⟨t', row', carries, ho⟩
    have step := effect.row id
    rw [row'] at step
    by_cases hretry : l = .retry id
    · rcases step.fixed with ⟨t, row, hfixed⟩ | ⟨-, label⟩
      · exact hl t hretry row ((Task.carries_of_fixed hfixed).mp carries)
      · rw [hretry] at label
        rcases label with h | h <;> cases h
    · rcases step.unfinished ho hretry with ⟨t, row, ht, hfixed⟩ | ⟨-, rfl | rfl⟩
      · exact h.finished ⟨t, row, (Task.carries_of_fixed hfixed).mp carries, ht⟩
      · exact created ⟨id, t', rfl, row', carries⟩
      · cases effect with
        | materialize _ _ _ unkeyed =>
          cases (Table.get?_put_self _ _ _).symm.trans row'
          exact Task.not_carries unkeyed carries
  have settled : ∀ old new, Trigger.manageIdempotencyKey id old new ∈ s'.queued → ¬ new.carries k := by
    intro old new hmem carries
    rcases effect.queue with hperm | ⟨j, t, t', -, row, row', hqueue⟩ | ⟨x, rest, hs, hs', -⟩
    · exact h.settled old new (hperm.mem_iff.mp hmem) carries
    · rw [hqueue] at hmem
      rcases mem_append.mp hmem with hmem | hmem
      · exact h.settled old new hmem carries
      · obtain ⟨rfl, rfl, ho | ho⟩ := mem_afterUpdate hmem
        · have hfixed : new.fixed = t.fixed := by
            have step := effect.row id
            rw [row, row'] at step
            rcases step.fixed with ⟨t0, h0, hfixed⟩ | ⟨h, -⟩
            · cases h0
              exact hfixed
            · cases h
          exact h.finished ⟨t, row, (Task.carries_of_fixed hfixed).mp carries, ho⟩
        · exact finished ⟨new, row', carries, ho⟩
    · refine h.settled old new ?_ carries
      rw [hs]
      exact mem_cons_of_mem _ (hs' ▸ hmem)
  -- No trigger is left that would write the reservation of the finished task.
  have quiet : ∀ t, l = .fireManage id → s.db.tasks.get? id = some t → ¬ t.carries k := by
    rintro t rfl row
    cases effect with
    | fireManage queue row' =>
      obtain rfl := some.inj (row'.symm.trans row)
      exact h.settled _ _ (by rw [queue]; exact mem_cons_self)
  have hkey : (∀ r, s'.db.idempotencyKeys.get? k = some r → r = ⟨id, some d⟩) ∧
      (e.now < d → s'.db.idempotencyKeys.get? k = s.db.idempotencyKeys.get? k) := by
    have key := effect.key k
    have holder := h.holder
    generalize s.db.idempotencyKeys.get? k = before, s'.db.idempotencyKeys.get? k = after
      at key holder
    cases key with
    | same => exact ⟨holder, fun _ => rfl⟩
    | reserve row carries => exact (created ⟨_, _, rfl, row, carries⟩).elim
    | finish row carries | revive row carries =>
      cases holder _ rfl
      exact absurd carries (quiet _ rfl row)
    | keep =>
      cases holder _ rfl
      exact ⟨fun r hr => (some.inj hr).symm, fun _ => rfl⟩
    | drop expired =>
      cases holder _ rfl
      exact ⟨fun r hr => (some_ne_none r hr.symm).elim, fun hd => absurd expired (Int.not_le.mpr hd)⟩
  exact .inl ⟨⟨hkey.1, finished, settled⟩, hkey.2⟩

/-! ## Unfinished tasks hold their reservation -/

def Label.finishes : Label → Bool
  | .complete _ | .fail _ | .staleTimeout _ | .frame => true
  | l => l.cascade

/-- The task has finished in this call, and its reservation has its end or is about to get it. -/
structure Finishing (e : Env) (k : String × String) (id : Uuid) (s : Session) : Prop where
  ended : ∃ t x, s.db.tasks.get? id = some t ∧ t.carries k ∧ t.state.terminal = true ∧
    t.completedAt = some e.now ∧ (s.db.queues.get? t.queueName).isSome = true ∧
    s.db.idempotencyKeys.get? k = some ⟨id, x⟩ ∧
    ((∃ old new, Trigger.manageIdempotencyKey id old new ∈ s.queued) ∨ x = t.expiry e s.db)

theorem Effect.retention (effect : Effect e l s s') (hl : l.finishes = true) (name : String) :
    (s'.db.queues.get? name).map Queue.idempotencyRetentionSeconds =
      (s.db.queues.get? name).map Queue.idempotencyRetentionSeconds := by
  refine effect.queueColumn (fun q => ?_) (fun q => ?_) name ?_
  · unfold Queue.released
    split <;> rfl
  · unfold Queue.taken
    split <;> rfl
  · refine ⟨?_, ?_, ?_⟩ <;> rintro rfl <;> cases hl

theorem Effect.expiry (effect : Effect e l s s') (hl : l.finishes = true) (t : Task) :
    t.expiry e s'.db = t.expiry e s.db := by
  have h := congrArg (Option.map fun r => t.completedAt.getD e.now + seconds r)
    (effect.retention hl t.queueName)
  rwa [Option.map_map, Option.map_map] at h

theorem RowStep.finished_stays {t : Task} {row : Option Task} (step : RowStep e db id l (some t) row)
    (finished : t.state.terminal = true) (hl : l.finishes = true) : row = some t := by
  generalize hold : some t = old at step
  cases step with
  | same => rfl
  | complete running | fail running =>
    cases hold
    rw [running] at finished
    cases finished
  | cancel unfinished =>
    cases hold
    rw [TaskState.outstanding, finished] at unfinished
    cases unfinished
  | park _ _ label | insert _ label | adopt _ label => rcases label with rfl | rfl <;> cases hl
  | wake =>
    subst hold
    have hw : t.state ≠ .waiting := by
      intro h
      rw [h] at finished
      cases finished
    rw [map_some, Task.woken, if_neg hw]
  | _ => cases hl

theorem Finishing.effect (effect : Effect e l s s') (hl : l.finishes = true)
    (h : Finishing e k id s) : Finishing e k id s' := by
  obtain ⟨t, x, row, carries, finished, completed, hqueue, held, hx⟩ := h.ended
  have row' : s'.db.tasks.get? id = some t := by
    have step := effect.row id
    rw [row] at step
    exact step.finished_stays finished hl
  have hqueue' := (effect.queueNames t.queueName).1 hqueue
  have hexpiry := effect.expiry hl t
  -- The trigger fires, or another effect leaves both it and the reservation.
  by_cases fires : l = .fireManage id
  · subst fires
    have key := effect.key k
    rw [held] at key
    refine ⟨t, t.expiry e s'.db, row', carries, finished, completed, hqueue', ?_, .inr rfl⟩
    rw [hexpiry]
    generalize s'.db.idempotencyKeys.get? k = after at key
    cases key with
    | same quiet => exact absurd rfl (quiet id t rfl row carries)
    | finish row1 =>
      obtain rfl := some.inj (row.symm.trans row1)
      rfl
    | revive row1 _ unfinished =>
      obtain rfl := some.inj (row.symm.trans row1)
      cases finished.symm.trans unfinished
  · have held' : s'.db.idempotencyKeys.get? k = some ⟨id, x⟩ := by
      have key := effect.key k
      rw [held] at key
      generalize s'.db.idempotencyKeys.get? k = after at key
      cases key with
      | same => rfl
      | finish | revive => exact absurd rfl fires
      | reserve | keep | drop => cases hl
    refine ⟨t, x, row', carries, finished, completed, hqueue', held', ?_⟩
    rw [hexpiry]
    refine hx.imp_left ?_
    rintro ⟨old, new, hmem⟩
    refine ⟨old, new, ?_⟩
    rcases effect.queue with hperm | ⟨_, _, _, -, -, -, hq⟩ | ⟨y, rest, hs, hs', hlabel⟩
    · exact hperm.mem_iff.mpr hmem
    · rw [hq]
      exact mem_append_left _ hmem
    · rw [hs] at hmem
      rcases mem_cons.mp hmem with rfl | hmem
      · exact absurd hlabel fires
      · exact hs' ▸ hmem

structure Holding (k : String × String) (id : Uuid) (s : Session) : Prop where
  unfinished : Unfinished s.db k id
  queue : (s.db.queues.get? k.1).isSome = true
  held : s.db.idempotencyKeys.get? k = some ⟨id, none⟩

theorem Holding.effect (effect : Effect e l s s') (h : Holding k id s) :
    Holding k id s' ∨ Finishing e k id s' ∧ (l = .complete id ∨ l = .fail id ∨ l = .cancel id) := by
  obtain ⟨t, row, carries, ho⟩ := h.unfinished
  have held' := effect.keeps_reservation row ho h.held
  have hqueue' := (effect.queueNames k.1).1 h.queue
  have step := effect.row id
  rw [row] at step
  obtain ⟨t', row', hfixed, hgoes⟩ := step.goes_on ho
  have carries' := (Task.carries_of_fixed hfixed).mpr carries
  rcases hgoes with ho' | ⟨finished, completed, label⟩
  · exact .inl ⟨⟨t', row', carries', ho'⟩, hqueue', held'⟩
  · refine .inr ⟨⟨t', none, row', carries', finished, completed, carries'.1 ▸ hqueue', held',
      .inl ⟨t, t', ?_⟩⟩, label⟩
    have queued : s'.queued = s.queued ++ afterUpdate id t t' := by
      have same : ∀ {t1 t2 : Task}, s.db.tasks.get? id = some t1 →
          (s.db.tasks.put id t2).get? id = some t' → t1 = t ∧ t2 = t' := by
        intro t1 t2 h1 h2
        rw [Table.get?_put_self] at h2
        exact ⟨some.inj (h1.symm.trans row), some.inj h2⟩
      rcases label with rfl | rfl | rfl
      · cases effect with
        | complete row1 =>
          obtain ⟨rfl, rfl⟩ := same row1 row'
          rfl
      · cases effect with
        | fail row1 =>
          obtain ⟨rfl, rfl⟩ := same row1 row'
          rfl
      · cases effect with
        | cancel row1 =>
          obtain ⟨rfl, rfl⟩ := same row1 row'
          rfl
    rw [queued, afterUpdate, ho, finished]
    simp

/-! ## The window -/

def windowEnd (db : Database) (k : String × String) (id : Uuid) : Option Timestamp := do
  let t ← (db.tasks.get? id).filter fun t => t.carries k
  let q ← db.queues.get? k.1
  let completedAt ← t.completedAt
  some (completedAt + seconds q.idempotencyRetentionSeconds)

instance (db : Database) (k : String × String) (id : Uuid) : Decidable (Unfinished db k id) :=
  decidable_of_iff ((db.tasks.get? id).any fun t => t.carries k && t.state.outstanding) <| by
    rw [Option.any_eq_true]
    simp only [Unfinished, Bool.and_eq_true, decide_eq_true_eq]

/-- The end of the window after a step from `db` to `db'`: there is none while the task is
unfinished, and it is fixed when the task finishes. -/
def windowStep (k : String × String) (id : Uuid) (db db' : Database) (d : Option Timestamp) :
    Option Timestamp :=
  if Unfinished db' k id then none else if Unfinished db k id then windowEnd db' k id else d

structure Held (db : Database) (k : String × String) (id : Uuid) (d : Option Timestamp) : Prop where
  held : db.idempotencyKeys.get? k = some ⟨id, d⟩
  unfinished : d = none ↔ Unfinished db k id

theorem Finishing.windowEnd (h : Finishing e k id s) (hq : s.queued = []) :
    Held s.db k id (windowEnd s.db k id) ∧ ¬ Unfinished s.db k id := by
  obtain ⟨t, x, row, carries, finished, completed, hqueue, held, hx⟩ := h.ended
  obtain ⟨q, hq'⟩ := isSome_iff_exists.mp hqueue
  have hend : Pgtask.windowEnd s.db k id = some (e.now + seconds q.idempotencyRetentionSeconds) := by
    have hq'' : s.db.queues.get? k.1 = some q := carries.1 ▸ hq'
    rw [Pgtask.windowEnd, row, filter_some, if_pos (decide_eq_true carries), hq'']
    show (t.completedAt.bind fun c => some (c + seconds q.idempotencyRetentionSeconds)) = _
    rw [completed]
    rfl
  have hnot : ¬ Unfinished s.db k id := by
    rintro ⟨t', row', -, ho⟩
    obtain rfl := some.inj (row.symm.trans row')
    rw [not_outstanding ho] at finished
    cases finished
  refine ⟨⟨?_, ?_⟩, hnot⟩
  · rcases hx with ⟨_, _, hmem⟩ | rfl
    · rw [hq] at hmem
      cases hmem
    · rw [held, hend, Task.expiry, hq', completed]
      rfl
  · rw [hend]
    exact ⟨nofun, fun h => absurd h hnot⟩

theorem finishes_of_cascade (h : l.cascade = true) : l.finishes = true := by
  cases l <;> first | rfl | cases h

theorem effects_finishes {c : Call} (h : c.effects (.complete id) ∨ c.effects (.fail id) ∨
    c.effects (.cancel id)) (hl : c.effects l) : l.finishes = true := by
  cases c with
  | completeTask | completeTasks | failTask | failTasks | recoverExpired =>
    rcases hl with ⟨_, rfl⟩ | hl
    · rfl
    · exact finishes_of_cascade hl
  | cancelTask => exact finishes_of_cascade hl
  | adminCancelTask =>
    rcases hl with hl | rfl
    · exact finishes_of_cascade hl
    · rfl
  | recoverResultWaitTimeouts => cases l <;> first | rfl | cases hl
  | _ => simp_all [Call.effects, Label.enqueues, Label.spawns, Label.freshlySpawns, Label.waits,
      Label.bookkeeping, Label.materializes]

theorem Holding.next {w : World} {r : Request} (h : Holding k id w.session) :
    Holding k id (step server w r).2.session ∨
      Finishing (server.envAt r.now) k id (step server w r).2.session := by
  by_cases hcall : r.call.effects (.complete id) ∨ r.call.effects (.fail id) ∨
      r.call.effects (.cancel id)
  · refine step_keeps (I := fun s => Holding k id s ∨ Finishing (server.envAt r.now) k id s)
      (fun l s s' hl effect h => ?_) (.inl h)
    rcases h with h | h
    · exact (h.effect effect).imp_right And.left
    · exact .inr (h.effect effect (effects_finishes hcall hl))
  · refine .inl (step_keeps (I := Holding k id) (fun l s s' hl effect h => ?_) h)
    rcases h.effect effect with h | ⟨-, label⟩
    · exact h
    · refine absurd ?_ hcall
      rcases label with rfl | rfl | rfl
      · exact .inl hl
      · exact .inr (.inl hl)
      · exact .inr (.inr hl)

theorem retry_holds {t : Task} (path : Effects e [.retry id, .fireManage id, .frame] s s')
    (row : s.db.tasks.get? id = some t) (carries : t.carries k) :
    Unfinished s'.db k id ∧ ∀ x, s.db.idempotencyKeys.get? k = some ⟨id, x⟩ →
      s'.db.idempotencyKeys.get? k = some ⟨id, none⟩ := by
  obtain ⟨s1, s2, retry, manage, frame⟩ := retry_path path
  obtain ⟨t1, row1, ho1, carries1, hkeys⟩ : ∃ t1, s1.db.tasks.get? id = some t1 ∧
      t1.state.outstanding = true ∧ t1.carries k ∧
      s1.db.idempotencyKeys = s.db.idempotencyKeys := by
    cases retry with
    | @retry _ _ t0 row0 =>
      obtain rfl := some.inj (row.symm.trans row0)
      exact ⟨_, Table.get?_put_self _ _ _, rfl, carries, rfl⟩
  have step := manage.row id
  rw [row1] at step
  obtain ⟨t2, row2, hfixed, ho2 | ⟨-, -, label⟩⟩ := step.goes_on ho1
  · cases frame
    refine ⟨⟨t2, row2, (Task.carries_of_fixed hfixed).mpr carries1, ho2⟩, fun x held => ?_⟩
    exact manage.revives row1 ho1 carries1 (by rw [hkeys, held]; rfl)
  · rcases label with h | h | h <;> cases h

theorem effects_insert {c : Call} {j : Uuid} (h : c.effects (.insert j)) (hl : c.effects l) :
    ∃ parent, l.spawns parent := by
  cases c with
  | enqueue | enqueueMany =>
    refine ⟨j, .inl ?_⟩
    cases l <;> trivial
  | spawnTask => exact ⟨_, hl⟩
  | _ => simp_all [Call.effects, Label.cascade, Label.waits, Label.timesOut, Label.bookkeeping,
      Label.materializes]

/-- The task is finished, with the reservation that it had in `db` as long as that is active. -/
structure StaysFinished (e : Env) (k : String × String) (id : Uuid) (d : Timestamp) (db : Database)
    (s : Session) : Prop extends Finished k id d s where
  kept : e.now < d → s.db.idempotencyKeys.get? k = db.idempotencyKeys.get? k

theorem StaysFinished.effect {d : Timestamp} (effect : Effect e l s s')
    (h : StaysFinished e k id d db s)
    (hl : ∀ t, l = .retry id → s.db.tasks.get? id = some t → ¬ t.carries k) :
    StaysFinished e k id d db s' ∨ ∃ j t, l = .insert j ∧ s'.db.tasks.get? j = some t ∧
      t.carries k ∧ (e.now < d → db.idempotencyKeys.get? k = none) := by
  rcases h.toFinished.effect effect hl with ⟨h', hkept⟩ | ⟨j, t, hj, row, carries, free⟩
  · exact .inl ⟨h', fun hd => (hkept hd).trans (h.kept hd)⟩
  · refine .inr ⟨j, t, hj, row, carries, fun hd => ?_⟩
    rw [← h.kept hd]
    cases hx : s.db.idempotencyKeys.get? k with
    | none => rfl
    | some x =>
      have hexpired := free x hx
      rw [h.holder x hx, any_some, decide_eq_true_eq] at hexpired
      exact absurd hexpired (Int.not_le.mpr hd)

theorem StaysFinished.other {d : Timestamp} (effect : Effect e l s s')
    (h : StaysFinished e k id d db s) (hinsert : ∀ j, l ≠ .insert j)
    (hl : ∀ t, l = .retry id → s.db.tasks.get? id = some t → ¬ t.carries k) :
    StaysFinished e k id d db s' := by
  rcases h.effect effect hl with h' | ⟨j, -, hj, -⟩
  · exact h'
  · exact absurd hj (hinsert j)

/-- A task gets the key that had none in `db`. -/
def Taken (e : Env) (k : String × String) (d : Timestamp) (db : Database) (s : Session) : Prop :=
  ∃ j t, db.tasks.get? j = none ∧ s.db.tasks.get? j = some t ∧ t.carries k ∧
    (e.now < d → db.idempotencyKeys.get? k = none)

theorem StaysFinished.next {d : Timestamp} {w : World} {r : Request}
    (h : StaysFinished (server.envAt r.now) k id d w.db w.session) :
    StaysFinished (server.envAt r.now) k id d w.db (step server w r).2.session ∨
      (Unfinished (step server w r).2.db k id ∧ ∀ x, w.db.idempotencyKeys.get? k = some ⟨id, x⟩ →
        (step server w r).2.db.idempotencyKeys.get? k = some ⟨id, none⟩) ∨
      Taken (server.envAt r.now) k d w.db (step server w r).2.session := by
  by_cases hretry : r.call.effects (.retry id)
  · obtain ⟨actor, hcall⟩ := effects_no_retry hretry
    rcases step_spec server w r with ⟨reply', s', hexec, hs', -⟩ | ⟨-, -, hw⟩
    · rw [hcall] at hexec
      obtain ⟨a, hadmin, -⟩ := reply_ok hexec
      obtain ⟨path | path, -⟩ := adminRetryTask_spec rfl hadmin
      · cases path
        exact .inl (hs' ▸ h)
      · rw [hs'] at path
        by_cases hrow : ∃ t, w.db.tasks.get? id = some t ∧ t.carries k
        · obtain ⟨t, row, carries⟩ := hrow
          exact .inr (.inl (retry_holds path row carries))
        · obtain ⟨s1, s2, retry, manage, frame⟩ := retry_path path
          have h1 := h.other retry (by simp) fun t _ row carries => hrow ⟨t, row, carries⟩
          have h2 := h1.other manage (by simp) (by simp)
          exact .inl (h2.other frame (by simp) (by simp))
    · rw [hw]
      exact .inl h
  by_cases hinsert : ∃ j, r.call.effects (.insert j)
  · obtain ⟨j, hinsert⟩ := hinsert
    have hstep : (∀ j, (w.db.tasks.get? j).isSome = true →
          ((step server w r).2.session.db.tasks.get? j).isSome = true) ∧
        (StaysFinished (server.envAt r.now) k id d w.db (step server w r).2.session ∨
          Taken (server.envAt r.now) k d w.db (step server w r).2.session) := by
      refine step_keeps (I := fun s => (∀ j, (w.db.tasks.get? j).isSome = true →
          (s.db.tasks.get? j).isSome = true) ∧
        (StaysFinished (server.envAt r.now) k id d w.db s ∨ Taken (server.envAt r.now) k d w.db s))
        ?_ ⟨fun _ h => h, .inl h⟩
      rintro l s s' hl effect ⟨hrows, h⟩
      obtain ⟨parent, hspawns⟩ := effects_insert hinsert hl
      have hstays : ∀ {j : Uuid} {t : Task}, s.db.tasks.get? j = some t →
          ∃ t', s'.db.tasks.get? j = some t' ∧ t'.fixed = t.fixed := by
        intro j t row
        have hrow := effect.row j
        rw [row] at hrow
        rcases hrow.stays with hsome | hl
        · obtain ⟨t', row'⟩ := isSome_iff_exists.mp hsome
          rw [row'] at hrow
          rcases hrow.fixed with ⟨t0, h0, hfixed⟩ | ⟨hnone, -⟩
          · cases h0
            exact ⟨t', row', hfixed⟩
          · cases hnone
        · simp [hl, Label.spawns, Label.freshlySpawns] at hspawns
      refine ⟨fun j hj => ?_, ?_⟩
      · obtain ⟨t, row⟩ := isSome_iff_exists.mp (hrows j hj)
        obtain ⟨t', row', -⟩ := hstays row
        rw [row']
        rfl
      · rcases h with h | ⟨j, t, hnone, row, carries, hfree⟩
        · have hretry' : l ≠ .retry id := by
            rintro rfl
            exact hretry hl
          rcases h.effect effect fun t hl => absurd hl hretry' with
            h' | ⟨j, t, rfl, row, carries, hfree⟩
          · exact .inl h'
          · refine .inr ⟨j, t, ?_, row, carries, hfree⟩
            have hnone : s.db.tasks.get? j = none := by
              cases effect with
              | insert _ free => exact free
            by_contra hsome
            rw [← Ne, Option.ne_none_iff_isSome] at hsome
            have := hrows j hsome
            rw [hnone] at this
            cases this
        · obtain ⟨t', row', hfixed⟩ := hstays row
          exact .inr ⟨j, t', hnone, row', (Task.carries_of_fixed hfixed).mpr carries, hfree⟩
    exact hstep.2.imp_right .inr
  · refine .inl (step_keeps (fun l s s' hl effect h => h.other effect ?_ ?_) h)
    · rintro j rfl
      exact hinsert ⟨j, hl⟩
    · rintro t rfl
      exact absurd hl hretry

theorem Held.next {d : Option Timestamp} {w : World} {r : Request} (names : NamesInv w.db)
    (h : Held w.db k id d) (inside : ∀ x, d = some x → r.now < x) :
    Held (step server w r).2.db k id (windowStep k id w.db (step server w r).2.db d) := by
  by_cases hun : Unfinished w.db k id
  · obtain rfl := h.unfinished.mpr hun
    have hqueue : (w.db.queues.get? k.1).isSome = true := by
      obtain ⟨t, row, carries, -⟩ := hun
      rw [← carries.1]
      exact (names.tasks id t row).2
    have holding : Holding k id w.session := ⟨hun, hqueue, h.held⟩
    rcases @Holding.next _ _ server _ r holding with h' | h'
    · have hun' : Unfinished (step server w r).2.db k id := h'.unfinished
      rw [windowStep, if_pos hun']
      exact ⟨h'.held, fun _ => hun', fun _ => rfl⟩
    · obtain ⟨held, hnot⟩ := h'.windowEnd rfl
      rw [World.session_db] at held hnot
      rw [windowStep, if_neg hnot, if_pos hun]
      exact held
  · obtain ⟨x, rfl⟩ : ∃ x, d = some x := by
      cases d with
      | none => exact absurd (h.unfinished.mp rfl) hun
      | some x => exact ⟨x, rfl⟩
    have hnow := inside x rfl
    have hfinished : StaysFinished (server.envAt r.now) k id x w.db w.session :=
      ⟨⟨fun r hr => some.inj (hr.symm.trans h.held), hun, fun _ _ hmem => by cases hmem⟩,
        fun _ => rfl⟩
    rcases hfinished.next with h' | ⟨hun', hrevived⟩ | ⟨_, _, -, -, -, hnone⟩
    · have hnot : ¬ Unfinished (step server w r).2.db k id := h'.finished
      rw [windowStep, if_neg hnot, if_neg hun]
      exact ⟨(h'.kept hnow).trans h.held, by simp, fun h => absurd h hnot⟩
    · rw [windowStep, if_pos hun']
      exact ⟨hrevived _ h.held, fun _ => hun', fun _ => rfl⟩
    · cases (hnone hnow).symm.trans h.held

/-! ## Runs -/

/-- The end of the window after a run, with the end `d` at its start. -/
def deadline (server : Server) (k : String × String) (id : Uuid) :
    World → Option Timestamp → List Request → Option Timestamp
  | _, d, [] => d
  | w, d, r :: rs =>
    let w' := (step server w r).2
    deadline server k id w' (windowStep k id w.db w'.db d) rs

def InWindow (server : Server) (k : String × String) (id : Uuid) :
    World → Option Timestamp → List Request → Prop
  | _, _, [] => True
  | w, d, r :: rs =>
    let w' := (step server w r).2
    (∀ x, d = some x → r.now < x) ∧ InWindow server k id w' (windowStep k id w.db w'.db d) rs

theorem Held.over {d : Option Timestamp} {before since : List Request}
    (h : Held (run server before).db k id d)
    (inside : InWindow server k id (run server before) d since) :
    Held (run server (before ++ since)).db k id
      (deadline server k id (run server before) d since) := by
  induction since generalizing before d with
  | nil =>
    rw [append_nil]
    exact h
  | cons r since ih =>
    have hnext : Held (step server (run server before) r).2.db k id _ :=
      h.next (run_names server before) inside.1
    rw [← run_concat] at hnext
    have := ih hnext (by rw [run_concat]; exact inside.2)
    rw [append_assoc] at this
    rw [deadline, ← run_concat]
    exact this

def Creates (db db' : Database) (k : String × String) (id : Uuid) : Prop :=
  db.tasks.get? id = none ∧ ∃ t, db'.tasks.get? id = some t ∧ t.carries k

theorem Creates.held {w : World} {r : Request} (h : Creates w.db (step server w r).2.db k id) :
    Held (step server w r).2.db k id none := by
  have hstep : (∀ t, (step server w r).2.session.db.tasks.get? id = some t → ¬ t.carries k) ∨
      r.call.effects (.insert id) ∧ Unfinished (step server w r).2.session.db k id ∧
        (step server w r).2.session.db.idempotencyKeys.get? k = some ⟨id, none⟩ := by
    refine step_keeps (I := fun s => (∀ t, s.db.tasks.get? id = some t → ¬ t.carries k) ∨
      r.call.effects (.insert id) ∧ Unfinished s.db k id ∧
        s.db.idempotencyKeys.get? k = some ⟨id, none⟩) ?_ (.inl fun t row => ?_)
    · rintro l s s' hl effect (hnone | ⟨hcall, ⟨t, row, carries, ho⟩, held⟩)
      · by_cases hcarries : ∀ t, s'.db.tasks.get? id = some t → ¬ t.carries k
        · exact .inl hcarries
        · push Not at hcarries
          obtain ⟨t', row', carries⟩ := hcarries
          have hrow := effect.row id
          rw [row'] at hrow
          rcases hrow.fixed with ⟨t, row, hfixed⟩ | ⟨hfree, label⟩
          · exact absurd ((Task.carries_of_fixed hfixed).mp carries) (hnone t row)
          · have held := effect.new_reservation label row' carries
            rcases label with rfl | rfl
            · cases effect with
              | insert _ _ new =>
                cases (Table.get?_put_self _ _ _).symm.trans row'
                exact .inr ⟨hl, ⟨_, row', carries, by rw [new.state]; rfl⟩, held⟩
            · cases effect with
              | materialize _ _ _ unkeyed =>
                cases (Table.get?_put_self _ _ _).symm.trans row'
                exact absurd carries (Task.not_carries unkeyed)
      · obtain ⟨parent, hspawns⟩ := effects_insert hcall hl
        have hrow := effect.row id
        rw [row] at hrow
        obtain ⟨t', row', hfixed, ho' | ⟨-, -, label⟩⟩ := hrow.goes_on ho
        · exact .inr ⟨hcall, ⟨t', row', (Task.carries_of_fixed hfixed).mpr carries, ho'⟩,
            effect.keeps_reservation row ho held⟩
        · rcases label with rfl | rfl | rfl <;> simp [Label.spawns, Label.freshlySpawns] at hspawns
    · rw [World.session_db, h.1] at row
      cases row
  obtain ⟨t, row, carries⟩ := h.2
  rcases hstep with hnone | ⟨-, hun, held⟩
  · exact absurd carries (hnone t row)
  · exact ⟨held, fun _ => hun, fun _ => rfl⟩

/-- Between the steps of the run the task stays finished, and no task is created with its key. -/
def Unclaimed (server : Server) (k : String × String) (id : Uuid) : World → List Request → Prop
  | _, [] => True
  | w, r :: rs =>
    let w' := (step server w r).2
    ¬ Unfinished w'.db k id ∧ (∀ j, ¬ Creates w.db w'.db k j) ∧ Unclaimed server k id w' rs

theorem Unclaimed.keeps {d : Timestamp} {w : World} {rs : List Request}
    (h : Unclaimed server k id w rs) (hfinished : Finished k id d w.session) :
    Finished k id d (runFrom server w rs).session := by
  induction rs generalizing w with
  | nil => exact hfinished
  | cons r rs ih =>
    obtain ⟨hnot, hnone, h⟩ := h
    refine ih h ?_
    have hstays : StaysFinished (server.envAt r.now) k id d w.db w.session :=
      ⟨hfinished, fun _ => rfl⟩
    rcases hstays.next with h' | ⟨hun, -⟩ | ⟨j, t, hj, row, carries, -⟩
    · exact h'.toFinished
    · exact absurd hun hnot
    · exact absurd ⟨hj, t, row, carries⟩ (hnone j)

/-- A task that was enqueued with a key answers every enqueue with that key inside its window, and
the first one after the window gets a new task. -/
theorem idempotency_window (server : Server) (before since : List Request) (r : Request)
    (k : String × String) (id : Uuid)
    (created : Creates (run server before).db (run server (before ++ [r])).db k id)
    (inside : InWindow server k id (run server (before ++ [r])) none since) :
    let w := run server (before ++ [r] ++ since)
    let d := deadline server k id (run server (before ++ [r])) none since
    (∀ now, (∀ x, d = some x → now < x) →
        (∀ call replies, (step server w ⟨now, call⟩).1 = .returned (.enqueued replies) →
          List.Forall₂ (fun q x => q.asksFor k → x = (id, false)) call.requests replies ∧
            ∀ j, ¬ Creates w.db (step server w ⟨now, call⟩).2.db k j) ∧
        ∀ q row, q.asksFor k → enqueueRow (server.envAt now) q = .ok row →
          (step server w ⟨now, .enqueue q⟩).1 = .returned (.enqueued [(id, false)]) ∧
            (step server w ⟨now, .enqueue q⟩).2.db.tasks = w.db.tasks) ∧
      ∀ x later now call replies, d = some x → Unclaimed server k id w later → x ≤ now →
        (step server (runFrom server w later) ⟨now, call⟩).1 = .returned (.enqueued replies) →
          ∀ qs q qs', call.requests = qs ++ q :: qs' → (∀ q' ∈ qs, ¬ q'.asksFor k) → q.asksFor k →
            ∃ j, replies[qs.length]? = some (j, true) ∧
              Creates (runFrom server w later).db
                (step server (runFrom server w later) ⟨now, call⟩).2.db k j := by
  have start : Held (run server (before ++ [r])).db k id none := by
    rw [run_concat] at created ⊢
    exact created.held
  have held := start.over inside
  refine ⟨fun now hnow => ?_, fun x later now call replies hx hunclaimed hnow hreply qs q qs' hqs
    hfirst hasks => ?_⟩
  · have active : (deadline server k id (run server (before ++ [r])) none since).any
        (· ≤ (server.envAt now).now) = false := by
      rw [Option.any_eq_false]
      intro x hx
      rw [decide_eq_false_iff_not]
      exact Int.not_le.mpr (hnow x hx)
    constructor
    · intro call replies hreply
      obtain ⟨s', hexec, hs'⟩ := step_returned hreply
      obtain ⟨hreplies, hnone⟩ := (exec_enqueued hexec).reserved held.held active
      refine ⟨hreplies, ?_⟩
      rintro j ⟨hj, t, row, carries⟩
      rw [← World.session_db, ← hs'] at row
      cases hj.symm.trans (hnone j t row carries)
    · intro q row hasks hrow
      obtain ⟨s', henqueue, -, htasks⟩ := enqueue_reserved (s := World.session _) hrow hasks
        held.held active
      have hexec : exec (server.envAt now) (.enqueue q) _ = _ :=
        congrArg (Except.map (reply fun x => Reply.enqueued [x])) henqueue
      rw [step_of_exec hexec]
      exact ⟨rfl, htasks⟩
  · have hfinished : Finished k id x (run server (before ++ [r] ++ since)).session := by
      refine ⟨fun y hy => ?_, ?_, fun _ _ hmem => by cases hmem⟩
      · rw [World.session_db, held.held, hx] at hy
        exact (Option.some.inj hy).symm
      · intro hun
        cases (held.unfinished.mpr hun).symm.trans hx
    obtain ⟨s', hexec, hs'⟩ := step_returned hreply
    have hrequests := exec_enqueued hexec
    rw [hqs] at hrequests
    obtain ⟨j, t, hj, hnone, row, carries⟩ := hrequests.free (fun y hy => by
      rw [(hunclaimed.keeps hfinished).holder y hy, any_some]
      exact decide_eq_true hnow) hfirst hasks
    rw [hs'] at row
    exact ⟨j, hj, hnone, t, row, carries⟩

def windowRequest : EnqueueRequest :=
  { taskName := some "a", payload := some .null, idempotencyKey := some "k" }

def windowBefore : List Request := [⟨0, .putQueue "default" ⟨0, 1, none, 300⟩⟩]

def windowSince : List Request :=
  [⟨2, .cancelTask (Uuid.ofNat 1)⟩, ⟨3, .deleteExpiredTerminal "default" 10⟩]

theorem idempotency_window_after_deletion :
    let w := run countingServer (windowBefore ++ [⟨1, .enqueue windowRequest⟩] ++ windowSince)
    w.db.tasks.get? (Uuid.ofNat 1) = none ∧
      (step countingServer w ⟨4, .enqueue windowRequest⟩).1 =
        .returned (.enqueued [(Uuid.ofNat 1, false)]) ∧
      ∃ j, Creates w.db (step countingServer w ⟨seconds 2, .enqueue windowRequest⟩).2.db
        ("default", "k") j := by
  have created : Creates (run countingServer windowBefore).db
      (run countingServer (windowBefore ++ [⟨1, .enqueue windowRequest⟩])).db ("default", "k")
      (Uuid.ofNat 1) := by
    have hrow : ((run countingServer (windowBefore ++ [⟨1, .enqueue windowRequest⟩])).db.tasks.get?
        (Uuid.ofNat 1)).any (fun t => decide (t.carries ("default", "k"))) = true := by decide +kernel
    obtain ⟨t, row, carries⟩ := (Option.any_eq_true _ _).mp hrow
    exact ⟨by decide +kernel, t, row, of_decide_eq_true carries⟩
  have inside : InWindow countingServer ("default", "k") (Uuid.ofNat 1)
      (run countingServer (windowBefore ++ [⟨1, .enqueue windowRequest⟩])) none windowSince := by
    refine ⟨by simp, fun x hx => ?_, trivial⟩
    have hend : windowStep ("default", "k") (Uuid.ofNat 1)
        (run countingServer (windowBefore ++ [⟨1, .enqueue windowRequest⟩])).db
        (run countingServer (windowBefore ++ [⟨1, .enqueue windowRequest⟩] ++
          [⟨2, .cancelTask (Uuid.ofNat 1)⟩])).db none = some 1000002 := by decide +kernel
    rw [run_concat (windowBefore ++ _)] at hend
    cases hend.symm.trans hx
    decide
  have hdeadline : deadline countingServer ("default", "k") (Uuid.ofNat 1)
      (run countingServer (windowBefore ++ [⟨1, .enqueue windowRequest⟩])) none windowSince =
        some 1000002 := by decide +kernel
  have window := idempotency_window countingServer windowBefore windowSince
    ⟨1, .enqueue windowRequest⟩ ("default", "k") (Uuid.ofNat 1) created inside
  refine ⟨by decide +kernel, ?_, ?_⟩
  · have hok : (enqueueRow (countingServer.envAt 4) windowRequest).isOk = true := by decide +kernel
    cases hrow : enqueueRow (countingServer.envAt 4) windowRequest with
    | error x =>
      rw [hrow] at hok
      cases hok
    | ok row =>
      refine ((window.1 4 fun x hx => ?_).2 windowRequest row ⟨rfl, rfl⟩ hrow).1
      cases hdeadline.symm.trans hx
      decide
  · obtain ⟨j, -, hj⟩ := window.2 1000002 [] (seconds 2) (.enqueue windowRequest)
      [(Uuid.ofNat 2, true)] hdeadline trivial (by decide) (by decide +kernel) [] windowRequest [] rfl
      (by simp) ⟨rfl, rfl⟩
    exact ⟨j, hj⟩

end Pgtask
