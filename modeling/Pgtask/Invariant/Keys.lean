import Pgtask.Effect.Task
import Pgtask.Run

/-!
# Reservations

A reservation of a queue and key names the task that holds the key. While that
task is unfinished its reservation has no expiry, so no second task gets the
key, unless an administrator retries a task whose reservation has gone.
-/

open Sql Option Table

namespace Pgtask

variable {e : Env} {l : Label} {s s' : Session} {db db' : Database} {id : Uuid}
  {k : String × String} {server : Server}

/-! ## One reservation -/

def Task.carries (t : Task) (k : String × String) : Prop :=
  t.queueName = k.1 ∧ t.idempotencyKey = some k.2

instance (t : Task) (k : String × String) : Decidable (t.carries k) :=
  inferInstanceAs (Decidable (_ ∧ _))

def Task.expiry (e : Env) (db : Database) (t : Task) : Option Timestamp :=
  (db.queues.get? t.queueName).map fun q =>
    t.completedAt.getD e.now + seconds q.idempotencyRetentionSeconds

/-- What an effect does to the reservation of `k`. -/
inductive KeyStep (e : Env) (db db' : Database) (k : String × String) :
    Label → Option Reservation → Option Reservation → Prop
  | same {l : Label} {r : Option Reservation}
      (quiet : ∀ id t, l = .fireManage id → db.tasks.get? id = some t → t.carries k →
        r.map Reservation.taskId ≠ some id)
      (unreserved : ∀ id t, l = .insert id → db'.tasks.get? id = some t → ¬ t.carries k) :
      KeyStep e db db' k l r r
  | reserve {id : Uuid} {t : Task} {r : Option Reservation} (row : db'.tasks.get? id = some t)
      (carries : t.carries k) (free : ∀ x, r = some x → x.expiresAt.any (· ≤ e.now) = true) :
      KeyStep e db db' k (.insert id) r (some ⟨id, none⟩)
  | finish {id : Uuid} {t : Task} {x : Option Timestamp} (row : db.tasks.get? id = some t)
      (carries : t.carries k) (finished : t.state.terminal = true) :
      KeyStep e db db' k (.fireManage id) (some ⟨id, x⟩) (some ⟨id, t.expiry e db⟩)
  | revive {id : Uuid} {t : Task} {x : Option Timestamp} (row : db.tasks.get? id = some t)
      (carries : t.carries k) (unfinished : t.state.terminal = false) :
      KeyStep e db db' k (.fireManage id) (some ⟨id, x⟩) (some ⟨id, none⟩)
  | keep {id : Uuid} {t : Task} {x y : Option Timestamp} (row : db.tasks.get? id = some t)
      (carries : t.carries k) (finished : t.state.terminal = true) :
      KeyStep e db db' k (.delete id) (some ⟨id, x⟩) (some ⟨id, x.or y⟩)
  | drop {id : Uuid} {x : Timestamp} (expired : x ≤ e.now) :
      KeyStep e db db' k .dropKeys (some ⟨id, some x⟩) none

theorem Task.carries_iff {t : Task} {key : String} (hkey : t.idempotencyKey = some key) :
    t.carries k ↔ k = (t.queueName, key) := by
  unfold Task.carries
  rw [hkey, Option.some.injEq, Prod.ext_iff]
  constructor
  · rintro ⟨h1, h2⟩
    exact ⟨h1.symm, h2.symm⟩
  · rintro ⟨h1, h2⟩
    exact ⟨h1.symm, h2.symm⟩

theorem Task.not_carries {t : Task} (hkey : t.idempotencyKey = none) : ¬ t.carries k := by
  rintro ⟨-, h⟩
  rw [hkey] at h
  cases h

theorem Task.carries_of_fixed {t t' : Task} (h : t'.fixed = t.fixed) : t'.carries k ↔ t.carries k := by
  simp only [Task.fixed, Prod.mk.injEq] at h
  unfold Task.carries
  rw [h.1, h.2.2.2]

theorem manage_key {old new : Task} (row : db.tasks.get? id = some new)
    (crossing : old.state.terminal ≠ new.state.terminal) :
    KeyStep e db db' k (.fireManage id) (db.idempotencyKeys.get? k)
      ((manageIdempotencyKey e id old new db).idempotencyKeys.get? k) := by
  have other : (∀ key, new.idempotencyKey = some key → new.carries k →
      (db.idempotencyKeys.get? k).map Reservation.taskId ≠ some id) →
      KeyStep e db db' k (.fireManage id) (db.idempotencyKeys.get? k)
        (db.idempotencyKeys.get? k) := by
    intro h
    refine .same (fun j t hl ht hc => ?_) (fun j t hl => by cases hl)
    cases hl
    obtain rfl : new = t := some.inj (row.symm.trans ht)
    exact h k.2 hc.2 hc
  unfold manageIdempotencyKey
  split
  · rename_i hkey
    exact other fun key h => by rw [hkey] at h; cases h
  · rename_i key hkey
    unfold manageReservation
    by_cases hk : k = (new.queueName, key)
    · have hc : new.carries k := (Task.carries_iff hkey).mpr hk
      rw [← hk]
      split
      · rename_i hnone
        exact other fun _ _ _ => by simp [hnone]
      · rename_i r hr
        split
        · rename_i hne
          refine other fun _ _ _ => ?_
          rw [hr, map_some]
          exact fun h => hne (some.inj h)
        · rename_i hid
          have hid : r.taskId = id := not_not.mp hid
          obtain ⟨taskId, x⟩ := r
          obtain rfl : taskId = id := hid
          rw [hr]
          cases hnew : new.state.terminal with
          | true =>
            have hold : old.state.terminal = false := by
              rw [hnew] at crossing
              simpa using crossing
            simp only [hold, Bool.not_false, Bool.and_self, if_true, get?_put]
            exact .finish row hc hnew
          | false =>
            have hold : old.state.terminal = true := by
              rw [hnew] at crossing
              simpa using crossing
            simp only [hold, Bool.false_and, Bool.false_eq_true, if_false, Bool.not_false,
              Bool.and_self, if_true, get?_put]
            exact .revive row hc hnew
    · have hc : ¬ new.carries k := fun h => hk ((Task.carries_iff hkey).mp h)
      have hsame := other fun _ _ h => absurd h hc
      repeat' split
      all_goals first | exact hsame | simpa only [get?_put, if_neg hk] using hsame

theorem preserve_key {t : Task} (row : db.tasks.get? id = some t)
    (finished : t.state.terminal = true) {db1 : Database}
    (hkeys : db1.idempotencyKeys = db.idempotencyKeys) :
    KeyStep e db db' k (.delete id) (db.idempotencyKeys.get? k)
      ((preserveDeletedIdempotencyKey e id t db1).idempotencyKeys.get? k) := by
  have hsame : KeyStep e db db' k (.delete id) (db.idempotencyKeys.get? k)
      (db.idempotencyKeys.get? k) := .same (fun _ _ h => by cases h) (fun _ _ h => by cases h)
  unfold preserveDeletedIdempotencyKey
  rw [hkeys]
  split
  · rw [hkeys]
    exact hsame
  · rename_i key hkey
    split
    · rw [hkeys]
      exact hsame
    · rename_i r hr
      split
      · rw [hkeys]
        exact hsame
      · rename_i hid
        have hid : r.taskId = id := not_not.mp hid
        obtain ⟨taskId, x⟩ := r
        obtain rfl : taskId = id := hid
        by_cases hk : k = (t.queueName, key)
        · have hc : t.carries k := (Task.carries_iff hkey).mpr hk
          rw [hk, hr, get?_put_self, ← hk]
          exact .keep row hc finished
        · simpa only [get?_put, if_neg hk, hkeys] using hsame

/-- Every effect does to each reservation one of the things above. -/
theorem Effect.key (effect : Effect e l s s') (k : String × String) :
    KeyStep e s.db s'.db k l (s.db.idempotencyKeys.get? k) (s'.db.idempotencyKeys.get? k) := by
  cases effect with
  | @insert _ id t _ free new _ _ _ key =>
    have hrow : (s.db.tasks.put id t).get? id = some t := get?_put_self _ _ _
    have other : ∀ db' : Database, db'.tasks.get? id = some t → ¬ t.carries k →
        KeyStep e s.db db' k (.insert id) (s.db.idempotencyKeys.get? k)
          (s.db.idempotencyKeys.get? k) := by
      intro db' hrow' hc
      refine .same (fun _ _ h => by cases h) fun j t' hl ht' => ?_
      cases hl
      obtain rfl : t = t' := some.inj (hrow'.symm.trans ht')
      exact hc
    show KeyStep e s.db _ k (.insert id) (s.db.idempotencyKeys.get? k)
      ((reserved id t s.db.idempotencyKeys).get? k)
    unfold reserved
    cases hkey : t.idempotencyKey with
    | none => exact other _ hrow (Task.not_carries hkey)
    | some key' =>
      by_cases hk : k = (t.queueName, key')
      · rw [hk, get?_put_self, ← hk]
        refine .reserve hrow ((Task.carries_iff hkey).mpr hk) fun x hx => ?_
        have hactive := key key' hkey
        unfold activeReservation at hactive
        rw [← hk, hx, filter_eq_none_iff] at hactive
        simpa using hactive x rfl
      · simp only [get?_put, if_neg hk]
        exact other _ hrow fun h => hk ((Task.carries_iff hkey).mp h)
  | fireManage _ row crossing => exact manage_key row crossing
  | delete row finished => exact preserve_key row finished rfl
  | @dropKeys _ gone expired =>
    show KeyStep e s.db _ k .dropKeys (s.db.idempotencyKeys.get? k)
      ((s.db.idempotencyKeys.delete fun k _ => gone.contains k).get? k)
    by_cases hk : gone.contains k = true
    · obtain ⟨⟨taskId, x⟩, hr, hx⟩ := expired k (by simpa using hk)
      obtain ⟨x, rfl, hle⟩ := (Option.any_eq_true _ _).mp hx
      rw [get?_delete, hr]
      simp only [filter_some, hk, Bool.not_true, Bool.false_eq_true, if_false]
      exact .drop (by simpa using hle)
    · rw [get?_delete_of_false fun _ => by simpa using hk]
      exact .same (fun _ _ h => by cases h) (fun _ _ h => by cases h)
  | _ => exact .same (fun _ _ h => by cases h) (fun _ _ h => by cases h)

/-! ## Where a reservation comes from -/

/-- A reservation that names a task has named it before, or the task carries the key. -/
def ReservedFrom (k : String × String) (start : Option Reservation) (s : Session) : Prop :=
  ∀ v, s.db.idempotencyKeys.get? k = some v → start.map Reservation.taskId = some v.taskId ∨
    ∃ t, s.db.tasks.get? v.taskId = some t ∧ t.carries k

theorem effect_keeps_origin {start : Option Reservation} (kept : ∀ id, l ≠ .delete id)
    (effect : Effect e l s s') (h : ReservedFrom k start s) : ReservedFrom k start s' := by
  -- A row that carries the key is still there and still carries it.
  have stays : ∀ id, start.map Reservation.taskId = some id ∨
      (∃ t, s.db.tasks.get? id = some t ∧ t.carries k) → start.map Reservation.taskId = some id ∨
      ∃ t, s'.db.tasks.get? id = some t ∧ t.carries k := by
    intro id
    refine Or.imp_right fun ⟨t, row, carries⟩ => ?_
    have step := effect.row id
    rw [row] at step
    obtain ⟨t', row'⟩ := isSome_iff_exists.mp (step.stays.resolve_right (kept id))
    rw [row'] at step
    refine ⟨t', row', ?_⟩
    rcases step.fixed with ⟨u, hu, hfixed⟩ | ⟨hnone, -⟩
    · cases hu
      exact (Task.carries_of_fixed hfixed).mpr carries
    · cases hnone
  intro v hv
  have key := effect.key k
  rw [hv] at key
  generalize hold : s.db.idempotencyKeys.get? k = old at key
  cases key with
  | same => exact stays _ (h v hold)
  | reserve row carries => exact .inr ⟨_, row, carries⟩
  | finish | revive | keep => exact stays _ (h _ hold :)

theorem deletion_keeps_origin {start : Option Reservation} (deletes : ∃ id, l = .delete id)
    (effect : Effect e l s s') (h : ∀ v, s.db.idempotencyKeys.get? k = some v →
      start.map Reservation.taskId = some v.taskId) :
    ∀ v, s'.db.idempotencyKeys.get? k = some v → start.map Reservation.taskId = some v.taskId := by
  obtain ⟨id, rfl⟩ := deletes
  intro v hv
  have key := effect.key k
  rw [hv] at key
  generalize hold : s.db.idempotencyKeys.get? k = old at key
  cases key with
  | same => exact h v hold
  | keep => exact (h _ hold :)

theorem reservation_created (server : Server) (rs : List Request) (k : String × String)
    (v : Reservation) (hv : (run server rs).db.idempotencyKeys.get? k = some v) :
    ∃ before after t, rs = before ++ after ∧
      (run server before).db.tasks.get? v.taskId = some t ∧ t.carries k := by
  induction rs using List.reverseRecOn generalizing v with
  | nil => cases hv
  | append_singleton rs r ih =>
    have earlier : ∀ u, (run server rs).db.idempotencyKeys.get? k = some u → u.taskId = v.taskId →
        ∃ before after t, rs ++ [r] = before ++ after ∧
          (run server before).db.tasks.get? v.taskId = some t ∧ t.carries k := by
      intro u hu same
      obtain ⟨before, after, t, rfl, row, carries⟩ := ih u hu
      exact ⟨before, after ++ [r], t, by simp, same ▸ row, carries⟩
    rw [run_concat] at hv
    rcases step_spec server (run server rs) r with ⟨-, -, -, -, -, ls, path, hls⟩ | ⟨-, -, hw⟩
    swap
    · rw [hw] at hv
      exact earlier v hv rfl
    by_cases hdelete : ∃ id, .delete id ∈ ls
    · obtain ⟨id, hid⟩ := hdelete
      obtain ⟨queueName, n, hcall⟩ := effects_no_delete (hls _ hid)
      have names := path.keeps (P := fun s => ∀ u, s.db.idempotencyKeys.get? k = some u →
        ((run server rs).db.idempotencyKeys.get? k).map Reservation.taskId = some u.taskId)
        (fun l s s' => deletion_keeps_origin) (fun l hl =>
          show (Call.deleteExpiredTerminal queueName n).effects l from hcall ▸ hls l hl)
        (fun u hu => congrArg (Option.map Reservation.taskId) hu)
      obtain ⟨u, hu, same⟩ := map_eq_some_iff.mp (names v hv)
      exact earlier u hu same
    · have names := path.keeps (P := ReservedFrom k ((run server rs).db.idempotencyKeys.get? k))
        (fun l s s' => effect_keeps_origin) (fun l hl id heq => hdelete ⟨id, heq ▸ hl⟩)
        (fun u hu => .inl (congrArg (Option.map Reservation.taskId) hu))
      rcases names v hv with same | ⟨t, row, carries⟩
      · obtain ⟨u, hu, same⟩ := map_eq_some_iff.mp same
        exact earlier u hu same
      · refine ⟨rs ++ [r], [], t, by simp, ?_, carries⟩
        rw [run_concat]
        exact row

/-! ## Unfinished tasks hold their keys -/

/-- Every unfinished task holds the reservation of its key, and that has no expiry. -/
def KeysInv (db : Database) : Prop :=
  ∀ id t k, db.tasks.get? id = some t → t.state.outstanding = true → t.carries k →
    db.idempotencyKeys.get? k = some ⟨id, none⟩

theorem not_outstanding {t : Task} (ho : t.state.outstanding = true) : t.state.terminal = false := by
  simpa [TaskState.outstanding] using ho

theorem Effect.keeps_reservation {t : Task} (effect : Effect e l s s')
    (row : s.db.tasks.get? id = some t) (ho : t.state.outstanding = true)
    (held : s.db.idempotencyKeys.get? k = some ⟨id, none⟩) :
    s'.db.idempotencyKeys.get? k = some ⟨id, none⟩ := by
  have step := effect.key k
  rw [held] at step
  have unfinished : ∀ {t' : Task}, s.db.tasks.get? id = some t' → t'.state.terminal = true → False := by
    intro t' row' finished
    obtain rfl : t = t' := some.inj (row.symm.trans row')
    rw [not_outstanding ho] at finished
    cases finished
  generalize s'.db.idempotencyKeys.get? k = after at step
  cases step with
  | same => rfl
  | reserve _ _ free => cases free _ rfl
  | finish row' _ finished => exact (unfinished row' finished).elim
  | revive => rfl
  | keep row' _ finished => exact (unfinished row' finished).elim

theorem Effect.new_reservation {t : Task} (effect : Effect e l s s')
    (label : l = .insert id ∨ l = .materialize id) (row : s'.db.tasks.get? id = some t)
    (carries : t.carries k) : s'.db.idempotencyKeys.get? k = some ⟨id, none⟩ := by
  rcases label with rfl | rfl
  · have step := effect.key k
    generalize s.db.idempotencyKeys.get? k = before, hafter : s'.db.idempotencyKeys.get? k = after
      at step
    cases step with
    | same _ unreserved => exact absurd carries (unreserved id t rfl row)
    | reserve => rfl
  · cases effect with
    | materialize _ _ _ unkeyed =>
      rw [get?_put_self] at row
      cases row
      exact absurd carries (Task.not_carries unkeyed)

theorem effect_keeps_keys (effect : Effect e l s s') (hl : ∀ id, l ≠ .retry id)
    (h : KeysInv s.db) : KeysInv s'.db := by
  intro id t' k row' ho carries
  have step := effect.row id
  rw [row'] at step
  rcases step.unfinished ho (hl id) with ⟨t, row, ht, hfixed⟩ | ⟨-, label⟩
  · exact effect.keeps_reservation row ht (h id t k row ht ((Task.carries_of_fixed hfixed).mp carries))
  · exact effect.new_reservation label row' carries

/-! ## Retries -/

def Call.revives (db : Database) : Call → Option (Uuid × Task)
  | .adminRetryTask id _ =>
    ((db.tasks.get? id).filter fun t => t.state = .failed || t.state = .cancelled).map fun t => (id, t)
  | _ => none

/-- The call revives no task whose reservation is gone or names another task. -/
def RevivesHolder (db : Database) (c : Call) : Prop :=
  ∀ id t k, c.revives db = some (id, t) → t.carries k →
    (db.idempotencyKeys.get? k).map Reservation.taskId = some id

theorem retry_path (path : Effects e [.retry id, .fireManage id, .frame] s s') :
    ∃ s1 s2, Effect e (.retry id) s s1 ∧ Effect e (.fireManage id) s1 s2 ∧ Effect e .frame s2 s' := by
  cases path with
  | cons retry path => cases path with
    | cons manage path => cases path with
      | cons frame path =>
        cases path
        exact ⟨_, _, retry, manage, frame⟩

theorem Effect.revives {t : Task} (manage : Effect e (.fireManage id) s s')
    (row : s.db.tasks.get? id = some t) (ho : t.state.outstanding = true) (carries : t.carries k)
    (names : (s.db.idempotencyKeys.get? k).map Reservation.taskId = some id) :
    s'.db.idempotencyKeys.get? k = some ⟨id, none⟩ := by
  have key := manage.key k
  generalize s.db.idempotencyKeys.get? k = before, hafter : s'.db.idempotencyKeys.get? k = after
    at key names
  cases key with
  | same quiet => exact absurd names (quiet id t rfl row carries)
  | finish row' _ finished =>
    obtain rfl : t = _ := some.inj (row.symm.trans row')
    rw [not_outstanding ho] at finished
    cases finished
  | revive => rfl

theorem retry_keeps_keys (path : Effects e [.retry id, .fireManage id, .frame] s s')
    (holder : ∀ t k, s.db.tasks.get? id = some t → (t.state = .failed ∨ t.state = .cancelled) →
      t.carries k → (s.db.idempotencyKeys.get? k).map Reservation.taskId = some id)
    (h : KeysInv s.db) : KeysInv s'.db := by
  obtain ⟨s1, s2, retry, manage, frame⟩ := retry_path path
  have hfirst : ∀ j t k, s1.db.tasks.get? j = some t → t.state.outstanding = true → t.carries k →
      if j = id then (s1.db.idempotencyKeys.get? k).map Reservation.taskId = some id
      else s1.db.idempotencyKeys.get? k = some ⟨j, none⟩ := by
    intro j t k row ho carries
    cases retry with
    | @retry _ _ t0 row0 ended =>
      split
      · rename_i hj
        subst hj
        obtain rfl := some.inj ((get?_put_self _ _ _).symm.trans row)
        exact holder t0 k row0 ended carries
      · rename_i hj
        refine h j t k ?_ ho carries
        exact (get?_put_of_ne _ _ hj).symm.trans row
  refine effect_keeps_keys frame (by simp) fun j t k row ho carries => ?_
  have step := manage.row j
  rw [row] at step
  obtain ⟨t1, row1, ho1, hfixed⟩ : ∃ t1, s1.db.tasks.get? j = some t1 ∧
      t1.state.outstanding = true ∧ t.fixed = t1.fixed := by
    rcases step.unfinished ho (by simp) with h | ⟨-, h | h⟩
    · exact h
    · cases h
    · cases h
  have carries1 := (Task.carries_of_fixed hfixed).mp carries
  have hj := hfirst j t1 k row1 ho1 carries1
  split at hj
  · rename_i hid
    subst hid
    exact manage.revives row1 ho1 carries1 hj
  · exact manage.keeps_reservation row1 ho1 hj

theorem step_keeps_keys {w : World} {r : Request} (ok : RevivesHolder w.db r.call)
    (h : KeysInv w.db) : KeysInv (step server w r).2.db := by
  rcases step_spec server w r with ⟨reply', s', hexec, hs', -, ls, path, hls⟩ | ⟨-, -, hw⟩
  · by_cases hretry : ∃ id, r.call.effects (.retry id)
    · obtain ⟨id, hretry⟩ := hretry
      obtain ⟨actor, hcall⟩ := effects_no_retry hretry
      rw [hcall] at hexec ok
      obtain ⟨a, hadmin, -⟩ := reply_ok hexec
      rw [← World.session_db, ← hs']
      obtain ⟨path | path, -⟩ := adminRetryTask_spec rfl hadmin
      · cases path
        exact h
      · refine retry_keeps_keys path (fun t k row ended carries => ok id t k ?_ carries) h
        have row : w.db.tasks.get? id = some t := row
        rw [Call.revives, row, filter_some, if_pos (by simpa using ended)]
        rfl
    · refine path.keeps (P := fun s => KeysInv s.db) (fun l s s' hl effect => ?_) hls h
      refine effect_keeps_keys effect fun id hid => hretry ⟨id, ?_⟩
      rwa [← hid]
  · rw [hw]
    exact h

/-- In a run that revives only tasks that still hold the reservation of their key, at most one
unfinished task of a queue carries a key. -/
theorem one_unfinished_task_per_key (server : Server) (rs : List Request)
    (holders : EveryStep server (fun w r => RevivesHolder w.db r.call) rs)
    (queueName key : String) : ((run server rs).db.tasks.count fun _ t => t.queueName = queueName &&
      t.idempotencyKey = some key && t.state.outstanding) ≤ 1 := by
  have inv : KeysInv (run server rs).db := by
    refine run_rule_of (I := fun w => KeysInv w.db) ?_ (fun rs r ok h => step_keeps_keys ok h) rs
      holders
    intro id t k row
    cases row
  refine count_le_one fun id id' t t' row ht row' ht' => ?_
  simp only [Bool.and_eq_true, decide_eq_true_eq] at ht ht'
  have held := inv id t (queueName, key) row ht.2 ht.1
  have held' := inv id' t' (queueName, key) row' ht'.2 ht'.1
  rw [held] at held'
  cases held'
  rfl

def keyRun : List Request :=
  let request : EnqueueRequest :=
    { taskName := some "a", payload := some .null, idempotencyKey := some "k" }
  [⟨0, .putQueue "default" ⟨604800, 0, none, 300⟩⟩,
   ⟨1, .enqueue request⟩,
   ⟨2, .cancelTask (Uuid.ofNat 1)⟩,
   ⟨3, .enqueue request⟩]

theorem keyRun_holds_one : EveryStep countingServer (fun w r => RevivesHolder w.db r.call) keyRun ∧
      ((run countingServer keyRun).db.tasks.count fun _ t => t.queueName = "default" &&
        t.idempotencyKey = some "k" && t.state.outstanding) ≤ 1 := by
  have holders : EveryStep countingServer (fun w r => RevivesHolder w.db r.call) keyRun := by
    have hfin : ∀ i : Fin keyRun.length, (keyRun.get i).call.revives
        (run countingServer (keyRun.take i)).db = none := by decide +kernel
    refine everyStep_of_fin fun i id t k h => ?_
    rw [hfin i] at h
    cases h
  exact ⟨holders, one_unfinished_task_per_key countingServer keyRun holders "default" "k"⟩

theorem revived_task_shares_key :
    let db := (run countingServer (keyRun ++ [⟨4, .adminRetryTask (Uuid.ofNat 1) (some "admin")⟩])).db
    (db.tasks.count fun _ t => t.queueName = "default" && t.idempotencyKey = some "k" &&
      t.state.outstanding) = 2 := by
  decide +kernel

end Pgtask
