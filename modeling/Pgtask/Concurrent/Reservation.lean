import Pgtask.Concurrent.Footprint
import Pgtask.Invariant.Window

/-!
# Reservations between statements

`enqueue` with an idempotency key locks the reservation in its first statement,
whether it takes it over or not, and reads it again in a second one. Whoever
changes or deletes the reservation needs that lock too.
-/

open Sql ReadCommitted List Option Promise

namespace Pgtask.Concurrent

variable {A : Promise.Assn Database RowId Row} {p : Promise Database RowId Row} {locks : RowId → Prop}
  {a : KeyReply}

/-! ## Programs -/

def hasPlace (q : Queue) : Bool := q.maxOutstandingTasks.any (q.capacityOutstandingTasks < ·)

/-- The UPDATE of `enforce_queue_capacity` for a new task, and if it found a row. -/
def takePlace (queueName : String) : Tx Bool := do
  let db ← Prog.snapshot
  if (db.queues.get? queueName).any hasPlace then do
    let row ← lockQueue queueName .noKeyUpdate
    match row.filter hasPlace with
    | some q => do
      Prog.put (.queue queueName)
        { q with capacityOutstandingTasks := q.capacityOutstandingTasks + 1 }
      pure true
    | none => pure false
  else pure false

def enforceRoom (queueName : String) : Tx Unit := do
  let taken ← takePlace queueName
  if taken then pure ()
  else do
    let db ← Prog.snapshot
    if ((db.queues.get? queueName).bind Queue.maxOutstandingTasks).isSome then .raise else pure ()

def insertTask (id : Uuid) (new : Task) : Tx Unit := do
  enforceRoom new.queueName
  let db ← Prog.snapshot
  let new := snapshotTaskRetryPolicy db new
  ofResult (require (new.checks id))
  let inserted ← Prog.insertRow (.task id) new
  if inserted then queueForeignKey new.queueName else .raise

def expiredAt (now : Timestamp) (v : Reservation) : Bool := v.expiresAt.any (· ≤ now)

inductive KeyReply
  | enqueued (taskId : Option Uuid) (created : Bool)
  | other (reply : Reply)
  deriving DecidableEq

def enqueue (e : Env) (r : EnqueueRequest) : Tx KeyReply := do
  let candidateId := e.uuid 0
  let row ← ofResult (enqueueRow e r)
  addQueue row.queueName
  match r.idempotencyKey with
  | none => do
    insertTask candidateId row
    pure (.enqueued (some candidateId) true)
  | some key => do
    let reserved ← lockReservation row.queueName key .noKeyUpdate
    if reserved.all (expiredAt e.now) then do
      Prog.put (.reservation row.queueName key) ({ taskId := candidateId } : Reservation)
      queueForeignKey row.queueName
      insertTask candidateId row
      pure (.enqueued (some candidateId) true)
    else do
      let db ← Prog.snapshot
      pure (.enqueued ((db.idempotencyKeys.get? (row.queueName, key)).map Reservation.taskId) false)

/-- `FOR UPDATE SKIP LOCKED LIMIT n`. A row is deleted by its tuple id, which names it only in
the version that the statement's snapshot has. -/
def lockKeys (e : Env) : Nat → List ((String × String) × Reservation) → Tx (List (String × String))
  | 0, _ | _, [] => pure []
  | n + 1, (k, v) :: rest => do
    let row ← Prog.tryLockRow (RowId.reservation k.1 k.2) .update
    match (row.join : Option Reservation).filter (expiredAt e.now) with
    | some newest => do
      let more ← lockKeys e n rest
      pure (if newest = v then k :: more else more)
    | none => lockKeys e (n + 1) rest

def deleteExpiredIdempotencyKeys (e : Env) (queueName : String) (count : Int) : Tx KeyReply := do
  let n ← ofResult (limit count)
  let db ← Prog.snapshot
  let found := (db.idempotencyKeys.select fun k v => k.1 = queueName && expiredAt e.now v
    ).insertionSort fun x y => byKeyExpiry x y
  let gone ← lockKeys e n found
  Prog.forEach (fun k => Prog.remove (.reservation k.1 k.2)) gone
  pure (.other (.count gone.length))

inductive KeyCall
  | enqueue (request : EnqueueRequest)
  | deleteExpiredIdempotencyKeys (queueName : String) (limit : Int)
  | operation (op : Operation)

def KeyCall.program (e : Env) (depth : Nat) : KeyCall → Tx KeyReply
  | .enqueue r => Concurrent.enqueue e r
  | .deleteExpiredIdempotencyKeys queueName limit =>
    Concurrent.deleteExpiredIdempotencyKeys e queueName limit
  | .operation op => do
    let reply ← op.program e depth
    pure (.other reply)

/-! ## No wait is missed -/

variable {held : Locks} {ws : Writes RowId Row} {db : Database} {e : Env} {depth : Nat}

theorem Robust.frame (hA : Robust A) : promise.Frame (fun r => r.neutral = true) A where
  stable := hA.stable
  lock _ h := hA.lock h
  write h hw hr := hA.write h hw hr

theorem takePlace_wp {quiet : RowId → Prop} (hA : p.Frame quiet A) {queueName : String}
    (hq : quiet (.queue queueName)) (h : A held ws db) :
    p.wp (fun _ => A) (takePlace queueName) held ws db := by
  refine wp_snapshot hA.stable h fun db' _ h' => ?_
  split
  swap
  · exact h'
  refine wp_lockRow hA.stable h' fun db'' h'' => ?_
  split
  · exact hA.write (hA.lock _ h'') ⟨_, mem_cons_self, rfl⟩ hq
  · exact hA.lock _ h''

theorem enforceRoom_wp {quiet : RowId → Prop} (hA : p.Frame quiet A) {queueName : String}
    (hq : quiet (.queue queueName)) (h : A held ws db) :
    p.wp (fun _ => A) (enforceRoom queueName) held ws db := by
  refine wp_then (takePlace_wp hA hq h) fun taken held ws db h => ?_
  cases taken with
  | true => exact h
  | false =>
    refine wp_snapshot hA.stable h fun db' _ h' => ?_
    split
    · trivial
    · exact h'

theorem Owing.newTask {σ : StepKey → SignalKey → Prop} {τ : StepKey → Uuid → Prop} {id : Uuid}
    {new : Task} (h : Owing σ τ held ws db) (hw : Writable held (.task id))
    (row : (view ws db).tasks.get? id = none) (idle : new.state ≠ .waiting ∧ new.state ≠ .running) :
    Owing σ τ held (ws ++ [⟨.task id, some new⟩]) db := by
  have get : ∀ j, (view (ws ++ [⟨RowId.task id, some new⟩]) db).tasks.get? j =
      if j = id then some new else (view ws db).tasks.get? j := fun j => by
    rw [view_concat]
    exact Table.get?_set _ id j (some new)
  refine ⟨h.1.write hw fun t' ht' => ?_, fun j w' hj => ?_, fun j w t' hj ht hwait hf => ?_,
    fun j w' t' hj ht' => ?_⟩
  · cases ht'
    exact ⟨fun h' => absurd h' idle.1, fun h' => absurd h' idle.2⟩
  · rw [view_concat] at hj ⊢
    exact h.2.signals j w' hj
  · rw [get] at ht
    split at ht
    · cases ht
      exact absurd hwait idle.1
    · rw [view_concat] at hj
      refine h.2.results j w t' hj ht hwait ?_
      rintro ⟨c, hc, ho⟩
      refine hf ⟨c, ?_, ho⟩
      rw [get, if_neg, hc]
      rintro rfl
      cases row.symm.trans hc
  · rw [get] at ht'
    split at ht'
    · cases ht'
      exact idle.2
    · rw [view_concat] at hj
      exact h.2.parked j w' t' hj ht'

theorem snapshotTaskRetryPolicy_state (db : Database) (t : Task) :
    (snapshotTaskRetryPolicy db t).state = t.state := by
  unfold snapshotTaskRetryPolicy
  split <;> rfl

theorem insertTask_wp {σ : StepKey → SignalKey → Prop} {τ : StepKey → Uuid → Prop} {id : Uuid}
    {new : Task} (pending : new.state = .pending) (h : Owing σ τ held ws db) :
    promise.wp (fun _ => Owing σ τ) (insertTask id new) held ws db := by
  have frame := owing_robust (σ := σ) (τ := τ) |>.frame
  refine wp_then (enforceRoom_wp frame rfl h) fun _ held ws db h => ?_
  refine wp_snapshot frame.stable h fun db' _ h => ?_
  refine wp_ofResult fun _ _ => ?_
  refine wp_insertRow frame.stable h fun db'' h => ⟨fun _ => trivial, fun absent => ?_⟩
  refine queueForeignKey_wp frame ((owing_robust.lock h).newTask ⟨_, mem_cons_self, rfl⟩ absent ?_)
  rw [snapshotTaskRetryPolicy_state, pending]
  exact ⟨nofun, nofun⟩

theorem enqueue_wp (r : EnqueueRequest) (h : Clear held ws db) :
    promise.wp (fun _ => Clear) (enqueue e r) held ws db := by
  have frame := owing_robust (σ := nothing) (τ := nothing) |>.frame
  refine wp_ofResult fun row hrow => ?_
  have pending : row.state = .pending := (enqueueRow_spec hrow).1.state
  refine wp_then (addQueue_wp frame rfl h) fun _ held ws db h => ?_
  cases r.idempotencyKey with
  | none => exact wp_then (insertTask_wp pending h) fun _ _ _ _ h => h
  | some key =>
    refine wp_lockRow frame.stable h fun db' h => ?_
    split
    · refine wp_put ?_
      refine wp_then (queueForeignKey_wp frame (frame.write (frame.lock _ h)
        ⟨_, mem_cons_self, rfl⟩ rfl)) fun _ held ws db h => ?_
      exact wp_then (insertTask_wp pending h) fun _ _ _ _ h => h
    · exact wp_snapshot frame.stable (frame.lock _ h) fun _ _ h => h

theorem lockKeys_wp {quiet : RowId → Prop} (hA : p.Frame quiet A) (n : Nat)
    (found : List ((String × String) × Reservation)) (h : A held ws db) :
    p.wp (fun gone held ws db => A held ws db ∧ ∀ k ∈ gone, Writable held (.reservation k.1 k.2))
      (lockKeys e n found) held ws db := by
  induction found generalizing n A held ws db with
  | nil => cases n <;> exact ⟨h, nofun⟩
  | cons x rest ih =>
    cases n with
    | zero => exact ⟨h, nofun⟩
    | succ n =>
      refine wp_tryLockRow hA.stable h fun db' h' => ⟨ih hA _ h', ?_⟩
      split
      swap
      · exact ih hA _ (hA.lock _ h')
      have framed := hA.writable (.reservation x.1.1 x.1.2)
      refine wp_then (ih framed n ⟨hA.lock _ h', _, mem_cons_self, rfl⟩)
        fun gone held ws db h => ?_
      obtain ⟨⟨hA', locked⟩, hgone⟩ := h
      refine ⟨hA', fun k hk => ?_⟩
      split at hk
      · rcases mem_cons.mp hk with rfl | hk
        · exact locked
        · exact hgone k hk
      · exact hgone k hk

theorem deleteExpiredIdempotencyKeys_wp (queueName : String) (count : Int) (h : Clear held ws db) :
    promise.wp (fun _ => Clear) (deleteExpiredIdempotencyKeys e queueName count) held ws db := by
  have frame := owing_robust (σ := nothing) (τ := nothing) |>.frame
  refine wp_ofResult fun n _ => ?_
  refine wp_snapshot frame.stable h fun db' _ h => ?_
  refine wp_then (lockKeys_wp frame n _ h) fun gone held ws db h => ?_
  refine wp_then (wp_forEach (I := fun rest held ws db => Clear held ws db ∧
    ∀ k ∈ rest, Writable held (.reservation k.1 k.2)) (fun k rest held ws db h => ?_) h)
    fun _ _ _ _ h => h.1
  exact ⟨frame.write h.1 (h.2 k mem_cons_self) rfl,
    fun j hj => h.2 j (mem_cons_of_mem _ hj)⟩

theorem KeyCall.program_wp (call : KeyCall) (h : Clear held ws db) :
    promise.wp (fun _ => Clear) (call.program e depth) held ws db := by
  cases call with
  | enqueue r => exact enqueue_wp r h
  | deleteExpiredIdempotencyKeys queueName limit =>
    exact deleteExpiredIdempotencyKeys_wp queueName limit h
  | operation op => exact wp_then (Concurrent.program_wp op h) fun _ _ _ _ h => h

/-! ## What a call does to one reservation -/

def sameTask (old new : Option Reservation) : Prop :=
  old.map Reservation.taskId = new.map Reservation.taskId

/-- What became of the reservation of `k` when the call committed with this answer. -/
def Transition (e : Env) (k : String × String) :
    KeyCall → KeyReply → Option Reservation → Option Reservation → Prop
  | .enqueue r, .enqueued id created, old, new =>
    r.queueName ≠ none ∧
      (¬ r.asksFor k → new = old ∧ (r.idempotencyKey = none → id ≠ none)) ∧
      (r.asksFor k → created = true →
        old.all (expiredAt e.now) = true ∧ ∃ i, id = some i ∧ new = some ⟨i, none⟩) ∧
      (r.asksFor k → created = false →
        new = old ∧ ∃ v, old = some v ∧ expiredAt e.now v = false ∧ id = some v.taskId)
  | .enqueue _, .other _, _, _ => False
  | .deleteExpiredIdempotencyKeys .., _, old, new =>
    new = old ∨ new = none ∧ ∃ v, old = some v ∧ expiredAt e.now v = true
  | .operation _, _, old, new => sameTask old new

abbrev KeyChange (k : String × String) (T : Option Reservation → Option Reservation → Prop) :
    Promise.Assn Database RowId Row :=
  Promise.RowChange (RowId.reservation k.1 k.2) T

variable {k : String × String} {id : Uuid}

theorem allows_except (k : String × String) :
    Allows (fun _ => True) fun s _ => s ≠ .reservation k.1 k.2 where
  lock _ _ := trivial
  row _ _ _ other := other k.1 k.2
  stop _ _ _ := nofun

theorem manageIdempotencyKey_change {old new : Task} (h : KeyChange k sameTask held ws db) :
    promise.wp (fun _ => KeyChange k sameTask) (manageIdempotencyKey e id old new) held ws db := by
  obtain ⟨queueName, key'⟩ := k
  unfold manageIdempotencyKey
  split
  · exact h
  rename_i key _
  refine wp_snapshot Promise.rowChange_stable h fun db' _ h => ?_
  split
  swap
  · exact h
  refine wp_lockRow Promise.rowChange_stable h fun db'' h => ?_
  split
  swap
  · exact h.lock _
  rename_i r hr
  split
  swap
  · exact h.lock _
  rename_i same
  by_cases hk : RowId.reservation new.queueName key = .reservation queueName key'
  · cases hk
    refine .write ⟨_, mem_cons_self, rfl⟩ ?_
    have before : sameTask _ (some r) := hr ▸ h.row
    exact before.trans (congrArg some same)
  · exact (h.lock _).write_other hk

theorem keyChange_composed (k : String × String) :
    Composed (fun _ => True) (fun s _ => s ≠ .reservation k.1 k.2) fun _ prog => ∀ held ws db,
      KeyChange k sameTask held ws db →
        promise.wp (fun _ => KeyChange k sameTask) prog held ws db where
  all untouched _ _ _ := wp_untouched untouched
  bind first next held ws db h := wp_then (first held ws db h) fun a => next a
  manage _ _ _ _ _ _ _ := manageIdempotencyKey_change

theorem program_change (op : Operation) (h : KeyChange k sameTask held ws db) :
    promise.wp (fun _ => KeyChange k sameTask) (op.program e depth) held ws db :=
  program_ok (allows_except k) (keyChange_composed k) op held ws db h

/-! ### Enqueue -/

theorem queueForeignKey_all {writes : (r : RowId) → Option (Row r) → Prop}
    (allows : Allows locks writes) (name : String) : (queueForeignKey name).All locks writes := by
  refine .bind (Prog.all_lockRow.mpr (allows.lock _ nofun)) fun row => ?_
  cases row <;> trivial

theorem addQueue_all {writes : (r : RowId) → Option (Row r) → Prop}
    (allows : Allows locks writes) (name : String) : (addQueue name).All locks writes := by
  refine ofResult_all fun _ _ => ?_
  refine .bind (Prog.all_insertRow.mpr ⟨allows.lock _ nofun, allows.row _ _ nofun nofun⟩) fun _ => ?_
  trivial

theorem insertTask_all {writes : (r : RowId) → Option (Row r) → Prop}
    (allows : Allows locks writes) {new : Task} (pending : new.state = .pending) :
    (insertTask id new).All locks writes := by
  refine .bind (.bind (.bind Prog.all_snapshot fun db => ?_) fun taken => ?_) fun _ => ?_
  · split
    swap
    · trivial
    refine .bind (Prog.all_lockRow.mpr (allows.lock _ nofun)) fun row => ?_
    split
    · exact .bind (Prog.all_put.mpr (allows.row _ _ nofun nofun)) fun _ => trivial
    · trivial
  · cases taken with
    | true => trivial
    | false =>
      refine .bind Prog.all_snapshot fun db => ?_
      split <;> trivial
  refine .bind Prog.all_snapshot fun db => ?_
  refine ofResult_all fun _ _ => ?_
  refine .bind (Prog.all_insertRow.mpr ⟨allows.lock _ nofun, allows.stop _ _ ?_⟩) fun inserted => ?_
  · rw [snapshotTaskRetryPolicy_state, pending]
    nofun
  · cases inserted with
    | true => exact queueForeignKey_all allows _
    | false => trivial

theorem enqueue_change (k : String × String) (r : EnqueueRequest) (db : Database) :
    promise.wp (fun reply => KeyChange k (Transition e k (.enqueue r) reply)) (enqueue e r) [] []
      db := by
  have allows := allows_except k
  have start : KeyChange k (fun old new => new = old) [] [] db := .inl ⟨nofun, fun _ => rfl⟩
  refine wp_ofResult fun row hrow => ?_
  obtain ⟨new, -, -, hkey, hqueue, -⟩ := enqueueRow_spec hrow
  refine wp_then (wp_untouched (addQueue_all allows row.queueName) start)
    fun _ held ws db h => ?_
  cases hr : r.idempotencyKey with
  | none =>
    have other : ¬ r.asksFor k := fun h => absurd (hr.symm.trans h.2) nofun
    refine wp_then (wp_untouched (insertTask_all allows new.state) h)
      fun _ _ _ _ h => ?_
    exact h.mono fun old new same => ⟨hqueue ▸ nofun, fun _ => ⟨same, fun _ => nofun⟩,
      fun h => absurd h other, fun h => absurd h other⟩
  | some key =>
    by_cases hk : (row.queueName, key) = k
    · subst hk
      have asks : r.asksFor (row.queueName, key) := ⟨hqueue, hr⟩
      refine wp_lockRow Promise.rowChange_stable h fun db' h => ?_
      have seen := h.row
      have hw : Writable ((RowId.reservation row.queueName key, .noKeyUpdate) :: held)
        (.reservation row.queueName key) := ⟨_, mem_cons_self, rfl⟩
      split
      · rename_i expired
        refine wp_put ?_
        have took : KeyChange (row.queueName, key) (fun old new => old.all (expiredAt e.now) = true ∧
            new = some ⟨e.uuid 0, none⟩) _ (ws ++ [⟨RowId.reservation row.queueName key, _⟩]) db' :=
          .write hw ⟨seen ▸ expired, rfl⟩
        refine wp_then (wp_untouched (queueForeignKey_all allows _) took)
          fun _ _ _ _ h => ?_
        refine wp_then (wp_untouched (insertTask_all allows new.state) h)
          fun _ _ _ _ h => ?_
        exact h.mono fun old new ⟨hold, hnew⟩ => ⟨hqueue ▸ nofun, fun h => absurd asks h,
          fun _ _ => ⟨hold, _, rfl, hnew⟩, nofun⟩
      · rename_i active
        obtain ⟨v, hv, unexpired⟩ : ∃ v, Store.get (view ws db') (.reservation row.queueName key) =
            some v ∧ expiredAt e.now v = false := by
          generalize Store.get (view ws db') (.reservation row.queueName key) = found at active
          cases found with
          | none => exact absurd rfl active
          | some v => exact ⟨v, rfl, by simpa using active⟩
        have kept : KeyChange (row.queueName, key) (fun old new => new = old ∧ old = some v)
            ((RowId.reservation row.queueName key, .noKeyUpdate) :: held) ws db' :=
          .inr ⟨hw, seen, seen.symm.trans hv⟩
        refine wp_snapshot Promise.rowChange_stable kept fun db'' _ h => ?_
        have read : (view ws db'').idempotencyKeys.get? (row.queueName, key) = some v :=
          h.row.1.trans h.row.2
        change KeyChange _ (Transition e _ _ (.enqueued (Option.map _
          ((view ws db'').idempotencyKeys.get? (row.queueName, key))) false)) _ ws db''
        rw [read]
        exact h.mono fun old new ⟨same, hold⟩ => ⟨hqueue ▸ nofun, fun h => absurd asks h, nofun,
          fun _ _ => ⟨same, v, hold, unexpired, rfl⟩⟩
    · have other : ¬ r.asksFor k := by
        rintro ⟨hq, hk'⟩
        refine hk (Prod.ext ?_ ?_)
        · exact some.inj (hqueue.symm.trans hq)
        · exact some.inj (hr.symm.trans hk')
      have hne : RowId.reservation row.queueName key ≠ .reservation k.1 k.2 := by
        intro heq
        injection heq with h1 h2
        exact hk (Prod.ext h1 h2)
      have done : ∀ {id created} {old new : Option Reservation}, new = old →
          Transition e k (.enqueue r) (.enqueued id created) old new := fun same =>
        ⟨hqueue ▸ nofun, fun _ => ⟨same, fun h => absurd (hr.symm.trans h) nofun⟩,
          fun h => absurd h other, fun h => absurd h other⟩
      refine wp_lockRow Promise.rowChange_stable h fun db' h => ?_
      split
      · refine wp_put ?_
        refine wp_then (wp_untouched (queueForeignKey_all allows _)
          ((h.lock _).write_other hne)) fun _ _ _ _ h => ?_
        refine wp_then (wp_untouched (insertTask_all allows new.state) h)
          fun _ _ _ _ h => ?_
        exact h.mono fun _ _ => done
      · refine wp_snapshot Promise.rowChange_stable (h.lock _) fun db'' _ h => ?_
        exact h.mono fun _ _ => done

/-! ### Cleanup -/

theorem lockKeys_all (n : Nat) (found : List ((String × String) × Reservation)) :
    (lockKeys e n found).All (fun _ => True) fun s _ => s ≠ .reservation k.1 k.2 := by
  induction found generalizing n with
  | nil => cases n <;> trivial
  | cons x rest ih =>
    cases n with
    | zero => trivial
    | succ n =>
      refine .bind (Prog.all_tryLockRow.mpr trivial) fun row => ?_
      split
      · exact .bind (ih n) fun _ => trivial
      · exact ih (n + 1)

def expiring (e : Env) (old new : Option Reservation) : Prop :=
  (new = old ∨ new = none) ∧ ∃ v, old = some v ∧ expiredAt e.now v = true

theorem lockKeys_change (n : Nat) (found : List ((String × String) × Reservation))
    (h : KeyChange k (fun old new => new = old) held ws db) :
    promise.wp (fun gone => KeyChange k fun old new =>
      if k ∈ gone then expiring e old new else new = old) (lockKeys e n found) held ws db := by
  have nothing : ∀ {held ws db}, KeyChange k (fun old new => new = old) held ws db →
      KeyChange k (fun old new => if k ∈ [] then expiring e old new else new = old) held ws db :=
    fun h => h.mono fun _ _ same => by simpa using same
  induction found generalizing n held ws db with
  | nil => cases n <;> exact nothing h
  | cons x rest ih =>
    cases n with
    | zero => exact nothing h
    | succ n =>
      refine wp_tryLockRow Promise.rowChange_stable h fun db' h => ⟨ih _ h, ?_⟩
      split
      swap
      · exact ih _ (h.lock _)
      rename_i newest hnewest
      obtain ⟨k', v⟩ := x
      by_cases hk : k' = k
      · subst hk
        obtain ⟨hrow, expired⟩ := filter_eq_some_iff.mp hnewest
        have locked : KeyChange k' (fun old new => new = old ∧
            ∃ v, old = some v ∧ expiredAt e.now v = true)
            ((RowId.reservation k'.1 k'.2, .update) :: held) ws db' :=
          .inr ⟨⟨_, mem_cons_self, rfl⟩, h.row, newest, h.row.symm.trans hrow, expired⟩
        refine wp_then (wp_untouched (lockKeys_all n rest) locked)
          fun more _ _ _ h => wp_pure (h.mono fun old new ⟨same, hold⟩ => ?_)
        by_cases hmem : k' ∈ (if newest = v then k' :: more else more)
        · rw [if_pos hmem]
          exact ⟨.inl same, hold⟩
        · rw [if_neg hmem]
          exact same
      · refine wp_then (ih _ (h.lock _)) fun more _ _ _ h =>
          wp_pure (h.mono fun old new hnew => ?_)
        have hmem : k ∈ (if newest = v then k' :: more else more) ↔ k ∈ more := by
          split <;> simp [Ne.symm hk]
        simpa only [hmem] using hnew

theorem deleteExpiredIdempotencyKeys_change (k : String × String) (queueName : String) (count : Int)
    (db : Database) : promise.wp (fun reply => KeyChange k
      (Transition e k (.deleteExpiredIdempotencyKeys queueName count) reply))
      (deleteExpiredIdempotencyKeys e queueName count) [] [] db := by
  have start : KeyChange k (fun old new => new = old) [] [] db := .inl ⟨nofun, fun _ => rfl⟩
  refine wp_ofResult fun n _ => ?_
  refine wp_snapshot Promise.rowChange_stable start fun db' _ h => ?_
  refine wp_then (lockKeys_change n _ h) fun gone held ws db h => ?_
  by_cases hk : k ∈ gone
  · simp only [if_pos hk] at h
    refine wp_then (wp_forEach (I := fun _ => KeyChange k (expiring e))
      (fun j _ held ws db h => ?_) h) fun _ _ _ _ h => h.mono fun old new hnew => ?_
    · by_cases hj : j = k
      · subst hj
        exact .write (h.writable (v := none) fun hnone => absurd hnone.2 nofun)
          ⟨.inr rfl, h.row.2⟩
      · refine h.write_other fun heq => ?_
        injection heq with h1 h2
        exact hj (Prod.ext h1 h2)
    · exact hnew.1.imp_right fun hnone => ⟨hnone, hnew.2⟩
  · simp only [if_neg hk] at h
    refine wp_then (wp_forEach (I := fun rest held ws db => k ∉ rest ∧
      KeyChange k (fun old new => new = old) held ws db)
      (fun j rest held ws db h => ?_) ⟨hk, h⟩) fun _ _ _ _ h => h.2.mono fun _ _ => .inl
    obtain ⟨hrest, h⟩ := h
    rw [mem_cons, not_or] at hrest
    refine ⟨hrest.2, h.write_other ?_⟩
    intro heq
    injection heq with h1 h2
    exact hrest.1 (Prod.ext h1.symm h2.symm)

theorem KeyCall.program_change (k : String × String) (call : KeyCall) (db : Database) :
    promise.wp (fun reply => KeyChange k (Transition e k call reply)) (call.program e depth) [] []
      db := by
  cases call with
  | enqueue r => exact enqueue_change k r db
  | deleteExpiredIdempotencyKeys queueName limit =>
    exact deleteExpiredIdempotencyKeys_change k queueName limit db
  | operation op =>
    have start : KeyChange k sameTask [] [] db := .inl ⟨nofun, fun _ => rfl⟩
    exact wp_then (Concurrent.program_change op start) fun _ _ _ _ h => h

/-! ## Every interleaving -/

section Interleavings

variable {ι : Type} [Fintype ι] [DecidableEq ι]

def KeyCall.asksFor (k : String × String) : KeyCall → Prop
  | .enqueue r => r.asksFor k
  | .deleteExpiredIdempotencyKeys .. | .operation _ => False

/-- Calls that run at the same time, from a database that the calls before have left. -/
def keyCalls (start : World) (env : ι → Env) (depth : ι → Nat) (calls : ι → KeyCall)
    (turns : List (Turn ι)) : System Database RowId Row KeyReply ι :=
  interleave start.db (fun i => (calls i).program (env i) (depth i)) turns

section Runs

variable {start : World} {env : ι → Env} {depth : ι → Nat} {calls : ι → KeyCall}

theorem keyCalls_concat (turns : List (Turn ι)) (t : Turn ι) :
    keyCalls start env depth calls (turns ++ [t]) = (keyCalls start env depth calls turns).turn t :=
  interleave_concat ..

theorem committed_stays {before : List (Turn ι)} {i : ι}
    (h : (keyCalls start env depth calls before).txns i = .committed a) (after : List (Turn ι)) :
    (keyCalls start env depth calls (before ++ after)).txns i = .committed a :=
  (interleave_ended _ _ (congrArg Txn.ended h) after).trans h

variable (settled : Settled nothing nothing start.db) (k : String × String)

include settled

theorem transition_at_commit {turns : List (Turn ι)} {i : ι} {held : Locks} {ws : Writes RowId Row}
    (hi : (keyCalls start env depth calls turns).txns i = .active (.ret a) held ws) :
    Transition (env i) k (calls i) a
      ((keyCalls start env depth calls turns).db.idempotencyKeys.get? k)
      ((view ws (keyCalls start env depth calls turns).db).idempotencyKeys.get? k) := by
  have safe : ∀ j, promise.wp (fun _ => promise.Committable)
      ((calls j).program (env j) (depth j)) [] [] start.db := fun j =>
    wp_mono (fun _ _ _ _ => clear_committable) ((calls j).program_wp ⟨nofun, settled⟩)
  have change := Promise.interleave_expects settled safe (fun _ => Promise.rowChange_stable)
    not_mem_nil ((calls i).program_change k start.db) turns _ held ws hi
  exact change.row

theorem committed_transition {turns : List (Turn ι)} {i : ι}
    (h : (keyCalls start env depth calls turns).txns i = .committed a) :
    ∃ before after, turns = before ++ .advance i :: after ∧ Transition (env i) k (calls i) a
      ((keyCalls start env depth calls before).db.idempotencyKeys.get? k)
      ((keyCalls start env depth calls (before ++ [.advance i])).db.idempotencyKeys.get? k) := by
  obtain ⟨before, after, held, ws, hturns, hi, hdb⟩ := interleave_committed h
  refine ⟨before, after, hturns, ?_⟩
  rw [show (keyCalls start env depth calls (before ++ [.advance i])).db = _ from hdb]
  exact transition_at_commit settled k hi

theorem keyCalls_turn (env : ι → Env) (depth : ι → Nat) (calls : ι → KeyCall)
    (turns : List (Turn ι)) (t : Turn ι) :
    ((keyCalls start env depth calls (turns ++ [t])).db.idempotencyKeys.get? k =
        (keyCalls start env depth calls turns).db.idempotencyKeys.get? k ∧
      ∀ i a, (keyCalls start env depth calls (turns ++ [t])).txns i = .committed a →
        (keyCalls start env depth calls turns).txns i = .committed a) ∨
    ∃ i a, t = .advance i ∧ ((keyCalls start env depth calls turns).txns i).ended = false ∧
      (keyCalls start env depth calls (turns ++ [t])).txns =
        Function.update (keyCalls start env depth calls turns).txns i (.committed a) ∧
      Transition (env i) k (calls i) a
        ((keyCalls start env depth calls turns).db.idempotencyKeys.get? k)
        ((keyCalls start env depth calls (turns ++ [t])).db.idempotencyKeys.get? k) := by
  rw [keyCalls_concat]
  rcases (keyCalls start env depth calls turns).turn_commit t with
    ⟨same, committed⟩ | ⟨i, a, held, ws, rfl, hi, next⟩
  · exact .inl ⟨congrArg (fun d : Database => d.idempotencyKeys.get? k) same, committed⟩
  · rw [next]
    exact .inr ⟨i, a, rfl, congrArg Txn.ended hi, rfl, transition_at_commit settled k hi⟩

theorem reservation_named (turns : List (Turn ι)) (v : Reservation)
    (hv : (keyCalls start env depth calls turns).db.idempotencyKeys.get? k = some v) :
    (start.db.idempotencyKeys.get? k).map Reservation.taskId = some v.taskId ∨
      ∃ j, (calls j).asksFor k ∧ (keyCalls start env depth calls turns).txns j =
        .committed (.enqueued (some v.taskId) true) := by
  induction turns using List.reverseRecOn generalizing v with
  | nil => exact .inl (congrArg (Option.map Reservation.taskId) hv)
  | append_singleton turns t ih =>
    -- A reservation that keeps its task was named before.
    have kept : ∀ u, (keyCalls start env depth calls turns).db.idempotencyKeys.get? k = some u →
        u.taskId = v.taskId → (start.db.idempotencyKeys.get? k).map Reservation.taskId =
          some v.taskId ∨ ∃ j, (calls j).asksFor k ∧
            (keyCalls start env depth calls (turns ++ [t])).txns j =
              .committed (.enqueued (some v.taskId) true) := by
      intro u hu same
      rw [← same]
      exact (ih u hu).imp_right fun ⟨j, asks, hj⟩ => ⟨j, asks, committed_stays hj [t]⟩
    rcases keyCalls_turn settled k env depth calls turns t with ⟨same, -⟩ | ⟨i, a, rfl, -, next, change⟩
    · exact kept v (same.symm.trans hv) rfl
    rw [hv] at change
    cases hcall : calls i with
    | operation op =>
      rw [hcall] at change
      obtain ⟨u, hu, same⟩ := map_eq_some_iff.mp (show _ = some v.taskId from change)
      exact kept u hu same
    | deleteExpiredIdempotencyKeys queueName limit =>
      rw [hcall] at change
      rcases change with same | ⟨hnone, -⟩
      · exact kept v same.symm rfl
      · cases hnone
    | enqueue r =>
      rw [hcall] at change
      cases a with
      | other => exact change.elim
      | enqueued id created =>
        obtain ⟨-, other, taken, found⟩ := change
        by_cases asks : r.asksFor k
        · cases created with
          | false => exact kept v (found asks rfl).1.symm rfl
          | true =>
            obtain ⟨-, j, rfl, hnew⟩ := taken asks rfl
            refine .inr ⟨i, by rw [hcall]; exact asks, ?_⟩
            rw [next, Function.update_self, some.inj hnew]
        · exact kept v (other asks).1.symm rfl

theorem enqueued_named {turns : List (Turn ι)} {i : ι} {r : EnqueueRequest} {id : Option Uuid}
    {created : Bool} (hcall : calls i = .enqueue r)
    (h : (keyCalls start env depth calls turns).txns i = .committed (.enqueued id created)) :
    id ≠ none := by
  obtain ⟨before, after, -, change⟩ :=
    committed_transition settled (r.queueName.getD "", r.idempotencyKey.getD "") h
  rw [hcall] at change
  obtain ⟨hqueue, other, taken, found⟩ := change
  cases hkey : r.idempotencyKey with
  | none => exact (other fun asks => absurd (hkey.symm.trans asks.2) nofun).2 hkey
  | some key =>
    obtain ⟨queueName, hname⟩ := ne_none_iff_exists'.mp hqueue
    have asks : r.asksFor (r.queueName.getD "", r.idempotencyKey.getD "") := by
      rw [EnqueueRequest.asksFor, hname, hkey]
      exact ⟨rfl, rfl⟩
    cases created with
    | true =>
      obtain ⟨-, j, hid, -⟩ := taken asks rfl
      rw [hid]
      nofun
    | false =>
      obtain ⟨-, v, -, -, hid⟩ := found asks rfl
      rw [hid]
      nofun

theorem enqueued_existing {turns : List (Turn ι)} {i : ι} {id : Uuid} (asks : (calls i).asksFor k)
    (h : (keyCalls start env depth calls turns).txns i = .committed (.enqueued (some id) false)) :
    (start.db.idempotencyKeys.get? k).map Reservation.taskId = some id ∨
      ∃ j, (calls j).asksFor k ∧ (keyCalls start env depth calls turns).txns j =
        .committed (.enqueued (some id) true) := by
  obtain ⟨before, after, rfl, change⟩ := committed_transition settled k h
  cases hcall : calls i with
  | operation | deleteExpiredIdempotencyKeys =>
    rw [hcall] at asks
    exact asks.elim
  | enqueue r =>
    rw [hcall] at asks change
    obtain ⟨-, v, hv, -, hid⟩ := change.2.2.2 asks rfl
    cases hid
    refine (reservation_named settled k before v hv).imp_right fun ⟨j, hj, committed⟩ => ?_
    exact ⟨j, hj, committed_stays committed _⟩

end Runs

/-! ### Who has created a task -/

/-- Nobody holds the key and no call for it has committed, or somebody holds it and exactly one
call has created a task. -/
def OneCreated (calls : ι → KeyCall) (k : String × String)
    (s : System Database RowId Row KeyReply ι) : Prop :=
  s.db.idempotencyKeys.get? k = none ∧ (∀ i a, (calls i).asksFor k → s.txns i ≠ .committed a) ∨
    s.db.idempotencyKeys.get? k ≠ none ∧
      ∃! i, (calls i).asksFor k ∧ ∃ id, s.txns i = .committed (.enqueued id true)

variable {calls : ι → KeyCall} {k : String × String} {s s' : System Database RowId Row KeyReply ι}

omit [Fintype ι] [DecidableEq ι] in
theorem OneCreated.quiet (h : OneCreated calls k s)
    (presence : s'.db.idempotencyKeys.get? k = none ↔ s.db.idempotencyKeys.get? k = none)
    (answers : ∀ j a, (calls j).asksFor k → (s'.txns j = .committed a ↔ s.txns j = .committed a)) :
    OneCreated calls k s' := by
  refine h.imp (fun ⟨hnone, quiet⟩ => ⟨presence.mpr hnone, fun j a asks hj => ?_⟩)
    fun ⟨hsome, i, ⟨asks, id, hi⟩, unique⟩ => ⟨mt presence.mp hsome, i, ⟨asks, id, ?_⟩, ?_⟩
  · exact quiet j a asks ((answers j a asks).mp hj)
  · exact (answers i _ asks).mpr hi
  · rintro j ⟨asks, id, hj⟩
    exact unique j ⟨asks, id, (answers j _ asks).mp hj⟩

omit [Fintype ι] in
theorem OneCreated.commit {e : Env} {i : ι} (h : OneCreated calls k s)
    (running : (s.txns i).ended = false) (next : s'.txns = Function.update s.txns i (.committed a))
    (unexpired : ∀ v, s.db.idempotencyKeys.get? k = some v → expiredAt e.now v = false)
    (change : Transition e k (calls i) a (s.db.idempotencyKeys.get? k)
      (s'.db.idempotencyKeys.get? k)) : OneCreated calls k s' := by
  have others : ∀ j b, j ≠ i → (s'.txns j = .committed b ↔ s.txns j = .committed b) := by
    intro j b hj
    rw [next, Function.update_of_ne hj]
  -- Calls that do not ask for the key leave it held, or free.
  have foreign : ¬ (calls i).asksFor k → (s'.db.idempotencyKeys.get? k = none ↔
      s.db.idempotencyKeys.get? k = none) → OneCreated calls k s' := fun other presence =>
    h.quiet presence fun j b asks => others j b fun hji => other (hji ▸ asks)
  cases hcall : calls i with
  | operation op =>
    rw [hcall] at change
    refine foreign (by rw [hcall]; exact id) ?_
    have change : sameTask _ _ := change
    unfold sameTask at change
    rw [← map_eq_none_iff (f := Reservation.taskId), ← change, map_eq_none_iff]
  | deleteExpiredIdempotencyKeys queueName limit =>
    rw [hcall] at change
    refine foreign (by rw [hcall]; exact id) ?_
    rcases change with same | ⟨-, v, hv, expired⟩
    · rw [same]
    · rw [unexpired v hv] at expired
      cases expired
  | enqueue r =>
    have asks_iff : (calls i).asksFor k ↔ r.asksFor k := by rw [hcall]; rfl
    rw [hcall] at change
    cases a with
    | other => exact change.elim
    | enqueued id created =>
      obtain ⟨-, other, taken, found⟩ := change
      by_cases asks : r.asksFor k
      swap
      · exact foreign (mt asks_iff.mp asks) (by rw [(other asks).1])
      cases created with
      | true =>
        obtain ⟨expired, new, hid, hnew⟩ := taken asks rfl
        rcases h with ⟨hnone, quiet⟩ | ⟨hsome, -⟩
        · refine .inr ⟨by rw [hnew]; nofun, i, ⟨asks_iff.mpr asks, id, ?_⟩, ?_⟩
          · rw [next, Function.update_self]
          · rintro j ⟨hj, id', committed⟩
            by_contra hji
            exact quiet j _ hj ((others j _ hji).mp committed)
        · obtain ⟨v, hv⟩ := ne_none_iff_exists'.mp hsome
          rw [hv, all_some, unexpired v hv] at expired
          cases expired
      | false =>
        obtain ⟨same, v, hv, -⟩ := found asks rfl
        rcases h with ⟨hnone, -⟩ | ⟨hsome, j, ⟨hj, id', committed⟩, unique⟩
        · exact absurd (hv.symm.trans hnone) nofun
        have hne : ∀ j' id', s'.txns j' = .committed (.enqueued id' true) → j' ≠ i := by
          rintro j' id' hj' rfl
          rw [next, Function.update_self] at hj'
          cases hj'
        refine .inr ⟨by rw [same]; exact hsome, j, ⟨hj, id', ?_⟩, ?_⟩
        · refine (others j _ ?_).mpr committed
          rintro rfl
          rw [committed] at running
          cases running
        · rintro j' ⟨hj', id'', committed'⟩
          exact unique j' ⟨hj', id'', (others j' _ (hne j' _ committed')).mp committed'⟩

/-- In every turn, the call that takes it sees a reservation that has not expired. -/
def Unexpired (start : World) (env : ι → Env) (depth : ι → Nat) (calls : ι → KeyCall)
    (k : String × String) (turns : List (Turn ι)) : Prop :=
  ∀ before i after, turns = before ++ .advance i :: after →
    ∀ v, (keyCalls start env depth calls before).db.idempotencyKeys.get? k = some v →
      expiredAt (env i).now v = false

theorem one_created {start : World} {env : ι → Env} {depth : ι → Nat} {turns : List (Turn ι)}
    (settled : Settled nothing nothing start.db) (free : start.db.idempotencyKeys.get? k = none)
    (unexpired : Unexpired start env depth calls k turns) :
    OneCreated calls k (keyCalls start env depth calls turns) := by
  induction turns using List.reverseRecOn with
  | nil => exact .inl ⟨free, fun _ _ _ => nofun⟩
  | append_singleton turns t ih =>
    have before := ih fun xs i ys hturns => unexpired xs i (ys ++ [t]) (by simp [hturns])
    rcases keyCalls_turn settled k env depth calls turns t with
      ⟨same, committed⟩ | ⟨i, a, rfl, running, next, change⟩
    · exact before.quiet (by rw [same]) fun j a _ => ⟨committed j a, fun h => committed_stays h [t]⟩
    · exact before.commit running next (unexpired turns i [] rfl) change

/-- From every reachable database and in every interleaving of any number of these calls: an
enqueue names a task; one that reports `created = false` names a task that a call before the
interleaving left with the key, or that an enqueue which committed before it has created; and if
the key was free, then for as long as the reservation has not expired exactly one of the enqueues
that have committed, if any, reports `created = true`. -/
theorem enqueues_agree_on_key (server : Server) (rs : List Request) (env : ι → Env)
    (depth : ι → Nat) (calls : ι → KeyCall) (k : String × String) (turns : List (Turn ι)) :
    let start := run server rs
    let s := keyCalls start env depth calls turns
    (∀ i r id created, calls i = .enqueue r → s.txns i = .committed (.enqueued id created) →
      id ≠ none) ∧
    (∀ i id, (calls i).asksFor k → s.txns i = .committed (.enqueued (some id) false) →
      (∃ before after t, rs = before ++ after ∧
        (run server before).db.tasks.get? id = some t ∧ t.carries k) ∨
        ∃ j, (calls j).asksFor k ∧ s.txns j = .committed (.enqueued (some id) true)) ∧
    (start.db.idempotencyKeys.get? k = none → Unexpired start env depth calls k turns →
      (∃ i a, (calls i).asksFor k ∧ s.txns i = .committed a) →
      ∃! i, (calls i).asksFor k ∧ ∃ id, s.txns i = .committed (.enqueued id true)) := by
  intro start s
  have settled := run_settled server rs
  refine ⟨fun i r id created => enqueued_named settled, fun i id asks hi => ?_,
    fun free unexpired ⟨i, a, asks, hi⟩ => ?_⟩
  · refine (enqueued_existing settled k asks hi).imp_left fun named => ?_
    obtain ⟨v, hv, rfl⟩ := map_eq_some_iff.mp named
    exact reservation_created server rs k v hv
  rcases one_created settled free unexpired with ⟨-, quiet⟩ | ⟨-, unique⟩
  · exact absurd hi (quiet i a asks)
  · exact unique

end Interleavings

-- The second enqueue waits for the first one's reservation and then answers with its task.
example :
    let request : EnqueueRequest :=
      { taskName := some "a", payload := some .null, idempotencyKey := some "k" }
    let race := keyCalls {} (fun i : Fin 2 => { countingServer.envAt 1 with uuid := fun _ => Uuid.ofNat i })
      (fun _ => 9) fun _ => .enqueue request
    let turns := List.replicate 4 (Turn.advance 0) ++ List.replicate 9 (.advance 1) ++
      List.replicate 12 (.advance 0) ++ List.replicate 9 (.advance 1)
    ((race turns).txns 0).answer = some (.enqueued (some (Uuid.ofNat 0)) true) ∧
      ((race turns).txns 1).answer = some (.enqueued (some (Uuid.ofNat 0)) false) := by
  decide +kernel

end Pgtask.Concurrent
