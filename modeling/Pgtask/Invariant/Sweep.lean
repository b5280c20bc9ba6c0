import Pgtask.Invariant.Occurrences
import Pgtask.Worker.Scheduler

/-!
# Failing schedules

A sweep defers the schedules that it cannot materialize and does with the others
what it would do without them.
-/

open Sql Checked List Table

namespace Pgtask

variable {schedule : ScheduleRecord} {m : Core.Materialization}

variable {e : Env} {s s' t : Session} {id : Uuid}

/-! ## Materialization and the other schedules -/

def Session.withSchedules (schedules : Table Uuid Schedule) (s : Session) : Session :=
  { s with db := { s.db with schedules } }

section Frame

variable (T : Table Uuid Schedule)

theorem enforceQueueCapacity_schedules (old : Option TaskState) (new : TaskState) (queueName : String)
    (db : Database) : enforceQueueCapacity old new queueName { db with schedules := T } =
      (enforceQueueCapacity old new queueName db).map fun db => { db with schedules := T } := by
  have hchange : ∀ f, changeCapacity { db with schedules := T } queueName f =
      { changeCapacity db queueName f with schedules := T } := by
    intro f
    unfold changeCapacity
    dsimp only
    split <;> rfl
  unfold enforceQueueCapacity
  simp only [hchange]
  split
  · split <;> rfl
  · split
    · rfl
    · split
      · rfl
      · split <;> rfl

theorem beforeInsertTask_schedules (id : Uuid) (new : Task) (s : Session) :
    beforeInsertTask id new (s.withSchedules T) =
      (beforeInsertTask id new s).map fun x => (x.1, x.2.withSchedules T) := by
  unfold beforeInsertTask Session.withSchedules
  dsimp only
  rw [enforceQueueCapacity_schedules]
  cases enforceQueueCapacity none new.state new.queueName s.db with
  | error error => rfl
  | ok db =>
    have hsnapshot : snapshotTaskRetryPolicy { db with schedules := T } new =
        snapshotTaskRetryPolicy db new := by
      unfold snapshotTaskRetryPolicy
      rfl
    simp only [Except.map, bind, Except.bind, hsnapshot]
    cases require ((snapshotTaskRetryPolicy db new).checks id) <;> rfl

theorem materializeOccurrence_schedules (id : Uuid) (d : ScheduleDefinition) (instant : Timestamp)
    (s : Session) : materializeOccurrence e id d instant (s.withSchedules T) =
      (materializeOccurrence e id d instant s).map fun x => (x.1, x.2.withSchedules T) := by
  unfold materializeOccurrence genRandomUuid
  have hdraw : ({ s.withSchedules T with drawn := (s.withSchedules T).drawn + 1 } : Session) =
      Session.withSchedules T { s with drawn := s.drawn + 1 } := rfl
  dsimp only
  rw [hdraw, show (s.withSchedules T).drawn = s.drawn from rfl, beforeInsertTask_schedules]
  cases h : beforeInsertTask (e.uuid s.drawn) (d.occurrence id instant) { s with drawn := s.drawn + 1 } with
  | error error => rfl
  | ok x =>
    simp only [Except.map, bind, Except.bind]
    have hmaterialized : materialized (x.2.withSchedules T).db id instant = materialized x.2.db id instant :=
      rfl
    rw [hmaterialized]
    by_cases hm : materialized x.2.db id instant = true
    · simp [hm]
    · by_cases hfree : (x.2.db.tasks.get? (e.uuid s.drawn)).isSome = true
      · simp [hm, hfree, Session.withSchedules]
      · by_cases hqueue : (x.2.db.queues.get? x.1.queueName).isNone = true <;>
          simp [hm, hfree, hqueue, Session.withSchedules]

theorem materializeOccurrences_schedules (id : Uuid) (d : ScheduleDefinition) (instants : List Timestamp)
    (s : Session) : materializeOccurrences e id d instants (s.withSchedules T) =
      (materializeOccurrences e id d instants s).map fun x => (x.1, x.2.withSchedules T) := by
  induction instants generalizing s with
  | nil => rfl
  | cons instant rest ih =>
    unfold materializeOccurrences
    rw [materializeOccurrence_schedules]
    cases materializeOccurrence e id d instant s with
    | error error => rfl
    | ok x =>
      simp only [Except.map, bind, Except.bind, ih]
      cases materializeOccurrences e id d rest x.2 <;> rfl

end Frame

theorem materializeOccurrences_keeps {d : ScheduleDefinition} {instants : List Timestamp} {count : Nat}
    (h : materializeOccurrences e id d instants s = .ok (count, s')) :
    s'.db.schedules = s.db.schedules := by
  have hsame := materializeOccurrences_schedules (e := e) s.db.schedules id d instants s
  rw [show s.withSchedules s.db.schedules = s from rfl, h] at hsame
  have hs' : s' = s'.withSchedules s.db.schedules := congrArg Prod.snd (Except.ok.inj hsame)
  rw [hs']
  rfl

structure SameBut (ids : List Uuid) (s t : Session) : Prop where
  rest : t = s.withSchedules t.db.schedules
  schedules : ∀ id, id ∉ ids → t.db.schedules.get? id = s.db.schedules.get? id

theorem SameBut.refl (s : Session) : SameBut [] s s := ⟨rfl, fun _ _ => rfl⟩

section Materialize

variable {ids : List Uuid} {expected next : Timestamp} {occurrences : List Timestamp} {count : Nat}

theorem materializeSchedule_schedules
    (h : materializeSchedule e id expected occurrences next s = .ok (count, s')) (other : Uuid)
    (hne : other ≠ id) : s'.db.schedules.get? other = s.db.schedules.get? other := by
  unfold materializeSchedule at h
  split at h
  · cases h
    rfl
  · rw [materializeOccurrences_keeps h]
    exact get?_put_of_ne _ _ hne

theorem SameBut.materialize (same : SameBut ids s t) (hid : id ∉ ids)
    (h : materializeSchedule e id expected occurrences next s = .ok (count, s')) :
    ∃ t', materializeSchedule e id expected occurrences next t = .ok (count, t') ∧ SameBut ids s' t' := by
  unfold materializeSchedule at h ⊢
  rw [same.schedules id hid]
  split at h
  · cases h
    exact ⟨t, rfl, same⟩
  · rename_i c hc
    have hqueues : t.db.queues = s.db.queues := by rw [same.rest]; rfl
    have hallowed : allowedCount t.db c.definition.queueName occurrences.length =
        allowedCount s.db c.definition.queueName occurrences.length := by
      unfold allowedCount
      rw [hqueues]
    dsimp only at h ⊢
    rw [hallowed]
    set c' : Schedule := { c with
      nextRunAt := occurrences[allowedCount s.db c.definition.queueName occurrences.length]?.getD next }
    have ht : ({ t with db := { t.db with schedules := t.db.schedules.put id c' } } : Session) =
        Session.withSchedules (t.db.schedules.put id c')
          { s with db := { s.db with schedules := s.db.schedules.put id c' } } := by
      rw [same.rest]
      rfl
    rw [ht, materializeOccurrences_schedules, h]
    refine ⟨_, rfl, rfl, fun other hother => ?_⟩
    rw [materializeOccurrences_keeps h]
    show (t.db.schedules.put id c').get? other = (s.db.schedules.put id c').get? other
    rw [get?_put, get?_put, same.schedules other hother]

end Materialize

/-! ## One schedule of a sweep -/

section Rows

variable {calendar : Calendar} {refuses : Uuid × Schedule → Option PostgresError} {now : Timestamp}
  {row : Uuid × Schedule} {rows : List (Uuid × Schedule)} {swept : Swept} {total total' : Nat}
  {log : List (Uuid × Swept)}

theorem clientResult_ok {α : Type} {x : Except PostgresError α} {a : α} (h : clientResult x = .ok a) :
    x = .ok a := by
  cases x with
  | error error => cases h
  | ok b =>
    cases h
    rfl

theorem databaseResult_ok {α : Type} {x : Result α} {a : α} : databaseResult x = .ok a ↔ x = .ok a := by
  cases x with
  | error error => exact ⟨nofun, nofun⟩
  | ok b => exact ⟨fun h => congrArg Except.ok (Except.ok.inj h), fun h => congrArg Except.ok (Except.ok.inj h)⟩

theorem planSchedule_ok (h : planSchedule calendar refuses now row = .ok (schedule, m)) :
    ScheduleRecord.tryFrom calendar row = .ok schedule ∧
      schedule.config.definition.materialize calendar schedule.nextRunAt now schedule.config.misfirePolicy =
        .ok m := by
  unfold planSchedule at h
  split at h
  · cases h
  · obtain ⟨schedule', hdecode, hnext⟩ := bind_ok h
    obtain ⟨m', hm, hdone⟩ := bind_ok hnext
    cases hdone
    exact ⟨hdecode, Core.orSchedule_ok hm⟩

theorem planSchedule_row (h : planSchedule calendar refuses now row = .ok (schedule, m)) :
    schedule.config.id = row.1 ∧ schedule.nextRunAt = row.2.nextRunAt := by
  obtain ⟨hid, hcursor, -⟩ := tryFrom_earliest (planSchedule_ok h).1
  exact ⟨hid, hcursor⟩

def retryAt (now : Timestamp) : Timestamp := now + scheduleFailureRetryDelay

theorem sweepRow_cases (h : sweepRow calendar refuses now e row s = .ok (swept, s')) :
    (∃ schedule m count, planSchedule calendar refuses now row = .ok (schedule, m) ∧
        swept = .materialized count m.skipped ∧
        materializeSchedule e row.1 row.2.nextRunAt m.occurrences m.nextRunAt s = .ok (count, s')) ∨
      (swept = .deferred ∧ ∃ error count,
        materializeClaimed calendar refuses now e row s = .error error ∧
        isDeterministicScheduleFailure error = true ∧
        materializeSchedule e row.1 row.2.nextRunAt [] (retryAt now) s = .ok (count, s')) := by
  unfold sweepRow at h
  split at h
  · rename_i count skipped s1 hclaimed
    cases h
    obtain ⟨⟨schedule, m⟩, hplan, hnext⟩ := bind_ok hclaimed
    obtain ⟨⟨count', s2⟩, hcall, hdone⟩ := bind_ok hnext
    cases hdone
    have hplan := clientResult_ok hplan
    obtain ⟨hid, hcursor⟩ := planSchedule_row hplan
    rw [hid, hcursor] at hcall
    exact .inl ⟨schedule, m, count, hplan, rfl, databaseResult_ok.mp hcall⟩
  · rename_i error hclaimed
    split at h
    · rename_i hdeterministic
      obtain ⟨s1, hdefer, hdone⟩ := bind_ok h
      cases hdone
      obtain ⟨retry, hretry, hnext⟩ := bind_ok hdefer
      obtain ⟨⟨count, s2⟩, hcall, hdone⟩ := bind_ok hnext
      cases hdone
      rw [Core.checkedAdd_ok (Core.orSchedule_ok (clientResult_ok hretry))] at hcall
      exact .inr ⟨rfl, error, count, hclaimed, hdeterministic, databaseResult_ok.mp hcall⟩
    · cases h

theorem sweepRow_of_plan {count : Nat}
    (hplan : planSchedule calendar refuses now row = .ok (schedule, m))
    (hcall : materializeSchedule e row.1 row.2.nextRunAt m.occurrences m.nextRunAt s = .ok (count, s')) :
    sweepRow calendar refuses now e row s = .ok (.materialized count m.skipped, s') := by
  obtain ⟨hid, hcursor⟩ := planSchedule_row hplan
  rw [← hid, ← hcursor] at hcall
  have hclaimed : materializeClaimed calendar refuses now e row s = .ok ((count, m.skipped), s') := by
    refine bind_eq_ok.mpr ⟨_, congrArg clientResult hplan, ?_⟩
    exact bind_eq_ok.mpr ⟨_, databaseResult_ok.mpr hcall, rfl⟩
  unfold sweepRow
  rw [hclaimed]

def Claimed (s : Session) (row : Uuid × Schedule) : Prop :=
  s.db.schedules.get? row.1 = some row.2 ∧ row.2.pausedAt = none

theorem sweepRow_call (h : sweepRow calendar refuses now e row s = .ok (swept, s')) :
    ∃ occurrences next count,
      materializeSchedule e row.1 row.2.nextRunAt occurrences next s = .ok (count, s') := by
  rcases sweepRow_cases h with ⟨_, _, _, -, -, hcall⟩ | ⟨-, _, _, -, -, hcall⟩
  · exact ⟨_, _, _, hcall⟩
  · exact ⟨_, _, _, hcall⟩

theorem sweepRow_keeps (h : sweepRow calendar refuses now e row s = .ok (swept, s')) (hne : id ≠ row.1) :
    s'.db.schedules.get? id = s.db.schedules.get? id := by
  obtain ⟨occurrences, next, count, hcall⟩ := sweepRow_call h
  exact materializeSchedule_schedules hcall id hne

/-- The rows are there as they were claimed, each of them once. -/
structure AllClaimed (s : Session) (rows : List (Uuid × Schedule)) : Prop where
  all : ∀ row ∈ rows, Claimed s row
  distinct : (rows.map Prod.fst).Nodup

theorem AllClaimed.head (claimed : AllClaimed s (row :: rows)) : Claimed s row :=
  claimed.all row mem_cons_self

theorem AllClaimed.notMem (claimed : AllClaimed s (row :: rows)) : row.1 ∉ rows.map Prod.fst :=
  (nodup_cons.mp claimed.distinct).1

theorem AllClaimed.ne (claimed : AllClaimed s (row :: rows)) : ∀ other ∈ rows, other.1 ≠ row.1 :=
  fun _ hother heq => claimed.notMem (heq ▸ List.mem_map_of_mem hother)

theorem AllClaimed.tail (claimed : AllClaimed s (row :: rows))
    (h : sweepRow calendar refuses now e row s = .ok (swept, s')) : AllClaimed s' rows := by
  refine ⟨fun other hother => ?_, (nodup_cons.mp claimed.distinct).2⟩
  obtain ⟨hrow, unpaused⟩ := claimed.all other (mem_cons_of_mem _ hother)
  exact ⟨(sweepRow_keeps h (claimed.ne other hother)).trans hrow, unpaused⟩

/-! ## All schedules of a sweep -/

def deferredIn (log : List (Uuid × Swept)) : List Uuid :=
  (log.filter fun x => x.2 = .deferred).map Prod.fst

theorem sweepRows_cons (h : sweepRows calendar refuses now e (row :: rows) total s = .ok ((total', log), s')) :
    ∃ swept s1 total1 log1, sweepRow calendar refuses now e row s = .ok (swept, s1) ∧
      checkedTotal total swept = .ok total1 ∧
      sweepRows calendar refuses now e rows total1 s1 = .ok ((total', log1), s') ∧
      log = (row.1, swept) :: log1 := by
  obtain ⟨⟨swept, s1⟩, hrow, hnext⟩ := bind_ok h
  obtain ⟨total1, htotal, hnext⟩ := bind_ok hnext
  obtain ⟨⟨⟨total2, log1⟩, s2⟩, hrows, hdone⟩ := bind_ok hnext
  cases hdone
  exact ⟨swept, s1, total1, log1, hrow, htotal, hrows, rfl⟩

theorem sweepRows_rule {P : List (Uuid × Schedule) → Session → Prop}
    (h : sweepRows calendar refuses now e rows total s = .ok ((total', log), s')) (start : P rows s)
    (round : ∀ row rest s s' swept, (row.1, swept) ∈ log →
      sweepRow calendar refuses now e row s = .ok (swept, s') → P (row :: rest) s → P rest s') : P [] s' := by
  induction rows generalizing total s log with
  | nil =>
    cases h
    exact start
  | cons row rows ih =>
    obtain ⟨swept, s1, total1, log1, hrow, -, hrows, rfl⟩ := sweepRows_cons h
    refine ih hrows (round row rows s s1 swept mem_cons_self hrow start) ?_
    exact fun row rest s s' swept hlog => round row rest s s' swept (mem_cons_of_mem _ hlog)

theorem sweepRows_keeps (h : sweepRows calendar refuses now e rows total s = .ok ((total', log), s'))
    (hid : id ∉ rows.map Prod.fst) : s'.db.schedules.get? id = s.db.schedules.get? id := by
  refine (sweepRows_rule (P := fun rows s1 => id ∉ rows.map Prod.fst ∧
    s1.db.schedules.get? id = s.db.schedules.get? id) h ⟨hid, rfl⟩ ?_).2
  rintro row rest s1 s2 swept - hrow ⟨hid, ih⟩
  rw [map_cons, mem_cons, not_or] at hid
  exact ⟨hid.2, (sweepRow_keeps hrow hid.1).trans ih⟩

theorem sweepRows_queued (h : sweepRows calendar refuses now e rows total s = .ok ((total', log), s')) :
    s'.queued = s.queued := by
  refine sweepRows_rule (P := fun _ s1 => s1.queued = s.queued) h rfl ?_
  intro row rest s1 s2 swept _ hrow ih
  obtain ⟨occurrences, next, count, hcall⟩ := sweepRow_call hrow
  exact (materializeSchedule_spec hcall).2.trans ih

end Rows

theorem claimDueSchedules_rows {count : Int} {rows : List (Uuid × Schedule)}
    (h : claimDueSchedules e count s.db = .ok rows) :
    AllClaimed s rows ∧ ∀ row ∈ rows, row.2.nextRunAt ≤ e.now := by
  obtain ⟨n, -, hdone⟩ := bind_ok h
  have hrows : ∀ row ∈ rows, Claimed s row ∧ row.2.nextRunAt ≤ e.now := by
    intro row hrow
    cases hdone
    obtain ⟨hget, hdue⟩ := mem_select.mp ((mem_insertionSort _).mp (mem_of_mem_take hrow))
    simp only [Bool.and_eq_true, Option.isNone_iff_eq_none, decide_eq_true_eq] at hdue
    exact ⟨⟨hget, hdue.1⟩, hdue.2⟩
  refine ⟨⟨fun row hrow => (hrows row hrow).1, ?_⟩, fun row hrow => (hrows row hrow).2⟩
  cases hdone
  refine ((take_sublist _ _).map _).nodup ?_
  exact ((perm_insertionSort _ _).map _).nodup_iff.mpr (nodup_select _ _)

section Transaction

variable {server : Server} {calendar : Calendar} {refuses : Uuid × Schedule → Option PostgresError}
  {now claimedAt : Timestamp} {limit total : Nat} {log : List (Uuid × Swept)} {w : World}

theorem sweep_ok (h : (sweep server calendar refuses now claimedAt limit w).1 = .ok (total, log)) :
    ∃ rows, claimDueSchedules (server.envAt claimedAt) limit w.db = .ok rows ∧
      AllClaimed w.session rows ∧ (∀ row ∈ rows, row.2.nextRunAt ≤ claimedAt) ∧
      sweepRows calendar refuses now (server.envAt claimedAt) rows 0 w.session =
        .ok ((total, log), (sweep server calendar refuses now claimedAt limit w).2.session) := by
  unfold sweep at *
  cases hsweep : materializeDueSchedules calendar refuses now (server.envAt claimedAt) limit w.session with
  | error error =>
    rw [hsweep] at h
    cases h
  | ok x =>
    obtain ⟨result, s⟩ := x
    rw [hsweep] at h
    cases h
    unfold materializeDueSchedules at hsweep
    split at hsweep
    · cases hsweep
    · obtain ⟨rows, hrows, hswept⟩ := bind_ok hsweep
      have hrows := databaseResult_ok.mp hrows
      obtain ⟨claimed, hdue⟩ := claimDueSchedules_rows hrows
      have hs : World.session ⟨s.db, s.drawn⟩ = s := by
        unfold World.session
        rw [← (sweepRows_queued hswept).trans w.session_queued]
      refine ⟨rows, hrows, claimed, hdue, ?_⟩
      dsimp only
      rw [hs]
      exact hswept

theorem sweep_error {error : StoreError}
    (h : (sweep server calendar refuses now claimedAt limit w).1 = .error error) :
    (sweep server calendar refuses now claimedAt limit w).2 = w := by
  unfold sweep at *
  split at h
  · cases h
  · rfl

end Transaction

end Pgtask
