import Pgtask.Worker.SchedulerLoop
import Pgtask.Invariant.Backlog
import Pgtask.Invariant.Waits

/-!
# Progress of the scheduler loop

The loop sleeps until the next deadline. A schedule whose queue is full keeps
its deadline, so the loop makes progress unless all that is due waits for a place.
-/

open Sql Checked List Option Table

namespace Pgtask

variable {occurrences : List Timestamp} {db : Database} {count : Nat} {now : Timestamp} {n : Int}
  {call : Call} {timeoutAt resolvedAt : Option Timestamp}

/-! ## One schedule -/

namespace Core.ScheduleDefinition

variable {calendar : Calendar} {d : ScheduleDefinition} {now t : Timestamp} {policy : MisfirePolicy}
  {m : Materialization}

theorem dueOccurrences_first (valid : d.Valid) (due : t ≤ now)
    (h : d.dueOccurrences calendar t now policy = .ok occurrences) :
    occurrences ≠ [] ∧ ∀ n o, 0 < n → occurrences[n]? = some o → t < o := by
  have single : ∀ x : Timestamp, [x] ≠ [] ∧ ∀ n o, 0 < n → [x][n]? = some o → t < o := by
    refine fun x => ⟨cons_ne_nil _ _, fun n o hn ho => ?_⟩
    rw [getElem?_eq_none (by rw [length_singleton]; exact hn)] at ho
    cases ho
  cases policy with
  | skip =>
    cases h
    exact single t
  | latest =>
    obtain ⟨o, -, ⟨⟩⟩ := bind_ok h
    exact single o
  | catchUp limit =>
    obtain ⟨k, hk⟩ := Nat.exists_eq_succ_of_ne_zero limit.positive.ne'
    have h : d.catchUp calendar now limit.get t = .ok occurrences := h
    rw [hk] at h
    unfold catchUp at h
    rw [if_pos due] at h
    obtain ⟨next, hnext, hrest⟩ := bind_ok h
    obtain ⟨rest, hcatch, ⟨⟩⟩ := bind_ok hrest
    refine ⟨cons_ne_nil _ _, fun n o hn ho => ?_⟩
    obtain ⟨n, rfl⟩ := Nat.exists_eq_succ_of_ne_zero hn.ne'
    have hge := ((catchUp_spec valid hcatch).2 o (mem_of_getElem? ho)).1
    exact (nextAfter_later valid hnext).trans_le hge

theorem materialize_moves (valid : d.Valid) (due : t ≤ now)
    (h : d.materialize calendar t now policy = .ok m) :
    m.occurrences ≠ [] ∧ (∀ n : Nat, 0 < n → t < m.occurrences[n]?.getD m.nextRunAt) ∧
      ∀ n : Nat, d.Exact policy (m.occurrences[n]?.getD m.nextRunAt) := by
  unfold materialize at h
  rw [if_neg (not_lt.mpr due)] at h
  obtain ⟨occurrences, hoccurrences, hrest⟩ := bind_ok h
  obtain ⟨count, -, hrest⟩ := bind_ok hrest
  obtain ⟨next, hnext, ⟨⟩⟩ := bind_ok hrest
  obtain ⟨hne, hlater⟩ := dueOccurrences_first valid due hoccurrences
  refine ⟨hne, fun n hn => ?_, fun n => ?_⟩
  · dsimp only
    cases ho : occurrences[n]? with
    | none => exact due.trans_lt (nextAfter_later valid hnext)
    | some o => exact hlater n o hn ho
  · dsimp only
    cases ho : occurrences[n]? with
    | none => exact nextAfter_exact hnext
    | some o => exact ((dueOccurrences_spec valid due hoccurrences).2 o (mem_of_getElem? ho)).2.2

end Core.ScheduleDefinition

def Full (db : Database) (queueName : String) : Prop :=
  ∃ q m, db.queues.get? queueName = some q ∧ q.maxOutstandingTasks = some m ∧ m ≤ q.capacityOutstandingTasks

theorem allowedCount_eq_zero {queueName : String} {n : Nat} (hn : 0 < n) :
    allowedCount db queueName n = 0 ↔ Full db queueName := by
  unfold allowedCount Full
  cases hq : db.queues.get? queueName with
  | none => simp [hn.ne']
  | some q =>
    cases hm : q.maxOutstandingTasks with
    | none => simp [hm, hn.ne']
    | some m =>
      simp only [hm]
      constructor
      · intro h
        exact ⟨q, m, rfl, hm, by omega⟩
      · rintro ⟨q', m', ⟨⟩, hm', hle⟩
        cases hm.symm.trans hm'
        omega

/-- The schedule can be planned, but its queue is full and the first occurrence is not past the cursor. -/
def Blocked (calendar : Calendar) (refuses : Uuid × Schedule → Option PostgresError) (now : Timestamp)
    (db : Database) (row : Uuid × Schedule) : Prop :=
  Full db row.2.definition.queueName ∧ ∃ schedule m o,
    planSchedule calendar refuses now row = .ok (schedule, m) ∧ m.occurrences[0]? = some o ∧
      o ≤ row.2.nextRunAt

section Rows

variable {calendar : Calendar} {refuses : Uuid × Schedule → Option PostgresError} {now : Timestamp}
  {e : Env} {s s' : Session} {row : Uuid × Schedule} {rows : List (Uuid × Schedule)} {swept : Swept}
  {total total' : Nat} {log : List (Uuid × Swept)}

def Schedule.at (c : Schedule) (cursor : Timestamp) : Schedule := { c with nextRunAt := cursor }

theorem materializeSchedule_put {id : Uuid} {c : Schedule}
    {next : Timestamp} (hrow : s.db.schedules.get? id = some c) (unpaused : c.pausedAt = none)
    (h : materializeSchedule e id c.nextRunAt occurrences next s = .ok (count, s')) :
    s'.db.schedules = s.db.schedules.put id (c.at
      (occurrences[allowedCount s.db c.definition.queueName occurrences.length]?.getD next)) := by
  unfold materializeSchedule at h
  rw [hrow, filter_some, if_pos (by simp [unpaused])] at h
  exact materializeOccurrences_keeps h

theorem materializeSchedule_none {id : Uuid} {c : Schedule}
    (next : Timestamp) (hrow : s.db.schedules.get? id = some c) (unpaused : c.pausedAt = none)
    (h : allowedCount s.db c.definition.queueName occurrences.length = 0) :
    materializeSchedule e id c.nextRunAt occurrences next s =
      .ok (0, s.withSchedules (s.db.schedules.put id (c.at (occurrences[0]?.getD next)))) := by
  unfold materializeSchedule
  rw [hrow, filter_some, if_pos (by simp [unpaused])]
  dsimp only
  rw [h]
  rfl

theorem planSchedule_due {schedule : ScheduleRecord} {m : Core.Materialization}
    (hplan : planSchedule calendar refuses now row = .ok (schedule, m)) (hdue : row.2.nextRunAt ≤ now) :
    m.occurrences ≠ [] ∧ (∀ n : Nat, 0 < n → row.2.nextRunAt < m.occurrences[n]?.getD m.nextRunAt) ∧
      (∀ n : Nat, row.2.earliest ≤ (row.2.at (m.occurrences[n]?.getD m.nextRunAt)).earliest) ∧
      ∀ n : Nat, (row.2.at (m.occurrences[n]?.getD m.nextRunAt)).earliest = m.occurrences[n]?.getD m.nextRunAt := by
  obtain ⟨hdecode, hm⟩ := planSchedule_ok hplan
  obtain ⟨-, hcursor, valid, hearliest⟩ := tryFrom_earliest hdecode
  rw [hcursor] at hm
  obtain ⟨hne, hlater, hexact⟩ := Core.ScheduleDefinition.materialize_moves valid hdue hm
  refine ⟨hne, hlater, fun n => ?_, fun n => ?_⟩
  · have hle := (Core.ScheduleDefinition.materialize_spec valid hm n).1
    rw [hearliest, hearliest] at hle
    exact hle
  · exact (hearliest _).symm.trans (hexact n)

theorem Blocked.sweepRow (blocked : Blocked calendar refuses now s.db row) (claimed : Claimed s row)
    (hdue : row.2.nextRunAt ≤ now) :
    ∃ skipped cursor, cursor ≤ row.2.nextRunAt ∧ row.2.earliest ≤ (row.2.at cursor).earliest ∧
      sweepRow calendar refuses now e row s =
        .ok (.materialized 0 skipped, s.withSchedules (s.db.schedules.put row.1 (row.2.at cursor))) := by
  obtain ⟨full, schedule, m, o, hplan, ho, hle⟩ := blocked
  obtain ⟨hne, -, hearliest, -⟩ := planSchedule_due hplan hdue
  have hallowed := (allowedCount_eq_zero (length_pos_of_ne_nil hne)).mpr full
  refine ⟨m.skipped, o, hle, ?_, ?_⟩
  · have hfirst := hearliest 0
    rwa [ho] at hfirst
  · have hcall := materializeSchedule_none (e := e) m.nextRunAt claimed.1 claimed.2 hallowed
    rw [ho] at hcall
    exact sweepRow_of_plan hplan hcall

theorem Schedule.earliest_le (c : Schedule) : c.earliest ≤ c.nextRunAt := by
  unfold Schedule.earliest unixTime
  split
  · exact Int.ediv_mul_le _ (by decide)
  · exact le_refl _

theorem second_later {t t' : Int} (h : t + 1000000 ≤ t') : t < t' / 1000000 * 1000000 := by omega

theorem retryAt_later (c : Schedule) (hdue : c.nextRunAt ≤ now) :
    c.nextRunAt < retryAt now ∧ c.earliest < (c.at (retryAt now)).earliest := by
  have hretry : now + 1000000 ≤ retryAt now := Int.add_le_add_left (by decide) now
  have hlater : now < retryAt now := (Int.lt_add_of_pos_right now (by decide)).trans_le hretry
  refine ⟨hdue.trans_lt hlater, c.earliest_le.trans_lt (hdue.trans_lt ?_)⟩
  unfold Schedule.at Schedule.earliest unixTime
  split
  · exact second_later hretry
  · exact hlater

theorem sweepRow_advances (claimed : Claimed s row) (hdue : row.2.nextRunAt ≤ now)
    (hfree : ¬ Blocked calendar refuses now s.db row)
    (h : sweepRow calendar refuses now e row s = .ok (swept, s')) :
    ∃ cursor, s'.db.schedules = s.db.schedules.put row.1 (row.2.at cursor) ∧ row.2.nextRunAt < cursor ∧
      row.2.earliest < (row.2.at cursor).earliest := by
  have hle := row.2.earliest_le
  rcases sweepRow_cases h with ⟨schedule, m, count, hplan, -, hcall⟩ | ⟨-, _, count, -, -, hcall⟩
  · obtain ⟨hne, hlater, -, hexact⟩ := planSchedule_due hplan hdue
    have hcursor : row.2.nextRunAt <
        m.occurrences[allowedCount s.db row.2.definition.queueName m.occurrences.length]?.getD m.nextRunAt := by
      rcases Nat.eq_zero_or_pos (allowedCount s.db row.2.definition.queueName m.occurrences.length) with hn | hn
      · -- The queue is full, but the occurrence is a later one.
        have full := (allowedCount_eq_zero (length_pos_of_ne_nil hne)).mp hn
        rw [hn]
        cases ho : m.occurrences[0]? with
        | none => exact absurd (List.getElem?_eq_none_iff.mp ho) (Nat.not_le.mpr (length_pos_of_ne_nil hne))
        | some o => exact not_le.mp fun hle => hfree ⟨full, schedule, m, o, hplan, ho, hle⟩
      · exact hlater _ hn
    refine ⟨_, materializeSchedule_put claimed.1 claimed.2 hcall, hcursor, ?_⟩
    rw [hexact]
    exact hle.trans_lt hcursor
  · have hlater := retryAt_later row.2 hdue
    exact ⟨_, materializeSchedule_put claimed.1 claimed.2 hcall, hlater⟩

/-! ## A sweep -/

def scheduleWork (horizon : Timestamp) (db : Database) : Nat :=
  db.schedules.sum fun _ c => if c.pausedAt.isNone then (horizon - c.earliest + 1).toNat else 0

variable {horizon : Timestamp}

theorem scheduleWork_put (horizon : Timestamp) {cursor : Timestamp} (claimed : Claimed s row)
    (h : s'.db.schedules = s.db.schedules.put row.1 (row.2.at cursor)) :
    scheduleWork horizon s'.db + (horizon - row.2.earliest + 1).toNat =
      scheduleWork horizon s.db + (horizon - (row.2.at cursor).earliest + 1).toNat := by
  have hsum := Table.sum_put_old
    (fun _ (c : Schedule) => if c.pausedAt.isNone then (horizon - c.earliest + 1).toNat else 0)
    (row.2.at cursor) claimed.1
  unfold scheduleWork
  rw [h]
  simpa [claimed.2, Schedule.at] using hsum

theorem work_le {a b T : Int} (h : a ≤ b) : (T - b + 1).toNat ≤ (T - a + 1).toNat := by omega

theorem work_lt {a b T : Int} (h : a < b) (hT : a ≤ T) : (T - b + 1).toNat < (T - a + 1).toNat := by omega

theorem blocked_congr {db' : Database} (h : db'.queues = db.queues) :
    Blocked calendar refuses now db' row ↔ Blocked calendar refuses now db row := by
  unfold Blocked Full
  rw [h]

/-- A sweep over blocked schedules changes nothing but cursors, and advances none. -/
structure Standstill (s s' : Session) : Prop where
  rest : s'.db = { s.db with schedules := s'.db.schedules }
  cursors : ∀ id c', s'.db.schedules.get? id = some c' →
    ∃ c, s.db.schedules.get? id = some c ∧ c'.nextRunAt ≤ c.nextRunAt

theorem sweepRows_moves (h : sweepRows calendar refuses now e rows total s = .ok ((total', log), s'))
    (claimed : AllClaimed s rows) (hdue : ∀ row ∈ rows, row.2.nextRunAt ≤ now) (hnow : now ≤ horizon) :
    ((∀ row ∈ rows, Blocked calendar refuses now s.db row) ∧ Standstill s s' ∧
        scheduleWork horizon s'.db ≤ scheduleWork horizon s.db) ∨
      (¬ (∀ row ∈ rows, Blocked calendar refuses now s.db row) ∧
        (∃ row ∈ rows, ∃ c', s'.db.schedules.get? row.1 = some c' ∧ row.2.nextRunAt < c'.nextRunAt) ∧
        scheduleWork horizon s'.db < scheduleWork horizon s.db) := by
  induction rows generalizing total s log with
  | nil =>
    cases h
    exact .inl ⟨by simp, ⟨rfl, fun id c' hc => ⟨c', hc, le_refl _⟩⟩, le_refl _⟩
  | cons row rows ih =>
    obtain ⟨swept, s1, total1, log1, hrow, -, hrows, rfl⟩ := sweepRows_cons h
    have hfirst := claimed.head
    obtain ⟨hdue1, hdue⟩ := forall_mem_cons.mp hdue
    have ih := ih hrows (claimed.tail hrow) hdue
    have hkept := sweepRows_keeps hrows claimed.notMem
    by_cases blocked : Blocked calendar refuses now s.db row
    · obtain ⟨skipped, cursor, hcursor, hearliest, hblocked⟩ := blocked.sweepRow (e := e) hfirst hdue1
      cases hblocked.symm.trans hrow
      have hput : (s.withSchedules (s.db.schedules.put row.1 (row.2.at cursor))).db.schedules =
        s.db.schedules.put row.1 (row.2.at cursor) := rfl
      have hwork := scheduleWork_put horizon hfirst hput
      have hle := work_le (T := horizon) hearliest
      rcases ih with ⟨hall, still, hless⟩ | ⟨hsome, ⟨other, hother, c', hc', hlt⟩, hless⟩
      · refine .inl ⟨forall_mem_cons.mpr ⟨blocked, hall⟩, ⟨still.rest, fun id c' hc' => ?_⟩, by omega⟩
        obtain ⟨c1, hc1, hle1⟩ := still.cursors id c' hc'
        have hc1 : (s.db.schedules.put row.1 (row.2.at cursor)).get? id = some c1 := hc1
        rw [get?_put] at hc1
        split at hc1
        · rename_i hid
          cases hc1
          exact ⟨row.2, hid ▸ hfirst.1, hle1.trans hcursor⟩
        · exact ⟨c1, hc1, hle1⟩
      · refine .inr ⟨fun hall => hsome fun other hother => hall other (mem_cons_of_mem _ hother),
          ⟨other, mem_cons_of_mem _ hother, c', hc', hlt⟩, by omega⟩
    · obtain ⟨cursor, hput, hlt, hearliest⟩ := sweepRow_advances hfirst hdue1 blocked hrow
      have hwork := scheduleWork_put horizon hfirst hput
      have hstrict := work_lt (T := horizon) hearliest (row.2.earliest_le.trans (hdue1.trans hnow))
      have hless : scheduleWork horizon s'.db ≤ scheduleWork horizon s1.db := by
        rcases ih with ⟨-, -, hless⟩ | ⟨-, -, hless⟩
        · exact hless
        · exact hless.le
      refine .inr ⟨fun hall => blocked (hall row mem_cons_self), ⟨row, mem_cons_self, row.2.at cursor, ?_, hlt⟩,
        by omega⟩
      rw [hkept, hput]
      exact get?_put_self _ _ _

theorem sweepRows_blocked (claimed : AllClaimed s rows) (hdue : ∀ row ∈ rows, row.2.nextRunAt ≤ now)
    (blocked : ∀ row ∈ rows, Blocked calendar refuses now s.db row) :
    ∃ log s', sweepRows calendar refuses now e rows 0 s = .ok ((0, log), s') := by
  induction rows generalizing s with
  | nil => exact ⟨[], s, rfl⟩
  | cons row rows ih =>
    obtain ⟨hdue1, hdue⟩ := forall_mem_cons.mp hdue
    obtain ⟨blocked1, blocked⟩ := forall_mem_cons.mp blocked
    obtain ⟨skipped, cursor, -, -, hrow⟩ := blocked1.sweepRow (e := e) claimed.head hdue1
    obtain ⟨log, s', hrows⟩ := ih (claimed.tail hrow) hdue
      fun other hother => (blocked_congr rfl).mpr (blocked other hother)
    refine ⟨(row.1, .materialized 0 skipped) :: log, s', ?_⟩
    exact bind_eq_ok.mpr ⟨_, hrow, bind_eq_ok.mpr ⟨0, rfl, bind_eq_ok.mpr ⟨_, hrows, rfl⟩⟩⟩

end Rows

/-! ## Deadlines -/

inductive Progressed (db db' : Database) : Prop
  | created {id : Uuid} (before : db.tasks.get? id = none) (after : db'.tasks.get? id ≠ none)
  | advanced {id : Uuid} {c c' : Schedule} (before : db.schedules.get? id = some c)
      (after : db'.schedules.get? id = some c') (later : c.nextRunAt < c'.nextRunAt)
  | resolved {k : StepKey} {w w' : Wait} (before : db.waits.get? k = some w) (isOpen : w.resolvedAt = none)
      (after : db'.waits.get? k = some w') (closed : w'.resolvedAt ≠ none)
  | resultResolved {k : StepKey} {w w' : ResultWait} (before : db.resultWaits.get? k = some w)
      (isOpen : w.resolvedAt = none) (after : db'.resultWaits.get? k = some w') (closed : w'.resolvedAt ≠ none)

theorem Standstill.not_progressed {s s' : Session} (still : Standstill s s') : ¬ Progressed s.db s'.db := by
  intro progress
  cases progress with
  | created before after =>
    rw [still.rest] at after
    exact after before
  | advanced before after later =>
    obtain ⟨c, hc, hle⟩ := still.cursors _ _ after
    cases before.symm.trans hc
    exact absurd later (not_lt.mpr hle)
  | resolved before isOpen after closed =>
    rw [still.rest] at after
    cases before.symm.trans after
    exact closed isOpen
  | resultResolved before isOpen after closed =>
    rw [still.rest] at after
    cases before.symm.trans after
    exact closed isOpen

section Timeouts

variable {e : Env} {s s' : Session} {k j : StepKey} {l : Label}

end Timeouts

/-! ## The queries of a round -/

namespace SchedulerLoop

variable {server : Server} {calendar : Calendar} {config : Config}
  {refuses : Uuid × Schedule → Option PostgresError} {now : Timestamp} {w : World}

def AllBlocked (server : Server) (calendar : Calendar) (config : Config)
    (refuses : Uuid × Schedule → Option PostgresError) (now : Timestamp) (db : Database) : Prop :=
  ∀ rows, claimDueSchedules (server.envAt now) config.scheduleBatchSize.get db = .ok rows →
    ∀ row ∈ rows, Blocked calendar refuses now db row

theorem materialize_ok (h : (materialize server calendar config refuses now w).1 = false) :
    ∃ total log, (sweep server calendar refuses now now config.scheduleBatchSize.get w).1 = .ok (total, log) ∧
      (materialize server calendar config refuses now w).2 =
        (sweep server calendar refuses now now config.scheduleBatchSize.get w).2 := by
  unfold materialize at *
  cases hsweep : (sweep server calendar refuses now now config.scheduleBatchSize.get w).1 with
  | error error =>
    simp [hsweep, Except.toOption] at h
  | ok x => exact ⟨x.1, x.2, rfl, rfl⟩

theorem materialize_moves {horizon : Timestamp}
    (h : (materialize server calendar config refuses now w).1 = false) (hnow : now ≤ horizon) :
    (AllBlocked server calendar config refuses now w.db ∧
        ¬ Progressed w.db (materialize server calendar config refuses now w).2.db ∧
        scheduleWork horizon (materialize server calendar config refuses now w).2.db ≤
          scheduleWork horizon w.db) ∨ (¬ AllBlocked server calendar config refuses now w.db ∧
        Progressed w.db (materialize server calendar config refuses now w).2.db ∧
        scheduleWork horizon (materialize server calendar config refuses now w).2.db <
          scheduleWork horizon w.db) := by
  obtain ⟨total, log, hsweep, hworld⟩ := materialize_ok h
  obtain ⟨rows, hrows, claimed, hdue, hswept⟩ := sweep_ok hsweep
  rw [hworld]
  have hunique : ∀ P : List (Uuid × Schedule) → Prop,
      (∀ rows', claimDueSchedules (server.envAt now) config.scheduleBatchSize.get w.db = .ok rows' → P rows') ↔
        P rows := by
    refine fun P => ⟨fun h => h rows hrows, fun h rows' hrows' => ?_⟩
    cases hrows.symm.trans hrows'
    exact h
  unfold AllBlocked
  rw [hunique]
  rcases sweepRows_moves hswept claimed hdue hnow with
    ⟨hall, still, hwork⟩ | ⟨hsome, ⟨row, hrow, c', hc', hlt⟩, hwork⟩
  · exact .inl ⟨hall, still.not_progressed, hwork⟩
  · exact .inr ⟨hsome, .advanced (claimed.all row hrow).1 hc' hlt, hwork⟩

theorem materialize_returns (blocked : AllBlocked server calendar config refuses now w.db) :
    (materialize server calendar config refuses now w).1 = false := by
  have hlimit : limit (config.scheduleBatchSize.get : Int) = .ok config.scheduleBatchSize.get := by
    unfold limit
    rw [if_neg (by omega), Int.toNat_natCast]
  have hclaim : ∃ rows, claimDueSchedules (server.envAt now) config.scheduleBatchSize.get w.db = .ok rows :=
    ⟨_, bind_eq_ok.mpr ⟨_, hlimit, rfl⟩⟩
  obtain ⟨rows, hrows⟩ := hclaim
  obtain ⟨claimed, hdue⟩ := claimDueSchedules_rows (s := w.session) hrows
  obtain ⟨log, s', hswept⟩ := sweepRows_blocked (e := server.envAt now) claimed hdue (blocked rows hrows)
  have hsweep : materializeDueSchedules calendar refuses now (server.envAt now) config.scheduleBatchSize.get
      w.session = .ok ((0, log), s') := by
    unfold materializeDueSchedules
    rw [if_neg config.scheduleBatchSize.positive.ne']
    exact bind_eq_ok.mpr ⟨rows, databaseResult_ok.mpr hrows, hswept⟩
  unfold materialize sweep
  rw [hsweep]
  rfl

variable {n : Core.NonZeroU16}

/-! ## Work -/

/-- What the loop can do up to an instant: the steps of the cursors, and the waits that are due. -/
def work (horizon : Timestamp) (db : Database) : Nat :=
  scheduleWork horizon db + db.waits.count (fun _ w => due horizon w.timeoutAt w.resolvedAt) +
    db.resultWaits.count fun _ w => due horizon w.timeoutAt w.resolvedAt

/-- A query that returns has made progress exactly if something is due for it, and progress lowers the
work. With nothing due it returns. -/
structure Serves (query : Timestamp → World → Bool × World) (Due : Timestamp → Database → Prop) : Prop where
  returns : ∀ {now w}, ¬ Due now w.db → (query now w).1 = false
  moves : ∀ {now w}, (query now w).1 = false → (Progressed w.db (query now w).2.db ↔ Due now w.db)
  lowers : ∀ {now w horizon}, (query now w).1 = false → now ≤ horizon →
    work horizon (query now w).2.db ≤ work horizon w.db ∧
      (Progressed w.db (query now w).2.db → work horizon (query now w).2.db < work horizon w.db)

variable {horizon : Timestamp} {e : Env} {l : Label} {t t' : Session}

def SameWaits (t t' : Session) : Prop := t'.db.waits = t.db.waits ∧ t'.db.resultWaits = t.db.resultWaits

variable {n : Core.NonZeroU16}

variable {around : Surroundings} {query : Timestamp → World → Bool × World}

theorem attempt_faultless (h : around.fault = none) : attempt server around query w =
      ⟨runFrom server w around.others, (query around.now (runFrom server w around.others)).2,
        (query around.now (runFrom server w around.others)).1⟩ := by
  unfold attempt
  rw [h]

theorem attempt_failed (h : around.fault ≠ none) : (attempt server around query w).failed = true := by
  unfold attempt
  split
  · exact absurd ‹_› h
  · rfl
  · rfl

theorem attempt_ok : (attempt server around query w).failed = false ↔ around.fault = none ∧
    (query around.now (attempt server around query w).before).1 = false := by
  by_cases hfault : around.fault = none
  · rw [attempt_faultless hfault]
    simp [hfault]
  · simp [attempt_failed hfault, hfault]

theorem attempt_after (h : (attempt server around query w).failed = false) :
    (attempt server around query w).after = (query around.now (attempt server around query w).before).2 := by
  rw [attempt_faultless (attempt_ok.mp h).1]

def Answer.Idle (a : Answer) : Prop := a.failed = false ∧ ¬ Progressed a.before.db a.after.db

section Attempt

variable {Due : Timestamp → Database → Prop}

theorem Serves.idle (serves : Serves query Due) : (attempt server around query w).Idle ↔
    around.fault = none ∧ ¬ Due around.now (attempt server around query w).before.db := by
  constructor
  · rintro ⟨hok, hnone⟩
    rw [attempt_after hok] at hnone
    obtain ⟨hfault, hquery⟩ := attempt_ok.mp hok
    exact ⟨hfault, fun hdue => hnone ((serves.moves hquery).mpr hdue)⟩
  · rintro ⟨hfault, hnone⟩
    have hquery := serves.returns hnone
    have hok := attempt_ok.mpr ⟨hfault, hquery⟩
    refine ⟨hok, ?_⟩
    rw [attempt_after hok]
    exact fun progress => hnone ((serves.moves hquery).mp progress)

end Attempt

section Round

variable (server calendar config)

def State.BacksOff (s : State) : Prop := ∀ backoff, s.errorBackoff = some backoff → 0 < backoff

end Round

variable {s s' : State} {round : Round}

theorem scheduleErrorBackoff_pos {previous : Option Nat} {failed : Bool} {cap backoff : Nat}
    (hprevious : ∀ b, previous = some b → 0 < b) (hcap : 0 < cap)
    (h : scheduleErrorBackoff previous failed cap = some backoff) : 0 < backoff := by
  unfold scheduleErrorBackoff at h
  split at h
  · cases h
    cases previous with
    | none => exact Nat.lt_min.mpr ⟨by decide, hcap⟩
    | some b =>
      exact Nat.lt_min.mpr ⟨Nat.mul_pos (hprevious b rfl) (by decide), hcap⟩
  · cases h

theorem State.BacksOff.next (hs : s.BacksOff) (h : s.next server calendar config round = some s') :
    s'.BacksOff := by
  cases h
  exact fun backoff => scheduleErrorBackoff_pos hs config.positive

section Work

end Work

end SchedulerLoop

end Pgtask
