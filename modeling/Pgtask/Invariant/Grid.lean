import Pgtask.Invariant.Sweep
import Pgtask.Lib.Machine

/-!
# Deferred cron schedules

A deferral writes the time of the next try into the cursor. Two of the three
misfire policies take the cursor for an occurrence.
-/

open Sql Checked

namespace Pgtask

variable {calendar : Calendar} {expression : String} {now t t' : Timestamp}

def Occurs (calendar : Calendar) (expression : String) (t : Timestamp) : Prop :=
  ∃ next t₀, Core.parseCron calendar expression = .ok next ∧ next t₀ = some t

/-! ## The occurrences of a materialization -/

namespace Core.ScheduleDefinition

theorem nextAfter_occurs (h : (cron expression).nextAfter calendar t = .ok t') :
    Occurs calendar expression t' := by
  obtain ⟨next, hparse, hnext⟩ := bind_ok h
  unfold firstAfter at hnext
  split at hnext
  · cases hnext
    exact ⟨next, t, hparse, ‹_›⟩
  · cases hnext

theorem latestDue_occurs (h : (cron expression).latestDue calendar t now = .ok t') :
    Occurs calendar expression t' := by
  obtain ⟨next, hparse, hnext⟩ := bind_ok h
  obtain ⟨low, -, hnext⟩ := bind_ok hnext
  obtain ⟨low', -, hnext⟩ := bind_ok hnext
  split at hnext
  · rename_i occurrence hlatest
    cases hnext
    exact ⟨next, low', hparse, (Option.filter_eq_some_iff.mp hlatest).1⟩
  · cases hnext

theorem catchUp_occurs {limit : Nat} {occurrences : List Timestamp} (grid : Occurs calendar expression t)
    (h : (cron expression).catchUp calendar now limit t = .ok occurrences) :
    ∀ o ∈ occurrences, Occurs calendar expression o := by
  induction limit generalizing t occurrences with
  | zero =>
    cases h
    simp
  | succ limit ih =>
    unfold catchUp at h
    split at h
    · obtain ⟨next, hnext, hlast⟩ := bind_ok h
      obtain ⟨rest, hrest, hdone⟩ := bind_ok hlast
      cases hdone
      exact List.forall_mem_cons.mpr ⟨grid, ih (nextAfter_occurs hnext) hrest⟩
    · cases h
      simp

theorem materialize_occurs {policy : MisfirePolicy} {m : Materialization}
    (grid : policy = .latest ∨ Occurs calendar expression t)
    (h : (cron expression).materialize calendar t now policy = .ok m) :
    (∀ o ∈ m.occurrences, Occurs calendar expression o) ∧
      (m.nextRunAt = t ∨ Occurs calendar expression m.nextRunAt) := by
  unfold materialize at h
  split at h
  · cases h
    exact ⟨by simp, .inl rfl⟩
  · obtain ⟨occurrences, hoccurrences, hnext⟩ := bind_ok h
    obtain ⟨due, -, hnext⟩ := bind_ok hnext
    obtain ⟨next, hnextAfter, hdone⟩ := bind_ok hnext
    cases hdone
    refine ⟨?_, .inr (nextAfter_occurs hnextAfter)⟩
    cases policy with
    | skip =>
      cases hoccurrences
      simpa using grid.resolve_left (by simp)
    | latest =>
      obtain ⟨occurrence, hlatest, hdone⟩ := bind_ok hoccurrences
      cases hdone
      simpa using latestDue_occurs hlatest
    | catchUp limit => exact catchUp_occurs (grid.resolve_left (by simp)) hoccurrences

end Core.ScheduleDefinition

/-! ## One sweep -/

variable {e : Env} {s s' : Session} {id : Uuid} {d : ScheduleDefinition}

/-- The schedule is there with its definition, its cursor is on the grid where the policy needs that,
and all of its tasks are. -/
structure OnGrid (calendar : Calendar) (expression : String) (id : Uuid) (d : ScheduleDefinition)
    (db : Database) : Prop where
  cursor : ∃ c, db.schedules.get? id = some c ∧ c.definition = d ∧
    (d.misfirePolicy = .latest ∨ Occurs calendar expression c.nextRunAt)
  tasks : ∀ task t, db.tasks.get? task = some t → t.scheduleId = some id →
    ∃ o, t.scheduledFor = some o ∧ Occurs calendar expression o

theorem OnGrid.materialize {expected next : Timestamp} {occurrences : List Timestamp} {count : Nat}
    {other : Uuid} (grid : OnGrid calendar expression id d s.db)
    (h : materializeSchedule e other expected occurrences next s = .ok (count, s'))
    (hother : other = id → (∀ o ∈ occurrences, Occurs calendar expression o) ∧
      (d.misfirePolicy = .latest ∨ Occurs calendar expression next)) :
    OnGrid calendar expression id d s'.db := by
  obtain ⟨c, hrow, hdefinition, hcursor⟩ := grid.cursor
  rcases materializeSchedule_cursor h with rfl | ⟨c', n, hrow', hschedules, htasks⟩
  · exact grid
  · refine ⟨?_, fun task t row hschedule => ?_⟩
    · by_cases hid : other = id
      · subst hid
        cases hrow.symm.trans hrow'
        obtain ⟨hoccurrences, hnext⟩ := hother rfl
        refine ⟨{ c with nextRunAt := occurrences[n]?.getD next },
          by rw [hschedules, Table.get?_put_self], hdefinition, ?_⟩
        cases hn : occurrences[n]? with
        | none => simpa [hn] using hnext
        | some o => exact .inr (hoccurrences o (List.mem_of_getElem? hn))
      · exact ⟨c, by rw [hschedules, Table.get?_put_of_ne _ _ (Ne.symm hid)]; exact hrow, hdefinition, hcursor⟩
    · rcases htasks task t row with hold | ⟨o, ho, hinstant⟩
      · exact grid.tasks task t hold hschedule
      · obtain ⟨hid, hfor⟩ := Prod.mk.inj hinstant
        cases hid.symm.trans hschedule
        exact ⟨o, hfor, (hother rfl).1 o (List.mem_of_mem_take ho)⟩

theorem tryFrom_cron {row : Uuid × Schedule} {schedule : ScheduleRecord}
    (h : ScheduleRecord.tryFrom calendar row = .ok schedule) (kind : row.2.definition.kind = .cron)
    (text : row.2.definition.cronExpression = some expression) :
    schedule.config.definition = .cron expression ∧
      (schedule.config.misfirePolicy = .latest ↔ row.2.definition.misfirePolicy = .latest) := by
  obtain ⟨hdefinition, hpolicy, -⟩ := tryFrom_decodes h
  refine ⟨?_, decodeMisfirePolicy_spec hpolicy⟩
  unfold decodeDefinition at hdefinition
  rw [kind, text] at hdefinition
  split at hdefinition
  · simp at *
  · rename_i heq
    cases heq
    exact Core.ofCron_eq (Core.orSchedule_ok hdefinition)
  · cases hdefinition

section Rows

variable {refuses : Uuid × Schedule → Option PostgresError} {row : Uuid × Schedule}
  {rows : List (Uuid × Schedule)} {swept : Swept} {total total' : Nat} {log : List (Uuid × Swept)}

theorem OnGrid.sweepRow (grid : OnGrid calendar expression id d s.db) (kind : d.kind = .cron)
    (text : d.cronExpression = some expression) (claimed : Claimed s row)
    (h : Pgtask.sweepRow calendar refuses now e row s = .ok (swept, s'))
    (deferral : row.1 = id → swept = .deferred →
      d.misfirePolicy = .latest ∨ Occurs calendar expression (retryAt now)) :
    OnGrid calendar expression id d s'.db := by
  rcases sweepRow_cases h with ⟨schedule, m, count, hplan, -, hcall⟩ | ⟨hdeferred, error, count, -, -, hcall⟩
  · refine grid.materialize hcall fun hid => ?_
    obtain ⟨c, hrow, rfl, hcursor⟩ := grid.cursor
    rw [← hid, claimed.1] at hrow
    cases hrow
    obtain ⟨-, hnextRunAt⟩ := planSchedule_row hplan
    obtain ⟨hdecode, hm⟩ := planSchedule_ok hplan
    obtain ⟨hdefinition, hpolicy⟩ := tryFrom_cron hdecode kind text
    rw [hdefinition, hnextRunAt] at hm
    obtain ⟨hoccurrences, hnext⟩ := Core.ScheduleDefinition.materialize_occurs
      (hcursor.imp_left hpolicy.mpr) hm
    refine ⟨hoccurrences, ?_⟩
    rcases hnext with hsame | hnext
    · rw [hsame]
      exact hcursor
    · exact .inr hnext
  · exact grid.materialize hcall fun hid => ⟨by simp, deferral hid hdeferred⟩

theorem OnGrid.sweepRows (grid : OnGrid calendar expression id d s.db) (kind : d.kind = .cron)
    (text : d.cronExpression = some expression) (claimed : AllClaimed s rows)
    (h : Pgtask.sweepRows calendar refuses now e rows total s = .ok ((total', log), s'))
    (deferral : id ∈ deferredIn log → d.misfirePolicy = .latest ∨ Occurs calendar expression (retryAt now)) :
    OnGrid calendar expression id d s'.db := by
  refine (sweepRows_rule (P := fun rows s => AllClaimed s rows ∧ OnGrid calendar expression id d s.db) h
    ⟨claimed, grid⟩ ?_).2
  rintro row rest s1 s2 swept hlog hrow ⟨claimed, grid⟩
  refine ⟨claimed.tail hrow, grid.sweepRow kind text claimed.head hrow ?_⟩
  rintro rfl rfl
  exact deferral (List.mem_map.mpr ⟨_, List.mem_filter.mpr ⟨hlog, by simp⟩, rfl⟩)

end Rows

/-! ## Runs of sweeps -/

inductive SweepEvent
  | sweep (refuses : Uuid × Schedule → Option PostgresError) (now claimedAt : Timestamp) (limit : Nat)
  | call (r : Request)

def SweepEvent.next (server : Server) (calendar : Calendar) (w : World) : SweepEvent → Option World
  | .sweep refuses now claimedAt limit =>
    some (Pgtask.sweep server calendar refuses now claimedAt limit w).2
  | .call r => some (step server w r).2

/-- A call does not write schedules. A sweep that defers the schedule does so to an occurrence, or the
policy does not take the cursor for one. -/
def KeepsGrid (server : Server) (calendar : Calendar) (expression : String) (id : Uuid)
    (d : ScheduleDefinition) (w : World) : SweepEvent → Prop
  | .sweep refuses now claimedAt limit => ∀ total log,
      (Pgtask.sweep server calendar refuses now claimedAt limit w).1 = .ok (total, log) →
      id ∈ deferredIn log → d.misfirePolicy = .latest ∨ Occurs calendar expression (retryAt now)
  | .call r => r.call.plans = false

variable {server : Server} {w w' : World}

theorem Effect.scheduled {l : Label} {task : Uuid} {t : Task} (effect : Effect e l s s')
    (hl : ∀ j, l ≠ .materialize j) (row : s'.db.tasks.get? task = some t) (ht : t.scheduleId = some id) :
    ∃ t0, s.db.tasks.get? task = some t0 ∧ t.instant = t0.instant := by
  have step := effect.row task
  rw [row] at step
  refine step.instant.resolve_right ?_
  rintro ⟨-, hlabel⟩
  cases effect with
  | insert _ _ _ unscheduled =>
    obtain rfl : _ = task := by simpa using hlabel
    cases (Table.get?_put_self _ _ _).symm.trans row
    rw [unscheduled] at ht
    cases ht
  | materialize => exact hl _ rfl
  | _ => simp at hlabel

theorem OnGrid.step {r : Request} (grid : OnGrid calendar expression id d w.db)
    (hcall : r.call.plans = false) : OnGrid calendar expression id d (step server w r).2.db := by
  rcases step_spec server w r with ⟨reply, s', hexec, hs', -, ls, path, hls⟩ | ⟨error, -, hsame⟩
  · have hschedules : (Pgtask.step server w r).2.db.schedules = w.db.schedules := by
      have := exec_schedules w.session_queued hexec hcall
      rwa [hs'] at this
    refine ⟨by rw [hschedules]; exact grid.cursor, ?_⟩
    refine path.keeps (P := fun s => ∀ task t, s.db.tasks.get? task = some t → t.scheduleId = some id →
      ∃ o, t.scheduledFor = some o ∧ Occurs calendar expression o) (fun l s1 s2 hl effect ih task t row ht => ?_)
      hls grid.tasks
    have hnot : ∀ j, l ≠ .materialize j := by
      rintro j rfl
      obtain ⟨_, _, _, _, hmaterialize⟩ := effects_no_materialize hl
      rw [hmaterialize] at hcall
      cases hcall
    obtain ⟨t0, row0, hinstant⟩ := effect.scheduled hnot row ht
    obtain ⟨hid, hfor⟩ := Prod.mk.inj hinstant
    rw [hfor]
    exact ih task t0 row0 (hid ▸ ht)
  · rw [hsame]
    exact grid

theorem OnGrid.sweep {refuses : Uuid × Schedule → Option PostgresError} {claimedAt : Timestamp} {limit : Nat}
    (grid : OnGrid calendar expression id d w.db) (kind : d.kind = .cron)
    (text : d.cronExpression = some expression)
    (keeps : KeepsGrid server calendar expression id d w (.sweep refuses now claimedAt limit)) :
    OnGrid calendar expression id d (sweep server calendar refuses now claimedAt limit w).2.db := by
  cases hsweep : (Pgtask.sweep server calendar refuses now claimedAt limit w).1 with
  | error error =>
    rw [sweep_error hsweep]
    exact grid
  | ok x =>
    obtain ⟨total, log⟩ := x
    obtain ⟨rows, -, claimed, -, hswept⟩ := sweep_ok hsweep
    exact OnGrid.sweepRows (s := w.session) grid kind text claimed hswept (keeps total log hsweep)

theorem OnGrid.next {event : SweepEvent} (grid : OnGrid calendar expression id d w.db)
    (kind : d.kind = .cron) (text : d.cronExpression = some expression)
    (keeps : KeepsGrid server calendar expression id d w event)
    (h : event.next server calendar w = some w') : OnGrid calendar expression id d w'.db := by
  cases event with
  | sweep refuses now claimedAt limit =>
    cases h
    exact grid.sweep kind text keeps
  | call r =>
    cases h
    exact grid.step keeps

/-- In a run whose sweeps and calls all keep the grid, every task of a cron schedule that starts on the
grid is for an occurrence of its expression. -/
theorem cron_tasks_on_grid (server : Server) (calendar : Calendar) (expression : String) (id : Uuid)
    (d : ScheduleDefinition) (w w' : World) (events : List SweepEvent) (kind : d.kind = .cron)
    (text : d.cronExpression = some expression) (start : OnGrid calendar expression id d w.db)
    (h : Machine.runs (SweepEvent.next server calendar) w events = some w')
    (keeps : Machine.EveryMove (SweepEvent.next server calendar)
      (KeepsGrid server calendar expression id d) w events) :
    ∀ task t, w'.db.tasks.get? task = some t → t.scheduleId = some id →
      ∃ o, t.scheduledFor = some o ∧ Occurs calendar expression o := by
  have grid := Machine.runs_rule (I := fun w => OnGrid calendar expression id d w.db)
    (fun w event w' keeps h grid => grid.next kind text keeps h) keeps h start
  exact grid.tasks

/-! ## An hourly schedule -/

def nextHour (t : Int) : Int := (t / 3600000000 + 1) * 3600000000

theorem lt_nextHour (t : Int) : t < nextHour t := by
  unfold nextHour
  omega

theorem nextHour_mod (t : Int) : nextHour t % 3600000000 = 0 := by
  unfold nextHour
  omega

theorem nextHour_whole (t : Int) : nextHour t % 1000000 = 0 := by
  unfold nextHour
  omega

theorem nextHour_before {t : Int} (h : t % 3600000000 = 0) : nextHour (t - 1) = t := by
  unfold nextHour
  omega

def hourlyCalendar : Calendar where
  supported _ := true
  fromStr _ := .ok fun t => some (nextHour t)
  later text next t t' h h' := by
    cases h
    cases h'
    exact lt_nextHour t
  whole text next t t' h h' := by
    cases h
    cases h'
    exact nextHour_whole t

def onTheHour : String := "0 0 * * * *"

def hourlyCron : ScheduleDefinition :=
  { kind := .cron, intervalMilliseconds := none, cronExpression := some onTheHour
    misfirePolicy := .skip, catchUpLimit := none, queueName := "default", taskName := "a"
    handlerVersion := 1, payload := .null, headers := .obj [], priority := 0, maxAttempts := 5 }

def hourlyWorld : World :=
  run countingServer [⟨-1, .putSchedule (Uuid.ofNat 50) "s" hourlyCron 0⟩]

def olderSweep (now : Timestamp) : SweepEvent :=
  .sweep (fun _ => some (.invalidTask "invalid schedule definition")) now now 100

def currentSweep (now : Timestamp) : SweepEvent := .sweep (fun _ => none) now now 100

theorem parseCron_hourly :
    Core.parseCron hourlyCalendar onTheHour = .ok fun t => some (nextHour t) := by
  have hfields : (onTheHour.toList.splitOnP whitespace).countP (· ≠ []) = 6 := by decide +kernel
  unfold Core.parseCron
  rw [if_neg (not_not.mpr hfields)]
  rfl

theorem occurs_hourly {t : Timestamp} : Occurs hourlyCalendar onTheHour t ↔ t % 3600000000 = 0 := by
  unfold Occurs
  rw [parseCron_hourly]
  constructor
  · rintro ⟨next, t0, hnext, h⟩
    cases hnext
    cases h
    exact nextHour_mod t0
  · intro h
    exact ⟨_, t - 1, rfl, congrArg some (nextHour_before h)⟩

theorem hourlyWorld_onGrid : OnGrid hourlyCalendar onTheHour (Uuid.ofNat 50) hourlyCron hourlyWorld.db := by
  have hrow : hourlyWorld.db.schedules.get? (Uuid.ofNat 50) =
      some { name := "s", definition := hourlyCron, nextRunAt := 0 } := by decide +kernel
  have htasks : hourlyWorld.db.tasks.rows = [] := by decide +kernel
  refine ⟨⟨_, hrow, rfl, .inr (occurs_hourly.mpr rfl)⟩, fun task t row => ?_⟩
  have hmem := Table.mem_rows_iff.mpr row
  rw [htasks] at hmem
  cases hmem

theorem deferred_to_occurrence_on_grid :
    let events := [olderSweep 3540000000, currentSweep 3600000000]
    ∃ w', Machine.runs (SweepEvent.next countingServer hourlyCalendar) hourlyWorld events = some w' ∧
      (w'.db.tasks.get? (Uuid.ofNat 1)).map Task.instant = some (some (Uuid.ofNat 50), some 3600000000) ∧
      ∀ task t, w'.db.tasks.get? task = some t → t.scheduleId = some (Uuid.ofNat 50) →
        ∃ o, t.scheduledFor = some o ∧ Occurs hourlyCalendar onTheHour o := by
  intro events
  have hruns : ((Machine.runs (SweepEvent.next countingServer hourlyCalendar) hourlyWorld events).any fun w' =>
      (w'.db.tasks.get? (Uuid.ofNat 1)).map Task.instant = some (some (Uuid.ofNat 50), some 3600000000)) =
        true := by decide +kernel
  obtain ⟨w', h, hinstant⟩ := (Option.any_eq_true _ _).mp hruns
  have hsecond : ((sweep countingServer hourlyCalendar (fun _ => none) 3600000000 3600000000 100
      (sweep countingServer hourlyCalendar (fun _ => some (.invalidTask "invalid schedule definition"))
        3540000000 3540000000 100 hourlyWorld).2).1.toOption.map fun x => deferredIn x.2) = some [] := by
    decide +kernel
  refine ⟨w', h, of_decide_eq_true hinstant, cron_tasks_on_grid countingServer hourlyCalendar onTheHour
    (Uuid.ofNat 50) hourlyCron hourlyWorld w' events rfl rfl hourlyWorld_onGrid h ⟨?_, ?_, trivial⟩⟩
  · exact fun total log _ _ => Or.inr (occurs_hourly.mpr rfl)
  · intro total log hlog hid
    rw [hlog] at hsecond
    have hnone : deferredIn log = [] := Option.some.inj hsecond
    rw [hnone] at hid
    cases hid

theorem deferred_off_grid :
    OnGrid hourlyCalendar onTheHour (Uuid.ofNat 50) hourlyCron hourlyWorld.db ∧
      ∃ w', Machine.runs (SweepEvent.next countingServer hourlyCalendar) hourlyWorld
          [olderSweep 10, currentSweep 60000010] = some w' ∧
        ∃ task t o, w'.db.tasks.get? task = some t ∧ t.instant = (some (Uuid.ofNat 50), some o) ∧
          ¬ Occurs hourlyCalendar onTheHour o := by
  refine ⟨hourlyWorld_onGrid, ?_⟩
  have hruns : ((Machine.runs (SweepEvent.next countingServer hourlyCalendar) hourlyWorld
      [olderSweep 10, currentSweep 60000010]).any fun w' =>
      (w'.db.tasks.get? (Uuid.ofNat 1)).any fun t => t.instant = (some (Uuid.ofNat 50), some 60000010)) =
        true := by decide +kernel
  obtain ⟨w', h, hinstant⟩ := (Option.any_eq_true _ _).mp hruns
  obtain ⟨t, row, hinstant⟩ := (Option.any_eq_true _ _).mp hinstant
  refine ⟨w', h, _, t, 60000010, row, of_decide_eq_true hinstant, ?_⟩
  rw [occurs_hourly]
  decide

end Pgtask
