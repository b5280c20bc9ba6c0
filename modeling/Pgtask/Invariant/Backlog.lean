import Pgtask.Invariant.Sweep

/-!
# A backlog that does not fit its queue

Under the policy `CatchUp` a sweep takes the first due occurrences up to a limit.
When the queue admits only some of them, the cursor stays at the first one left,
and the next sweep takes as many again from there.
-/

open Sql Checked List Table

namespace Pgtask

variable {n count : Nat} {db db' : Database}

/-! ## Due occurrences -/

namespace Core.ScheduleDefinition

variable {calendar : Calendar} {d : ScheduleDefinition} {now t t' : Timestamp} {backlog : List Timestamp}

inductive Due (calendar : Calendar) (d : ScheduleDefinition) (now : Timestamp) :
    Timestamp → List Timestamp → Prop
  | later {t : Timestamp} (h : now < t) : Due calendar d now t []
  | now {t t' : Timestamp} {rest : List Timestamp} (h : t ≤ now) (next : d.nextAfter calendar t = .ok t')
      (due : Due calendar d now t' rest) : Due calendar d now t (t :: rest)

def counted (d : ScheduleDefinition) (n : Nat) : Nat :=
  match d with
  | .interval _ => n
  | .cron _ => min n dueCountLimit

theorem counted_le (n : Nat) : d.counted n ≤ n := by
  unfold counted
  split <;> omega

theorem Due.sorted (valid : d.Valid) (due : Due calendar d now t backlog) :
    backlog.Pairwise (· < ·) ∧ ∀ o ∈ backlog, t ≤ o ∧ o ≤ now := by
  induction due with
  | later => simp
  | now h next _ ih =>
    have hlater := nextAfter_later valid next
    refine ⟨pairwise_cons.mpr ⟨fun o ho => hlater.trans_le (ih.2 o ho).1, ih.1⟩, ?_⟩
    exact forall_mem_cons.mpr ⟨⟨le_refl _, h⟩, fun o ho => ⟨hlater.le.trans (ih.2 o ho).1, (ih.2 o ho).2⟩⟩

theorem Due.catchUp (due : Due calendar d now t backlog) (limit : Nat) :
    d.catchUp calendar now limit t = .ok (backlog.take limit) := by
  induction due generalizing limit with
  | later h =>
    cases limit with
    | zero => rfl
    | succ limit =>
      unfold ScheduleDefinition.catchUp
      rw [if_neg (not_le.mpr h)]
      rfl
  | now h next _ ih =>
    cases limit with
    | zero => rfl
    | succ limit =>
      unfold ScheduleDefinition.catchUp
      rw [if_pos h]
      exact bind_eq_ok.mpr ⟨_, next, bind_eq_ok.mpr ⟨_, ih limit, rfl⟩⟩

theorem Due.drop {o : Timestamp} (due : Due calendar d now t backlog)
    (h : backlog[n]? = some o) : Due calendar d now o (backlog.drop n) := by
  induction due generalizing n with
  | later => simp at h
  | now hdue next due ih =>
    cases n with
    | zero =>
      cases h
      exact .now hdue next due
    | succ n => exact ih h

theorem timeDelta_milliseconds {every : Nat} {delta ms : Int} (hdelta : timeDelta every = .ok delta)
    (hms : intervalMilliseconds every = .ok ms) : delta = ms * 1000 := by
  obtain ⟨-, -, hwhole⟩ := intervalMilliseconds_pos hms
  unfold timeDelta at hdelta
  unfold intervalMilliseconds at hms
  split at hdelta
  · cases hdelta
  · cases hdelta
    split at hms
    · cases hms
    · split at hms
      · cases hms
      · split at hms
        · cases hms
        · cases hms
          omega

theorem Due.intervals {every : Nat} {ms : Int} (hms : intervalMilliseconds every = .ok ms)
    (due : Due calendar (.interval every) now t backlog) :
    (backlog.length : Int) = if t ≤ now then (now - t) / (ms * 1000) + 1 else 0 := by
  have positive := (intervalMilliseconds_pos hms).1
  induction due with
  | later h => rw [if_neg (not_le.mpr h)]; rfl
  | @now t t' rest h next due ih =>
    obtain ⟨delta, hdelta, hnext⟩ := bind_ok next
    obtain rfl := checkedAdd_ok hnext
    obtain rfl := timeDelta_milliseconds hdelta hms
    rw [if_pos h, length_cons, Nat.cast_succ, ih]
    have hstep : 0 < ms * 1000 := by omega
    generalize ms * 1000 = delta at hstep ⊢
    congr 1
    split
    · rw [← Int.sub_sub, Int.sub_ediv_of_dvd _ (dvd_refl delta), Int.ediv_self hstep.ne']
      omega
    · rename_i hlast
      have hlast := Int.not_le.mp hlast
      exact (Int.ediv_eq_zero_of_lt (Int.sub_nonneg_of_le h) (by omega)).symm

theorem Due.countDue {rounds : Nat} (due : Due calendar d now t backlog)
    (h : d.countDue calendar now rounds t = .ok count) : count = min backlog.length rounds := by
  induction due generalizing rounds count with
  | later hlater =>
    cases rounds with
    | zero => cases h; rfl
    | succ rounds =>
      unfold ScheduleDefinition.countDue at h
      rw [if_neg (not_le.mpr hlater)] at h
      cases h
      rfl
  | now hdue next due ih =>
    cases rounds with
    | zero => cases h; rfl
    | succ rounds =>
      unfold ScheduleDefinition.countDue at h
      rw [if_pos hdue] at h
      obtain ⟨o, ho, hrest⟩ := bind_ok h
      cases next.symm.trans ho
      obtain ⟨n, hn, hdone⟩ := bind_ok hrest
      cases hdone
      rw [ih hn, length_cons]
      omega

theorem Due.dueCount (due : Due calendar d now t backlog) (hdue : t ≤ now)
    (h : d.dueCount calendar t now = .ok count) : count = d.counted backlog.length := by
  cases d with
  | interval every =>
    obtain ⟨ms, hms, hdone⟩ := bind_ok h
    cases hdone
    have hlength := due.intervals hms
    have hpassed : 0 ≤ now - t := Int.sub_nonneg_of_le hdue
    have hnonneg : 0 ≤ (now - t) / 1000 := Int.ediv_nonneg hpassed (by decide)
    have hintervals := Int.ediv_nonneg hnonneg (intervalMilliseconds_pos hms).1.le
    rw [if_pos hdue, mul_comm, ← Int.ediv_ediv_of_nonneg (by decide)] at hlength
    simp only [counted, Int.tdiv_eq_ediv_of_nonneg hpassed, max_eq_left hnonneg]
    omega
  | cron expression => exact due.countDue h

theorem Due.materialize {limit : NonZeroU16} {m : Materialization} (due : Due calendar d now t backlog)
    (valid : d.Valid) (hdue : t ≤ now) (h : d.materialize calendar t now (.catchUp limit) = .ok m) :
    m.occurrences = backlog.take limit.get ∧ m.skipped = d.counted backlog.length - limit.get ∧
      now < m.nextRunAt := by
  unfold ScheduleDefinition.materialize at h
  rw [if_neg (not_lt.mpr hdue)] at h
  obtain ⟨occurrences, hoccurrences, hrest⟩ := bind_ok h
  obtain ⟨count, hcount, hrest⟩ := bind_ok hrest
  obtain ⟨next, hnext, hdone⟩ := bind_ok hrest
  cases hdone
  cases (due.catchUp limit.get).symm.trans hoccurrences
  have hle := counted_le (d := d) backlog.length
  refine ⟨rfl, ?_, nextAfter_later valid hnext⟩
  dsimp only
  rw [due.dueCount hdue hcount, length_take]
  omega

end Core.ScheduleDefinition

/-! ## Instants that have a task -/

variable {e : Env} {s s' : Session} {id other : Uuid} {o : Timestamp}

theorem materialized_put_self {new : Uuid} {t : Task} {instant : Timestamp}
    (htasks : db'.tasks = db.tasks.put new t) (free : db.tasks.get? new = none)
    (ht : t.instant = (some id, some instant)) :
    materialized db' other o = true ↔ materialized db other o = true ∨ other = id ∧ o = instant := by
  rw [materialized_iff, materialized_iff, htasks]
  constructor
  · rintro ⟨j, t', row, hinstant⟩
    rw [get?_put] at row
    split at row
    · cases row
      rw [ht] at hinstant
      cases hinstant
      exact .inr ⟨rfl, rfl⟩
    · exact .inl ⟨j, t', row, hinstant⟩
  · rintro (⟨j, t', row, hinstant⟩ | ⟨rfl, rfl⟩)
    · have hne : j ≠ new := by
        rintro rfl
        rw [free] at row
        cases row
      exact ⟨j, t', by rw [get?_put_of_ne _ _ hne]; exact row, hinstant⟩
    · exact ⟨new, t, get?_put_self _ _ _, ht⟩

theorem unlimited_adjust {queueName name : String} (h : unlimited db queueName)
    (hqueues : db'.queues = db.queues.adjust name Queue.taken) : unlimited db' queueName := by
  by_cases hname : queueName = name
  · subst hname
    exact unlimited_taken h hqueues
  · intro q hq
    rw [hqueues, get?_adjust, if_neg hname] at hq
    exact h q hq

theorem materializeOccurrence_instants {d : ScheduleDefinition} {instant : Timestamp} {inserted : Bool}
    (planned : ∃ c, s.db.schedules.get? id = some c ∧ c.definition = d)
    (h : materializeOccurrence e id d instant s = .ok (inserted, s')) :
    (∀ other o, materialized s'.db other o = true ↔
      materialized s.db other o = true ∨ other = id ∧ o = instant) ∧
      ∀ queueName, unlimited s.db queueName → unlimited s'.db queueName := by
  obtain ⟨-, -, hqueues, h⟩ := materializeOccurrence_spec planned h
  refine ⟨fun other o => ?_, fun queueName hu => unlimited_adjust hu hqueues⟩
  rcases h with ⟨-, -, new, t, effect, htasks, hfor, hid⟩ | ⟨-, hm, h⟩
  · have free : s.db.tasks.get? new = none := by
      cases effect with
      | materialize _ free => exact free
    exact materialized_put_self htasks free (by rw [Task.instant, hid, hfor])
  · have htasks : s'.db.tasks = s.db.tasks := by
      rcases h with ⟨q, -, -, effect⟩ | effect
      · cases effect
        rfl
      · cases effect
        rfl
    have hsame : materialized s'.db other o = materialized s.db other o := by
      unfold materialized
      rw [htasks]
    rw [hsame]
    refine ⟨.inl, ?_⟩
    rintro (hold | ⟨rfl, rfl⟩)
    · exact hold
    · exact hm

theorem materializeOccurrences_instants {d : ScheduleDefinition} {occurrences : List Timestamp}
    (planned : ∃ c, s.db.schedules.get? id = some c ∧ c.definition = d)
    (h : materializeOccurrences e id d occurrences s = .ok (count, s')) :
    (∀ other o, materialized s'.db other o = true ↔
      materialized s.db other o = true ∨ other = id ∧ o ∈ occurrences) ∧
      ∀ queueName, unlimited s.db queueName → unlimited s'.db queueName := by
  induction occurrences generalizing s count with
  | nil =>
    cases h
    simp
  | cons instant rest ih =>
    obtain ⟨⟨inserted, s1⟩, h1, hnext⟩ := bind_ok h
    obtain ⟨⟨n, s2⟩, h2, hdone⟩ := bind_ok hnext
    cases hdone
    obtain ⟨hfirst, hunlimited⟩ := materializeOccurrence_instants planned h1
    obtain ⟨-, hplan, -, -⟩ := materializeOccurrence_spec planned h1
    obtain ⟨hrest, hstill⟩ := ih (by rw [hplan]; exact planned) h2
    refine ⟨fun other o => ?_, fun queueName hu => hstill queueName (hunlimited queueName hu)⟩
    rw [hrest, hfirst, mem_cons, or_assoc, ← and_or_left]

theorem materializeSchedule_instants {c : Schedule} {occurrences : List Timestamp} {next : Timestamp} (row : s.db.schedules.get? id = some c) (unpaused : c.pausedAt = none)
    (h : materializeSchedule e id c.nextRunAt occurrences next s = .ok (count, s')) :
    let n := allowedCount s.db c.definition.queueName occurrences.length
    s'.db.schedules.get? id = some { c with nextRunAt := occurrences[n]?.getD next } ∧
      (∀ other o, materialized s'.db other o = true ↔
        materialized s.db other o = true ∨ other = id ∧ o ∈ occurrences.take n) ∧
      ∀ queueName, unlimited s.db queueName → unlimited s'.db queueName := by
  intro n
  unfold materializeSchedule at h
  rw [row, Option.filter_some, if_pos (by simp [unpaused])] at h
  have hinstants := materializeOccurrences_instants ⟨_, get?_put_self _ _ _, rfl⟩ h
  refine ⟨?_, hinstants⟩
  rw [materializeOccurrences_keeps h]
  exact get?_put_self _ _ _

/-! ## The other schedules of a sweep -/

structure SameSchedule (id : Uuid) (db db' : Database) : Prop where
  row : db'.schedules.get? id = db.schedules.get? id
  instants : ∀ o, materialized db' id o = true ↔ materialized db id o = true

theorem SameSchedule.refl (id : Uuid) (db : Database) : SameSchedule id db db := ⟨rfl, fun _ => Iff.rfl⟩

theorem SameSchedule.trans {db'' : Database} (first : SameSchedule id db db')
    (second : SameSchedule id db' db'') : SameSchedule id db db'' :=
  ⟨second.row.trans first.row, fun o => (second.instants o).trans (first.instants o)⟩

section Rows

variable {calendar : Calendar} {refuses : Uuid × Schedule → Option PostgresError} {now : Timestamp}
  {row : Uuid × Schedule} {rows : List (Uuid × Schedule)} {swept : Swept} {total total' : Nat}
  {log : List (Uuid × Swept)} {count skipped : Nat}

theorem sweepRow_other (claimed : Claimed s row) (hne : row.1 ≠ id)
    (h : sweepRow calendar refuses now e row s = .ok (swept, s')) :
    SameSchedule id s.db s'.db ∧ ∀ queueName, unlimited s.db queueName → unlimited s'.db queueName := by
  obtain ⟨occurrences, next, n, hcall⟩ := sweepRow_call h
  obtain ⟨-, hinstants, hunlimited⟩ := materializeSchedule_instants claimed.1 claimed.2 hcall
  refine ⟨⟨materializeSchedule_schedules hcall id (Ne.symm hne), fun o => ?_⟩, hunlimited⟩
  rw [hinstants]
  simp [Ne.symm hne]

theorem sweepRows_log (h : sweepRows calendar refuses now e rows total s = .ok ((total', log), s')) :
    log.map Prod.fst = rows.map Prod.fst := by
  induction rows generalizing total s log with
  | nil =>
    cases h
    rfl
  | cons row rows ih =>
    obtain ⟨swept, s1, total1, log1, -, -, hrows, rfl⟩ := sweepRows_cons h
    rw [map_cons, map_cons, ih hrows]

theorem sweepRows_others (h : sweepRows calendar refuses now e rows total s = .ok ((total', log), s'))
    (claimed : AllClaimed s rows) (hid : id ∉ rows.map Prod.fst) : SameSchedule id s.db s'.db := by
  refine (sweepRows_rule (P := fun rows s1 => AllClaimed s1 rows ∧ id ∉ rows.map Prod.fst ∧
    SameSchedule id s.db s1.db) h ⟨claimed, hid, .refl _ _⟩ ?_).2.2
  rintro row rest s1 s2 swept - hrow ⟨claimed, hid, same⟩
  rw [map_cons, mem_cons, not_or] at hid
  exact ⟨claimed.tail hrow, hid.2, same.trans (sweepRow_other claimed.head (Ne.symm hid.1) hrow).1⟩

theorem sweepRows_round (h : sweepRows calendar refuses now e rows total s = .ok ((total', log), s'))
    (claimed : AllClaimed s rows) (hlog : (id, .materialized count skipped) ∈ log) :
    ∃ c s1 s2, (id, c) ∈ rows ∧ SameSchedule id s.db s1.db ∧
      (∀ queueName, unlimited s.db queueName → unlimited s1.db queueName) ∧
      sweepRow calendar refuses now e (id, c) s1 = .ok (.materialized count skipped, s2) ∧
      SameSchedule id s2.db s'.db := by
  induction rows generalizing total s log with
  | nil =>
    cases h
    cases hlog
  | cons row rows ih =>
    obtain ⟨swept, s1, total1, log1, hrow, -, hrows, rfl⟩ := sweepRows_cons h
    have hrest := claimed.tail hrow
    rcases mem_cons.mp hlog with heq | hlog
    · obtain ⟨rfl, rfl⟩ := Prod.mk.inj heq
      exact ⟨row.2, s, s1, mem_cons_self, .refl _ _, fun _ hu => hu, hrow,
        sweepRows_others hrows hrest claimed.notMem⟩
    · have hne : row.1 ≠ id := by
        rintro rfl
        apply claimed.notMem
        rw [← sweepRows_log hrows]
        exact List.mem_map_of_mem hlog
      obtain ⟨hsame, hunlimited⟩ := sweepRow_other claimed.head hne hrow
      obtain ⟨c, s2, s3, hc, hbefore, hstill, hround, hafter⟩ := ih hrows hrest hlog
      exact ⟨c, s2, s3, mem_cons_of_mem _ hc, hsame.trans hbefore,
        fun queueName hu => hstill queueName (hunlimited queueName hu), hround, hafter⟩

end Rows

/-! ## Sweeps of a backlog -/

section Sweeps

def SweepsSchedule (server : Server) (calendar : Calendar) (now : Timestamp) (id : Uuid) (w w' : World)
    (skipped : Nat) : Prop :=
  ∃ refuses claimedAt limit total log count,
    sweep server calendar refuses now claimedAt limit w = (.ok (total, log), w') ∧
      (id, Swept.materialized count skipped) ∈ log

structure SweepReport where
  cursor : Timestamp
  skipped : Nat

/-- Sweeps at one instant until nothing is due. In between the queue may change, but neither the
schedule nor the instants that have a task. -/
inductive Sweeps (server : Server) (calendar : Calendar) (now : Timestamp) (id : Uuid) :
    World → List SweepReport → World → Prop
  | last {w w' : World} {c c' : Schedule} {skipped : Nat} (row : w.db.schedules.get? id = some c)
      (due : c.nextRunAt ≤ now) (sweep : SweepsSchedule server calendar now id w w' skipped)
      (row' : w'.db.schedules.get? id = some c') (done : now < c'.nextRunAt) :
      Sweeps server calendar now id w [⟨c.nextRunAt, skipped⟩] w'
  | more {w w₁ w₂ w' : World} {c : Schedule} {skipped : Nat} {reports : List SweepReport}
      (row : w.db.schedules.get? id = some c) (due : c.nextRunAt ≤ now)
      (sweep : SweepsSchedule server calendar now id w w₁ skipped) (same : SameSchedule id w₁.db w₂.db)
      (rest : Sweeps server calendar now id w₂ reports w') :
      Sweeps server calendar now id w (⟨c.nextRunAt, skipped⟩ :: reports) w'

def Created (id : Uuid) (db db' : Database) (o : Timestamp) : Prop :=
  materialized db id o = false ∧ materialized db' id o = true

def World.unlimited (w : World) (queueName : String) : World :=
  { w with db := { w.db with
      queues := w.db.queues.adjust queueName fun q => { q with maxOutstandingTasks := none } } }

/-- After the first sweep the occurrences still due are within the limit, as far as they are counted, and
what the limit of a sweep reaches beyond the first occurrences has a task already. -/
structure WithinLimit (d : Core.ScheduleDefinition) (limit : Nat) (backlog : List Timestamp) (id : Uuid)
    (db : Database) (reports : List SweepReport) : Prop where
  counted : ∀ r ∈ reports.tail, d.counted (backlog.countP (r.cursor ≤ ·)) ≤ limit
  reached : ∀ r ∈ reports, ∀ o ∈ (backlog.take (backlog.countP (· < r.cursor) + limit)).drop limit,
    materialized db id o = true

variable {server : Server} {calendar : Calendar} {now : Timestamp} {w w' w₁ : World} {c : Schedule}
  {d : Core.ScheduleDefinition} {limit : Core.NonZeroU16} {backlog : List Timestamp} {skipped : Nat}
  {reports : List SweepReport}

theorem planSchedule_materialize {refuses : Uuid × Schedule → Option PostgresError}
    {schedule : ScheduleRecord} {m : Core.Materialization} {policy : Core.MisfirePolicy}
    (hplan : planSchedule calendar refuses now (id, c) = .ok (schedule, m))
    (hd : decodeDefinition calendar c.definition = .ok d)
    (hpolicy : decodeMisfirePolicy c.definition = .ok policy) :
    d.materialize calendar c.nextRunAt now policy = .ok m := by
  obtain ⟨hdecode, hm⟩ := planSchedule_ok hplan
  obtain ⟨hdefinition, hpolicy', -, hcursor⟩ := tryFrom_decodes hdecode
  rwa [← Except.ok.inj (hd.symm.trans hdefinition), ← Except.ok.inj (hpolicy.symm.trans hpolicy'), hcursor] at hm

structure Backlog (calendar : Calendar) (now : Timestamp) (c : Schedule) (d : Core.ScheduleDefinition)
    (limit : Core.NonZeroU16) (backlog : List Timestamp) : Prop where
  definition : decodeDefinition calendar c.definition = .ok d
  policy : decodeMisfirePolicy c.definition = .ok (.catchUp limit)
  due : d.Due calendar now c.nextRunAt backlog

theorem SweepsSchedule.spec (h : SweepsSchedule server calendar now id w w' skipped)
    (row : w.db.schedules.get? id = some c) (hc : Backlog calendar now c d limit backlog)
    (hdue : c.nextRunAt ≤ now) :
    skipped = d.counted backlog.length - limit.get ∧ ∃ n next, now < next ∧
      w'.db.schedules.get? id = some { c with nextRunAt := (backlog.take limit.get)[n]?.getD next } ∧
      (∀ o, materialized w'.db id o = true ↔
        materialized w.db id o = true ∨ o ∈ (backlog.take limit.get).take n) ∧
      (unlimited w.db c.definition.queueName → (backlog.take limit.get).length ≤ n) := by
  obtain ⟨refuses, claimedAt, count, total, log, created, hsweep, hlog⟩ := h
  obtain ⟨rows, -, claimed, -, hswept⟩ := sweep_ok (congrArg Prod.fst hsweep)
  rw [hsweep] at hswept
  obtain ⟨c', s1, s2, hmem, hbefore, hunlimited, hround, hafter⟩ :=
    sweepRows_round hswept claimed hlog
  obtain ⟨hclaimed, hunpaused⟩ := claimed.all _ hmem
  obtain rfl : c = c' := Option.some.inj (row.symm.trans hclaimed)
  have hrow : s1.db.schedules.get? id = some c := hbefore.row.trans hclaimed
  obtain ⟨schedule, m, n, hplan, heq, hcall⟩ : ∃ schedule m n,
      planSchedule calendar refuses now (id, c) = .ok (schedule, m) ∧ skipped = m.skipped ∧
        materializeSchedule (server.envAt claimedAt) id c.nextRunAt m.occurrences m.nextRunAt s1 =
          .ok (n, s2) := by
    rcases sweepRow_cases hround with ⟨schedule, m, n, hplan, heq, hcall⟩ | ⟨heq, -⟩
    · cases heq
      exact ⟨schedule, m, _, hplan, rfl, hcall⟩
    · cases heq
  have hmaterialize := planSchedule_materialize hplan hc.definition hc.policy
  obtain ⟨hoccurrences, hskipped, hnext⟩ :=
    hc.due.materialize (decodeDefinition_spec hc.definition).1 hdue hmaterialize
  rw [hoccurrences] at hcall
  obtain ⟨hcursor, hinstants, -⟩ := materializeSchedule_instants hrow hunpaused hcall
  refine ⟨heq.trans hskipped, _, m.nextRunAt, hnext, hafter.row.trans hcursor, fun o => ?_, fun hu => ?_⟩
  · rw [show w'.db = w'.session.db from rfl, hafter.instants, hinstants, hbefore.instants]
    simp [World.session_db]
  · have hlimit := hunlimited _ hu
    unfold allowedCount
    cases hq : s1.db.queues.get? c.definition.queueName with
    | none => exact le_refl _
    | some q =>
      simp only [hlimit q hq]
      exact le_refl _

theorem Backlog.sorted (hc : Backlog calendar now c d limit backlog) :
    backlog.Pairwise (· < ·) ∧ ∀ o ∈ backlog, c.nextRunAt ≤ o ∧ o ≤ now :=
  hc.due.sorted (decodeDefinition_spec hc.definition).1

theorem Backlog.drop (hc : Backlog calendar now c d limit backlog) (h : backlog[n]? = some o) :
    Backlog calendar now { c with nextRunAt := o } d limit (backlog.drop n) :=
  ⟨hc.definition, hc.policy, hc.due.drop h⟩

theorem Backlog.countP (hc : Backlog calendar now c d limit backlog) :
    backlog.countP (c.nextRunAt ≤ ·) = backlog.length ∧ backlog.countP (· < c.nextRunAt) = 0 := by
  refine ⟨countP_eq_length.mpr fun o ho => ?_, countP_eq_zero.mpr fun o ho => ?_⟩
  · exact decide_eq_true (hc.sorted.2 o ho).1
  · simpa using (hc.sorted.2 o ho).1

theorem countP_drop {cursor : Timestamp} (sorted : backlog.Pairwise (· < ·))
    (h : backlog[n]? = some o) (hcursor : o ≤ cursor) :
    backlog.countP (cursor ≤ ·) = (backlog.drop n).countP (cursor ≤ ·) ∧
      backlog.countP (· < cursor) = n + (backlog.drop n).countP (· < cursor) := by
  obtain ⟨hn, rfl⟩ := List.getElem?_eq_some_iff.mp h
  have hpassed : ∀ x ∈ backlog.take n, x < cursor := by
    intro x hx
    obtain ⟨i, hi, rfl⟩ := mem_take_iff_getElem.mp hx
    exact (pairwise_iff_getElem.mp sorted i n _ hn (by omega)).trans_le hcursor
  have hnone : (backlog.take n).countP (cursor ≤ ·) = 0 :=
    countP_eq_zero.mpr fun x hx => by simpa using hpassed x hx
  have hall : (backlog.take n).countP (· < cursor) = n := by
    rw [countP_eq_length.mpr fun x hx => decide_eq_true (hpassed x hx), length_take]
    omega
  constructor
  · nth_rewrite 1 [← take_append_drop n backlog]
    rw [countP_append, hnone, zero_add]
  · nth_rewrite 1 [← take_append_drop n backlog]
    rw [countP_append, hall]

theorem Sweeps.start (sweeps : Sweeps server calendar now id w reports w') :
    ∃ c skipped rest, w.db.schedules.get? id = some c ∧ c.nextRunAt ≤ now ∧
      reports = ⟨c.nextRunAt, skipped⟩ :: rest := by
  cases sweeps with
  | last row due => exact ⟨_, _, _, row, due, rfl⟩
  | more row due => exact ⟨_, _, _, row, due, rfl⟩

theorem Sweeps.spec (sweeps : Sweeps server calendar now id w reports w')
    (row : w.db.schedules.get? id = some c) (hc : Backlog calendar now c d limit backlog) :
    (∀ r ∈ reports, c.nextRunAt ≤ r.cursor ∧
      r.skipped = d.counted (backlog.countP (r.cursor ≤ ·)) - limit.get) ∧
      ∀ o, materialized w'.db id o = true ↔ materialized w.db id o = true ∨
        ∃ r ∈ reports, o ∈ backlog.take (backlog.countP (· < r.cursor) + limit.get) := by
  induction sweeps generalizing c backlog with
  | last row0 hdue sweep row' done =>
    cases row0.symm.trans row
    obtain ⟨hskipped, n, next, -, hcursor, hinstants, -⟩ := sweep.spec row hc hdue
    cases hcursor.symm.trans row'
    -- An occurrence that is left would be due.
    have hall : (backlog.take limit.get).length ≤ n := by
      by_contra hlt
      have hn := List.getElem?_eq_getElem (Nat.not_le.mp hlt)
      have hmem := mem_of_mem_take (mem_of_getElem? hn)
      rw [hn] at done
      exact absurd (hc.sorted.2 _ hmem).2 (not_le.mpr done)
    rw [take_of_length_le hall] at hinstants
    simp [hc.countP, hskipped, hinstants]
  | @more w w₁ w2 w' c0 skipped reports row0 hdue sweep same rest ih =>
    cases row0.symm.trans row
    obtain ⟨hskipped, n, next, hnext, hcursor, hinstants, -⟩ := sweep.spec row hc hdue
    obtain ⟨c2, skipped2, tail, hrow2, hdue2, hreports⟩ := rest.start
    cases (same.row.trans hcursor).symm.trans hrow2
    cases hn : (backlog.take limit.get)[n]? with
    | none =>
      rw [hn] at hdue2
      exact absurd hdue2 (not_le.mpr hnext)
    | some o =>
      rw [hn, Option.getD_some] at hrow2 hreports
      obtain ⟨hlimit, hn⟩ : n < limit.get ∧ backlog[n]? = some o := by
        rw [List.getElem?_take] at hn
        split at hn
        · exact ⟨‹_›, hn⟩
        · cases hn
      obtain ⟨hrest, htasks⟩ := ih hrow2 (hc.drop hn)
      have hge : c0.nextRunAt ≤ o := (hc.sorted.2 o (mem_of_getElem? hn)).1
      have hcounts := fun r hr => countP_drop hc.sorted.1 hn (hrest r hr).1
      refine ⟨forall_mem_cons.mpr ⟨⟨le_refl _, ?_⟩, fun r hr => ⟨hge.trans (hrest r hr).1, ?_⟩⟩,
        fun x => ?_⟩
      · rw [hc.countP.1]
        exact hskipped
      · rw [(hcounts r hr).1]
        exact (hrest r hr).2
      · rw [htasks, same.instants, hinstants, or_assoc, List.take_take, Nat.min_eq_left hlimit.le]
        refine or_congr_right (Iff.trans ?_ (exists_mem_cons_iff _ _ _).symm)
        rw [hc.countP.2, zero_add]
        -- The occurrences that were admitted, and then those of a later sweep.
        have hsplit : ∀ r ∈ reports, x ∈ backlog.take (backlog.countP (· < r.cursor) + limit.get) ↔
            x ∈ backlog.take n ∨ x ∈ (backlog.drop n).take ((backlog.drop n).countP (· < r.cursor) + limit.get) := by
          intro r hr
          rw [(hcounts r hr).2, Nat.add_assoc, take_add, mem_append]
        constructor
        · rintro (hx | ⟨r, hr, hx⟩)
          · exact .inl (take_subset_take_left _ hlimit.le hx)
          · exact .inr ⟨r, hr, (hsplit r hr).mpr (.inr hx)⟩
        · rintro (hx | ⟨r, hr, hx⟩)
          · have hr : (⟨o, skipped2⟩ : SweepReport) ∈ reports := by simp [hreports]
            exact ((hsplit _ hr).mp (take_subset_take_left _ (Nat.le_add_left _ _) hx)).imp_right
              fun hx => ⟨_, hr, hx⟩
          · exact ((hsplit r hr).mp hx).imp_right fun hx => ⟨r, hr, hx⟩

theorem sum_skipped_iff (first : SweepReport) (rest : List SweepReport) :
    ((first :: rest).map SweepReport.skipped).sum = first.skipped ↔ ∀ r ∈ rest, r.skipped = 0 := by
  rw [map_cons, sum_cons, Nat.add_eq_left]
  induction rest with
  | nil => simp
  | cons r rest ih => rw [map_cons, sum_cons, Nat.add_eq_zero_iff, ih, forall_mem_cons]

theorem created_iff {db1 : Database} {reach : SweepReport → Nat} (hne : reports ≠ [])
    (nodup : backlog.Nodup)
    (hmany : ∀ o, materialized db' id o = true ↔ materialized db id o = true ∨
      ∃ r ∈ reports, o ∈ backlog.take (reach r + n))
    (hone : ∀ o, materialized db1 id o = true ↔ materialized db id o = true ∨ o ∈ backlog.take n) :
    (∀ o, Created id db db' o ↔ Created id db db1 o) ↔
      ∀ r ∈ reports, ∀ o ∈ (backlog.take (reach r + n)).drop n, materialized db id o = true := by
  constructor
  · intro h r hr o ho
    by_contra hfree
    have hfree := Bool.eq_false_iff.mpr hfree
    obtain ⟨-, htask⟩ := (h o).mp ⟨hfree, (hmany o).mpr (.inr ⟨r, hr, List.mem_of_mem_drop ho⟩)⟩
    rw [hone, hfree] at htask
    have hfirst := htask.resolve_left Bool.false_ne_true
    rw [drop_take] at ho
    exact List.disjoint_take_drop nodup (le_refl n) hfirst (mem_of_mem_take ho)
  · intro h o
    refine and_congr_right fun hfree => ?_
    rw [hmany, hone]
    refine or_congr_right ⟨?_, fun ho => ?_⟩
    · rintro ⟨r, hr, ho⟩
      rw [Nat.add_comm, take_add, mem_append] at ho
      rcases ho with ho | ho
      · exact ho
      · have hold := h r hr o (by rw [drop_take, Nat.add_sub_cancel]; exact ho)
        rw [hfree] at hold
        cases hold
    · obtain ⟨r, hr⟩ := exists_mem_of_ne_nil reports hne
      exact ⟨r, hr, take_subset_take_left _ (Nat.le_add_left _ _) ho⟩

/-- The sweeps of a backlog create the tasks that one sweep without a limit creates, and report the same
number of skipped occurrences, exactly when the backlog stays within the limit. -/
theorem catch_up_split_iff (server : Server) (calendar : Calendar) (now : Timestamp) (id : Uuid)
    (w w' w₁ : World) (c : Schedule) (d : Core.ScheduleDefinition) (limit : Core.NonZeroU16)
    (backlog : List Timestamp) (reports : List SweepReport) (skipped : Nat)
    (row : w.db.schedules.get? id = some c) (hc : Backlog calendar now c d limit backlog)
    (sweeps : Sweeps server calendar now id w reports w')
    (single : SweepsSchedule server calendar now id (w.unlimited c.definition.queueName) w₁ skipped) :
    ((∀ o, Created id w.db w'.db o ↔ Created id w.db w₁.db o) ∧
        (reports.map SweepReport.skipped).sum = skipped ↔
      WithinLimit d limit.get backlog id w.db reports) ∧
      (backlog.length ≤ limit.get → WithinLimit d limit.get backlog id w.db reports) ∧
      ∃ instants : List Timestamp, instants.length ≤ limit.get ∧
        ∀ o, Created id w.db w₁.db o → o ∈ instants := by
  obtain ⟨c', skipped₀, rest, hrow, hdue, rfl⟩ := sweeps.start
  cases row.symm.trans hrow
  obtain ⟨hreports, htasks⟩ := sweeps.spec row hc
  obtain ⟨hskipped, n, next, -, -, hinstants, hall⟩ := single.spec row hc hdue
  have hunlimited : unlimited (w.unlimited c.definition.queueName).db c.definition.queueName := by
    intro q hq
    unfold World.unlimited at hq
    rw [get?_adjust, if_pos rfl] at hq
    obtain ⟨q₀, -, rfl⟩ := Option.map_eq_some_iff.mp hq
    rfl
  rw [take_of_length_le (hall hunlimited)] at hinstants
  have hold : ∀ o, materialized (w.unlimited c.definition.queueName).db id o = materialized w.db id o :=
    fun _ => rfl
  have hfirst : skipped₀ = skipped := by
    have := (hreports _ mem_cons_self).2
    rw [hc.countP.1] at this
    exact this.trans hskipped.symm
  have hcreated : (∀ o, Created id w.db w'.db o ↔ Created id w.db w₁.db o) ↔
      ∀ r ∈ ⟨c.nextRunAt, skipped₀⟩ :: rest,
        ∀ o ∈ (backlog.take (backlog.countP (· < r.cursor) + limit.get)).drop limit.get,
          materialized w.db id o = true :=
    created_iff (cons_ne_nil _ _) (hc.sorted.1.imp ne_of_lt) htasks (fun o => by rw [hinstants, hold])
  have hsum : ((⟨c.nextRunAt, skipped₀⟩ :: rest).map SweepReport.skipped).sum = skipped ↔
      ∀ r ∈ rest, d.counted (backlog.countP (r.cursor ≤ ·)) ≤ limit.get := by
    rw [← hfirst, sum_skipped_iff]
    refine forall₂_congr fun r hr => ?_
    rw [(hreports r (mem_cons_of_mem _ hr)).2, Nat.sub_eq_zero_iff_le]
  refine ⟨?_, fun hle => ⟨fun r hr => ?_, fun r hr o ho => ?_⟩, backlog.take limit.get, ?_, fun o ho => ?_⟩
  · rw [hcreated, hsum]
    exact ⟨fun h => ⟨h.2, h.1⟩, fun h => ⟨h.reached, h.counted⟩⟩
  · exact (Core.ScheduleDefinition.counted_le _).trans (List.countP_le_length.trans hle)
  · rw [List.drop_of_length_le ((List.length_take_le' _ _).trans hle)] at ho
    cases ho
  · exact List.length_take_le _ _
  · obtain ⟨hfree, htask⟩ := ho
    rw [hinstants, hold, hfree] at htask
    exact htask.resolve_left Bool.false_ne_true

end Sweeps

/-! ## Three occurrences in a queue of two -/

def secondly (limit : Int) : ScheduleDefinition :=
  { kind := .interval, intervalMilliseconds := some 1000, cronExpression := none
    misfirePolicy := .catchUp, catchUpLimit := some limit, queueName := "default", taskName := "a"
    handlerVersion := 1, payload := .null, headers := .obj [], priority := 0, maxAttempts := 5 }

def limitedWorld (limit : Int) : World :=
  run countingServer [⟨0, .putQueue "default" ⟨604800, 2592000, some 2, 300⟩⟩,
    ⟨0, .enqueue { taskName := "b", payload := some .null }⟩,
    ⟨0, .putSchedule (Uuid.ofNat 50) "s" (secondly limit) 0⟩]

def sweptWorld (w : World) : World :=
  (sweep countingServer plainCalendar (fun _ => none) 2000000 2000000 100 w).2

def freedWorld (w : World) : World :=
  runFrom countingServer w [⟨2000000, .adminCancelTask (Uuid.ofNat 1) (some "admin")⟩,
    ⟨2000000, .adminCancelTask (Uuid.ofNat 2) (some "admin")⟩]

theorem sweepsSchedule_of_log {w : World} {skipped : Nat} (count : Nat)
    (h : ((sweep countingServer plainCalendar (fun _ => none) 2000000 2000000 100 w).1.toOption.any fun x =>
      x.2.contains (id, .materialized count skipped)) = true) :
    SweepsSchedule countingServer plainCalendar 2000000 id w (sweptWorld w) skipped := by
  obtain ⟨⟨total, log⟩, hsweep, hlog⟩ := (Option.any_eq_true _ _).mp h
  refine ⟨fun _ => none, 2000000, 100, total, log, count, Prod.ext ?_ rfl, contains_iff_mem.mp hlog⟩
  cases hresult : (sweep countingServer plainCalendar (fun _ => none) 2000000 2000000 100 w).1 with
  | error error =>
    rw [hresult] at hsweep
    cases hsweep
  | ok x =>
    rw [hresult] at hsweep
    cases hsweep
    rfl

theorem sameSchedule_of_instants (row : db'.schedules.get? id = db.schedules.get? id)
    (h : db'.tasks.rows.map (fun x => x.2.instant) = db.tasks.rows.map (fun x => x.2.instant)) :
    SameSchedule id db db' := by
  have hcontains : ∀ (db : Database) (o : Timestamp), materialized db id o = true ↔
      (some id, some o) ∈ db.tasks.rows.map fun x => x.2.instant := by
    intro db o
    simp [materialized, Task.instant]
  exact ⟨row, fun o => by rw [hcontains, hcontains, h]⟩

theorem secondly_due : Core.ScheduleDefinition.Due plainCalendar (.interval 1000000000) 2000000 0
    [0, 1000000, 2000000] :=
  .now (by decide) rfl (.now (by decide) rfl (.now (by decide) rfl (.later (by decide))))

theorem limitedWorld_sweeps {limit : Int} (first second : Nat)
    (row : (limitedWorld limit).db.schedules.get? (Uuid.ofNat 50) =
      some { name := "s", definition := secondly limit, nextRunAt := 0 })
    (hfirst : SweepsSchedule countingServer plainCalendar 2000000 (Uuid.ofNat 50) (limitedWorld limit)
      (sweptWorld (limitedWorld limit)) first)
    (same : SameSchedule (Uuid.ofNat 50) (sweptWorld (limitedWorld limit)).db
      (freedWorld (sweptWorld (limitedWorld limit))).db)
    (row1 : (freedWorld (sweptWorld (limitedWorld limit))).db.schedules.get? (Uuid.ofNat 50) =
      some { name := "s", definition := secondly limit, nextRunAt := 1000000 })
    (hsecond : SweepsSchedule countingServer plainCalendar 2000000 (Uuid.ofNat 50)
      (freedWorld (sweptWorld (limitedWorld limit)))
      (sweptWorld (freedWorld (sweptWorld (limitedWorld limit)))) second)
    (row' : (sweptWorld (freedWorld (sweptWorld (limitedWorld limit)))).db.schedules.get? (Uuid.ofNat 50) =
      some { name := "s", definition := secondly limit, nextRunAt := 3000000 }) :
    Sweeps countingServer plainCalendar 2000000 (Uuid.ofNat 50) (limitedWorld limit)
      [⟨0, first⟩, ⟨1000000, second⟩] (sweptWorld (freedWorld (sweptWorld (limitedWorld limit)))) :=
  .more row (show (0 : Int) ≤ 2000000 by decide) hfirst same
    (.last row1 (show (1000000 : Int) ≤ 2000000 by decide) hsecond row' (show (2000000 : Int) < 3000000 by decide))

theorem catch_up_split_within_limit : let w := limitedWorld 3
    let w' := sweptWorld (freedWorld (sweptWorld w))
    let w₁ := sweptWorld (w.unlimited "default")
    Sweeps countingServer plainCalendar 2000000 (Uuid.ofNat 50) w [⟨0, 0⟩, ⟨1000000, 0⟩] w' ∧
      (∀ o, Created (Uuid.ofNat 50) w.db w'.db o ↔ Created (Uuid.ofNat 50) w.db w₁.db o) ∧
      ([⟨0, 0⟩, ⟨1000000, 0⟩].map SweepReport.skipped).sum = 0 := by
  intro w w' w₁
  have hrow : w.db.schedules.get? (Uuid.ofNat 50) =
      some { name := "s", definition := secondly 3, nextRunAt := 0 } := by decide +kernel
  have sweeps := limitedWorld_sweeps 0 0 hrow (sweepsSchedule_of_log 1 (by decide +kernel))
    (sameSchedule_of_instants (by decide +kernel) (by decide +kernel)) (by decide +kernel)
    (sweepsSchedule_of_log 2 (by decide +kernel)) (by decide +kernel)
  have backlog : Backlog plainCalendar 2000000 { name := "s", definition := secondly 3, nextRunAt := 0 }
      (.interval 1000000000) ⟨3, by decide, by decide⟩ [0, 1000000, 2000000] := ⟨rfl, rfl, secondly_due⟩
  have single : SweepsSchedule countingServer plainCalendar 2000000 (Uuid.ofNat 50) (w.unlimited "default") w₁ 0 :=
    sweepsSchedule_of_log 3 (by decide +kernel)
  obtain ⟨hiff, hwithin, -⟩ := catch_up_split_iff countingServer plainCalendar 2000000 (Uuid.ofNat 50) w w' w₁
    _ _ _ _ _ 0 hrow backlog sweeps single
  exact ⟨sweeps, hiff.mpr (hwithin (by decide))⟩

theorem catch_up_split_over_limit : let w := limitedWorld 2
    let w' := sweptWorld (freedWorld (sweptWorld w))
    let w₁ := sweptWorld (w.unlimited "default")
    Backlog plainCalendar 2000000 { name := "s", definition := secondly 2, nextRunAt := 0 }
        (.interval 1000000000) ⟨2, by decide, by decide⟩ [0, 1000000, 2000000] ∧
      w.db.schedules.get? (Uuid.ofNat 50) = some { name := "s", definition := secondly 2, nextRunAt := 0 } ∧
      Sweeps countingServer plainCalendar 2000000 (Uuid.ofNat 50) w [⟨0, 1⟩, ⟨1000000, 0⟩] w' ∧
      SweepsSchedule countingServer plainCalendar 2000000 (Uuid.ofNat 50) (w.unlimited "default") w₁ 1 ∧
      (∀ o ∈ [0, 1000000, 2000000], Created (Uuid.ofNat 50) w.db w'.db o) ∧
      ¬ Created (Uuid.ofNat 50) w.db w₁.db 2000000 := by
  intro w w' w₁
  have hrow : w.db.schedules.get? (Uuid.ofNat 50) =
      some { name := "s", definition := secondly 2, nextRunAt := 0 } := by decide +kernel
  have sweeps := limitedWorld_sweeps 1 0 hrow (sweepsSchedule_of_log 1 (by decide +kernel))
    (sameSchedule_of_instants (by decide +kernel) (by decide +kernel)) (by decide +kernel)
    (sweepsSchedule_of_log 2 (by decide +kernel)) (by decide +kernel)
  unfold Created
  exact ⟨⟨rfl, rfl, secondly_due⟩, hrow, sweeps, sweepsSchedule_of_log 2 (by decide +kernel), by decide +kernel,
    by decide +kernel⟩

end Pgtask
