import Pgtask.Invariant.Identity
import Pgtask.Worker.Schedule

/-!
# Occurrences

A schedule moves its cursor past every occurrence that it materializes. The
unique index covers only tasks that are still there, so an occurrence comes a
second time exactly when the cursor is set back.
-/

open Sql Checked List Table

namespace Pgtask

variable {d : ScheduleDefinition} {expression : String} {policy : MisfirePolicy}
  {occurrences : List Timestamp} {c : Schedule} {expected next : Timestamp}

variable {calendar : Calendar} {now t t' : Timestamp}

/-! ## The walk over the occurrences -/

namespace Core

/-- The interval has passed its check: whole milliseconds, and not zero. -/
def ScheduleDefinition.Valid : ScheduleDefinition → Prop
  | .interval every => every ≠ 0 ∧ every % 1000000 = 0
  | .cron _ => True

theorem orSchedule_ok {α : Type} {x : Except ScheduleError α} {a : α} (h : orSchedule x = .ok a) :
    x = .ok a := by
  cases x with
  | ok b =>
    cases h
    rfl
  | error => cases h

theorem intervalMilliseconds_pos {every : Nat} {ms : Int} (h : intervalMilliseconds every = .ok ms) :
    0 < ms ∧ every ≠ 0 ∧ every % 1000000 = 0 := by
  unfold intervalMilliseconds at h
  split at h
  · cases h
  · split at h
    · cases h
    · split at h
      · cases h
      · cases h
        omega

theorem ofInterval_valid {every : Nat}
    (h : ScheduleDefinition.ofInterval every = .ok d) : d = .interval every ∧ d.Valid := by
  obtain ⟨ms, hms, h⟩ := bind_ok h
  obtain ⟨delta, -, h⟩ := bind_ok h
  cases h
  exact ⟨rfl, (intervalMilliseconds_pos hms).2⟩

theorem ofCron_eq
    (h : ScheduleDefinition.ofCron calendar expression = .ok d) : d = .cron expression := by
  obtain ⟨next, -, h⟩ := bind_ok h
  cases h
  rfl

theorem parseCron_ok {next : Timestamp → Option Timestamp}
    (h : parseCron calendar expression = .ok next) : ∃ text, calendar.fromStr text = .ok next := by
  unfold parseCron at h
  split at h
  · cases h
  · split at h
    · rename_i next' hparse
      cases h
      exact ⟨_, hparse⟩
    · cases h

theorem checkedAdd_ok {delta : Int} (h : checkedAdd calendar t delta = .ok t') : t' = t + delta := by
  unfold checkedAdd at h
  split at h
  · cases h
    rfl
  · cases h

theorem fromUnixTime_ok {n : Int} (h : fromUnixTime calendar n = .ok t) : t = n * 1000000 := by
  unfold fromUnixTime at h
  split at h
  · cases h
    rfl
  · cases h

namespace ScheduleDefinition

variable {d : ScheduleDefinition}

theorem nextAfter_later (valid : d.Valid) (h : d.nextAfter calendar t = .ok t') : t < t' := by
  cases d with
  | interval every =>
    obtain ⟨delta, hdelta, h⟩ := bind_ok h
    obtain rfl := checkedAdd_ok h
    obtain ⟨hzero, hwhole⟩ := valid
    unfold timeDelta at hdelta
    split at hdelta
    · cases hdelta
    · cases hdelta
      exact Int.lt_add_of_pos_right t (by omega)
  | cron expression =>
    obtain ⟨next, hparse, h⟩ := bind_ok h
    obtain ⟨text, htext⟩ := parseCron_ok hparse
    unfold firstAfter at h
    split at h
    · rename_i hnext
      cases h
      exact calendar.later text next t t' htext hnext
    · cases h

theorem nextAfter_whole
    (h : (ScheduleDefinition.cron expression).nextAfter calendar t = .ok t') : t' % 1000000 = 0 := by
  obtain ⟨next, hparse, h⟩ := bind_ok h
  obtain ⟨text, htext⟩ := parseCron_ok hparse
  unfold firstAfter at h
  split at h
  · rename_i hnext
    cases h
    exact calendar.whole text next t t' htext hnext
  · cases h

theorem bisect_ge {next : Timestamp → Option Timestamp} {low high n : Int}
    (h : bisect calendar next now low high = .ok n) : low ≤ n := by
  unfold bisect at h
  split at h
  · obtain ⟨t, -, h⟩ := bind_ok h
    obtain ⟨occurrence, -, h⟩ := bind_ok h
    split at h
    · have := bisect_ge h
      omega
    · exact bisect_ge h
  · cases h
    exact le_refl _
termination_by (high - low).toNat

/-- The earliest instant that a cursor can lead to. The search for the latest occurrence of a cron
expression starts at the second of the cursor. -/
def earliest (d : ScheduleDefinition) (policy : MisfirePolicy) (cursor : Timestamp) : Timestamp :=
  match d, policy with
  | .cron _, .latest => unixTime cursor * 1000000
  | _, _ => cursor

theorem earliest_le (d : ScheduleDefinition) (policy : MisfirePolicy) (cursor : Timestamp) :
    d.earliest policy cursor ≤ cursor := by
  unfold earliest unixTime
  split
  · exact Int.ediv_mul_le cursor (by decide)
  · exact le_refl _

/-- The cursor is its own earliest instant: a whole second wherever seconds matter. -/
def Exact (d : ScheduleDefinition) (policy : MisfirePolicy) (cursor : Timestamp) : Prop :=
  d.earliest policy cursor = cursor

theorem exact_of_whole (h : t % 1000000 = 0) : d.Exact policy t := by
  unfold Exact earliest unixTime
  split
  · exact Int.ediv_mul_cancel (Int.dvd_of_emod_eq_zero h)
  · rfl

theorem nextAfter_exact (h : d.nextAfter calendar t = .ok t') : d.Exact policy t' := by
  cases d with
  | interval every => rfl
  | cron expression => exact exact_of_whole (nextAfter_whole h)

theorem intervals_le {elapsed ms : Int} (positive : 0 < ms) (h : 0 ≤ elapsed) :
    0 ≤ milliseconds (elapsed.tdiv 1000 / ms * ms) ∧
      milliseconds (elapsed.tdiv 1000 / ms * ms) ≤ elapsed := by
  rw [Int.tdiv_eq_ediv_of_nonneg h, milliseconds]
  have hwhole : 0 ≤ elapsed / 1000 := Int.ediv_nonneg h (by decide)
  have hcount : 0 ≤ elapsed / 1000 / ms * ms :=
    Int.mul_nonneg (Int.ediv_nonneg hwhole positive.le) positive.le
  have hle : elapsed / 1000 / ms * ms ≤ elapsed / 1000 := Int.ediv_mul_le _ positive.ne'
  omega

theorem latestDue_spec (due : t ≤ now) (h : d.latestDue calendar t now = .ok t') :
    d.earliest .latest t ≤ t' ∧ t' ≤ now ∧ d.Exact .latest t' := by
  cases d with
  | interval every =>
    obtain ⟨ms, hms, h⟩ := bind_ok h
    obtain rfl := checkedAdd_ok h
    obtain ⟨hnonneg, hle⟩ := intervals_le (intervalMilliseconds_pos hms).1 (Int.sub_nonneg_of_le due)
    exact ⟨Int.le_add_of_nonneg_right hnonneg, Int.add_le_of_le_sub_left hle, rfl⟩
  | cron expression =>
    obtain ⟨next, hparse, h⟩ := bind_ok h
    obtain ⟨text, htext⟩ := parseCron_ok hparse
    obtain ⟨n, hn, h⟩ := bind_ok h
    obtain ⟨low, hlow, h⟩ := bind_ok h
    obtain rfl := fromUnixTime_ok hlow
    split at h
    · rename_i occurrence hnext
      cases h
      obtain ⟨hnext, hdue⟩ := Option.filter_eq_some_iff.mp hnext
      have hafter := calendar.later text next _ _ htext hnext
      have hwhole := calendar.whole text next _ _ htext hnext
      refine ⟨?_, of_decide_eq_true hdue, exact_of_whole hwhole⟩
      have hge := bisect_ge hn
      -- A whole second after the second before the cursor.
      have hsecond : t' / 1000000 * 1000000 = t' :=
        Int.ediv_mul_cancel (Int.dvd_of_emod_eq_zero hwhole)
      show unixTime t * 1000000 ≤ t'
      rw [← hsecond] at hafter ⊢
      generalize t' / 1000000 = q, unixTime t = n0 at hafter hge ⊢
      have : n0 - 1 < q := hge.trans_lt (Int.lt_of_mul_lt_mul_right hafter (by decide))
      exact Int.mul_le_mul_of_nonneg_right (by omega) (by decide)
    · cases h

theorem catchUp_spec {limit : Nat} (valid : d.Valid)
    (h : d.catchUp calendar now limit t = .ok occurrences) :
    occurrences.Pairwise (· < ·) ∧ ∀ o ∈ occurrences, t ≤ o ∧ o ≤ now := by
  induction limit generalizing t occurrences with
  | zero =>
    cases h
    exact ⟨.nil, by simp⟩
  | succ limit ih =>
    unfold catchUp at h
    split at h
    · rename_i hdue
      obtain ⟨next, hnext, h⟩ := bind_ok h
      obtain ⟨rest, hrest, h⟩ := bind_ok h
      cases h
      obtain ⟨hsorted, hrange⟩ := ih hrest
      have hlater := nextAfter_later valid hnext
      refine ⟨pairwise_cons.mpr ⟨fun o ho => hlater.trans_le (hrange o ho).1, hsorted⟩, ?_⟩
      rw [forall_mem_cons]
      exact ⟨⟨le_refl t, hdue⟩, fun o ho => ⟨hlater.le.trans (hrange o ho).1, (hrange o ho).2⟩⟩
    · cases h
      exact ⟨.nil, by simp⟩

theorem dueOccurrences_spec (valid : d.Valid)
    (due : t ≤ now) (h : d.dueOccurrences calendar t now policy = .ok occurrences) :
    occurrences.Pairwise (· < ·) ∧
      ∀ o ∈ occurrences, d.earliest policy t ≤ o ∧ o ≤ now ∧ d.Exact policy o := by
  cases policy with
  | skip =>
    cases h
    have hexact : ∀ cursor, d.earliest .skip cursor = cursor := by cases d <;> exact fun _ => rfl
    simp [Exact, hexact, due]
  | latest =>
    obtain ⟨o, ho, h⟩ := bind_ok h
    cases h
    have hspec := latestDue_spec due ho
    simp [hspec]
  | catchUp limit =>
    obtain ⟨hsorted, hrange⟩ := catchUp_spec valid h
    have hexact : ∀ cursor, d.earliest (.catchUp limit) cursor = cursor := by
      cases d <;> exact fun _ => rfl
    refine ⟨hsorted, fun o ho => ⟨?_, (hrange o ho).2, hexact o⟩⟩
    rw [hexact]
    exact (hrange o ho).1

theorem materialize_spec {m : Materialization} (valid : d.Valid)
    (h : d.materialize calendar t now policy = .ok m) (n : Nat) :
    d.earliest policy t ≤ d.earliest policy (m.occurrences[n]?.getD m.nextRunAt) ∧
      ∀ o ∈ m.occurrences.take n, d.earliest policy t ≤ o ∧
        o < d.earliest policy (m.occurrences[n]?.getD m.nextRunAt) := by
  unfold materialize at h
  split at h
  · cases h
    simp
  · rename_i hdue
    have due : t ≤ now := Int.not_lt.mp hdue
    obtain ⟨occurrences, hoccurrences, h⟩ := bind_ok h
    obtain ⟨count, -, h⟩ := bind_ok h
    obtain ⟨next, hnext, h⟩ := bind_ok h
    cases h
    obtain ⟨hsorted, hrange⟩ := dueOccurrences_spec valid due hoccurrences
    have hlater := nextAfter_later valid hnext
    have hexact : d.earliest policy next = next := nextAfter_exact hnext
    dsimp only
    cases hn : occurrences[n]? with
    | none =>
      rw [Option.getD_none, hexact]
      refine ⟨((earliest_le d policy t).trans due).trans hlater.le, fun o ho => ?_⟩
      obtain ⟨hge, hle, -⟩ := hrange o (mem_of_mem_take ho)
      exact ⟨hge, hle.trans_lt hlater⟩
    | some cursor =>
      -- The queue is full: the first occurrence that has to wait is the cursor.
      obtain ⟨hlt, rfl⟩ := List.getElem?_eq_some_iff.mp hn
      obtain ⟨hge, -, hcursor⟩ := hrange _ (List.getElem_mem hlt)
      rw [Option.getD_some, show d.earliest policy occurrences[n] = occurrences[n] from hcursor]
      refine ⟨hge, fun o ho => ⟨(hrange o (mem_of_mem_take ho)).1, ?_⟩⟩
      obtain ⟨i, hi, rfl⟩ := mem_take_iff_getElem.mp ho
      exact pairwise_iff_getElem.mp hsorted i n _ hlt (by omega)

end ScheduleDefinition

end Core

/-! ## Cursors -/

variable {server : Server} {rs : List Request} {r : Request} {w : World} {id : Uuid}

def Schedule.earliest (c : Schedule) : Timestamp :=
  if c.definition.kind = .cron ∧ c.definition.misfirePolicy = .latest then
    unixTime c.nextRunAt * 1000000
  else c.nextRunAt

theorem decodeDefinition_spec {definition : Core.ScheduleDefinition}
    (h : decodeDefinition calendar d = .ok definition) :
    definition.Valid ∧ ((∃ expression, definition = .cron expression) ↔ d.kind = .cron) := by
  unfold decodeDefinition at h
  split at h
  · rename_i hkind _ _
    obtain ⟨ms, -, h⟩ := bind_ok h
    obtain ⟨rfl, valid⟩ := Core.ofInterval_valid (Core.orSchedule_ok h)
    exact ⟨valid, by simp [hkind]⟩
  · rename_i hkind _ _
    obtain rfl := Core.ofCron_eq (Core.orSchedule_ok h)
    exact ⟨trivial, by simp [hkind]⟩
  · cases h

theorem decodeMisfirePolicy_spec {policy : Core.MisfirePolicy}
    (h : decodeMisfirePolicy d = .ok policy) : policy = .latest ↔ d.misfirePolicy = .latest := by
  unfold decodeMisfirePolicy at h
  split at h
  · rename_i hpolicy _
    cases h
    simp [hpolicy]
  · rename_i hpolicy _
    cases h
    simp [hpolicy]
  · rename_i hpolicy _
    obtain ⟨limit, -, h⟩ := bind_ok h
    cases h
    simp [hpolicy]
  · cases h

theorem tryFrom_decodes {schedule : ScheduleRecord}
    (h : ScheduleRecord.tryFrom calendar (id, c) = .ok schedule) :
    decodeDefinition calendar c.definition = .ok schedule.config.definition ∧
      decodeMisfirePolicy c.definition = .ok schedule.config.misfirePolicy ∧
      schedule.config.id = id ∧ schedule.nextRunAt = c.nextRunAt := by
  unfold ScheduleRecord.tryFrom at h
  simp only [bind_eq_ok] at h
  obtain ⟨definition, hdefinition, policy, hpolicy, _, -, _, -, _, -, _, -, _, -, _, -, hdone⟩ := h
  cases hdone
  exact ⟨hdefinition, hpolicy, rfl, rfl⟩

theorem tryFrom_earliest {schedule : ScheduleRecord}
    (h : ScheduleRecord.tryFrom calendar (id, c) = .ok schedule) :
    schedule.config.id = id ∧ schedule.nextRunAt = c.nextRunAt ∧ schedule.config.definition.Valid ∧
      ∀ cursor, schedule.config.definition.earliest schedule.config.misfirePolicy cursor =
        Schedule.earliest { c with nextRunAt := cursor } := by
  obtain ⟨hdefinition, hpolicy, hid, hcursor⟩ := tryFrom_decodes h
  obtain ⟨valid, hkind⟩ := decodeDefinition_spec hdefinition
  have hlatest := decodeMisfirePolicy_spec hpolicy
  refine ⟨hid, hcursor, valid, fun cursor => ?_⟩
  cases hd : schedule.config.definition <;> cases hp : schedule.config.misfirePolicy <;>
    simp [Schedule.earliest, Core.ScheduleDefinition.earliest, ← hkind, ← hlatest, hd, hp]

/-- The schedule that a declaration writes: it is new, or its definition changes. -/
def Call.declares (db : Database) : Call → Option (Uuid × Schedule)
  | .putSchedule id name definition nextRunAt =>
    match scheduleNamed db name with
    | some (old, c) =>
      if c.definition = definition then none
      else some (old, { c with definition := definition, nextRunAt := nextRunAt })
    | none => some (id, { name, definition, nextRunAt })
  | _ => none

/-- A call on a schedule is one that the store makes. `Store::put_schedule` has read the time
`asked` before. `materialize_due_schedules` has read it in its first statement and then claimed the
row, which is locked from then on, so the call finds the row as it was claimed. -/
def FromStore (calendar : Calendar) (w : World) (r : Request) : Prop :=
  match r.call with
  | .putSchedule .. => ∃ config asked, asked ≤ r.now ∧ Store.putSchedule calendar config asked = .ok r.call
  | .materializeSchedule id _ _ _ => ∃ c asked claimedAt, asked ≤ claimedAt ∧ claimedAt ≤ r.now ∧
      w.db.schedules.get? id = some c ∧ c.pausedAt = none ∧ c.nextRunAt ≤ claimedAt ∧
      (materializeClaimedSchedule calendar (id, c) asked = .ok r.call ∨
        deferSchedule calendar (id, c) asked = .ok r.call)
  | _ => True

theorem FromStore.cursor
    (h : FromStore calendar w r) (call : r.call = .materializeSchedule id expected occurrences next)
    (forward : occurrences = [] → expected ≤ next) : ∃ c, w.db.schedules.get? id = some c ∧ ∀ n,
      c.earliest ≤ Schedule.earliest { c with nextRunAt := occurrences[n]?.getD next } ∧
        ∀ o ∈ occurrences.take n, c.earliest ≤ o ∧
          o < Schedule.earliest { c with nextRunAt := occurrences[n]?.getD next } := by
  unfold FromStore at h
  rw [call] at h
  obtain ⟨c, asked, claimedAt, -, -, hrow, -, -, h⟩ := h
  refine ⟨c, hrow, fun n => ?_⟩
  rcases h with h | h
  · obtain ⟨schedule, hdecode, h⟩ := bind_ok h
    obtain ⟨m, hm, h⟩ := bind_ok h
    cases h
    obtain ⟨-, hcursor, valid, hearliest⟩ := tryFrom_earliest hdecode
    have hspec := Core.ScheduleDefinition.materialize_spec valid (Core.orSchedule_ok hm) n
    rw [hearliest, hearliest, hcursor] at hspec
    exact hspec
  · obtain ⟨retryAt, -, h⟩ := bind_ok h
    cases h
    refine ⟨?_, by simp⟩
    have hle := forward rfl
    unfold Schedule.earliest unixTime
    dsimp only
    split
    · exact Int.mul_le_mul_of_nonneg_right (Int.ediv_le_ediv (by decide) hle) (by decide)
    · exact hle

/-! ## One step -/

variable {e : Env} {l : Label} {s s' : Session} {db : Database}

def Task.instant (t : Task) : Option Uuid × Option Timestamp := (t.scheduleId, t.scheduledFor)

@[simp] theorem Task.woken_instant (now : Timestamp) (t : Task) :
    (t.woken now).instant = t.instant := by
  unfold Task.woken
  split <;> rfl

theorem RowStep.instant {row : Option Task} {t' : Task} (step : RowStep e db id l row (some t')) :
    (∃ t, row = some t ∧ t'.instant = t.instant) ∨
      row = none ∧ (l = .insert id ∨ l = .materialize id) := by
  generalize hnew : some t' = new at step
  cases step with
  | same => exact .inl ⟨t', hnew.symm, rfl⟩
  | insert _ label => exact .inr ⟨rfl, label⟩
  | wake =>
    obtain ⟨t, rfl, rfl⟩ := Option.map_eq_some_iff.mp hnew.symm
    exact .inl ⟨t, rfl, t.woken_instant e.now⟩
  | delete => cases hnew
  | _ =>
    cases hnew
    exact .inl ⟨_, rfl, rfl⟩

def UniqueOccurrences (db : Database) : Prop :=
  ∀ a b t t' id instant, db.tasks.get? a = some t → db.tasks.get? b = some t' →
    t.instant = (some id, some instant) → t'.instant = (some id, some instant) → a = b

theorem materialized_iff {schedule : Uuid} {instant : Timestamp} :
    materialized db schedule instant = true ↔
      ∃ id t, db.tasks.get? id = some t ∧ t.instant = (some schedule, some instant) := by
  unfold materialized
  simp only [List.any_eq_true, Bool.and_eq_true, decide_eq_true_eq, Prod.exists, mem_rows_iff,
    Task.instant, Prod.mk.injEq]

theorem Effect.instant {t : Task} {schedule : Uuid} {instant : Timestamp}
    (effect : Effect e l s s') (row : s'.db.tasks.get? id = some t)
    (ht : t.instant = (some schedule, some instant)) :
    (∃ t0, s.db.tasks.get? id = some t0 ∧ t0.instant = (some schedule, some instant)) ∨
      l = .materialize id ∧ materialized s.db schedule instant = false := by
  have step := effect.row id
  rw [row] at step
  rcases step.instant with ⟨t0, hrow, hsame⟩ | ⟨hnone, hlabel⟩
  · exact .inl ⟨t0, hrow, hsame.symm.trans ht⟩
  · refine .inr ?_
    cases effect with
    | insert _ _ _ unscheduled =>
      obtain rfl : _ = id := by simpa using hlabel
      cases (get?_put_self _ _ _).symm.trans row
      simp [Task.instant, unscheduled] at ht
    | materialize _ _ _ _ occurrence time first =>
      obtain rfl : _ = id := by simpa using hlabel
      cases (get?_put_self _ _ _).symm.trans row
      simp only [Task.instant, occurrence, time, Prod.mk.injEq, Option.some.injEq] at ht
      obtain ⟨rfl, rfl⟩ := ht
      exact ⟨rfl, first⟩
    | _ => simp at hlabel

theorem effect_keeps_unique (effect : Effect e l s s') (h : UniqueOccurrences s.db) :
    UniqueOccurrences s'.db := by
  intro a b t t' schedule instant ha hb ht ht'
  rcases effect.instant ha ht with ⟨t0, ha0, ht0⟩ | ⟨rfl, hfirst⟩
  · rcases effect.instant hb ht' with ⟨t1, hb1, ht1⟩ | ⟨rfl, hfirst⟩
    · exact h a b t0 t1 schedule instant ha0 hb1 ht0 ht1
    · rw [materialized_iff.mpr ⟨a, t0, ha0, ht0⟩] at hfirst
      cases hfirst
  · rcases effect.instant hb ht' with ⟨t1, hb1, ht1⟩ | ⟨hlabel, -⟩
    · rw [materialized_iff.mpr ⟨b, t1, hb1, ht1⟩] at hfirst
      cases hfirst
    · cases hlabel
      rfl

theorem run_unique (server : Server) (rs : List Request) : UniqueOccurrences (run server rs).db :=
  run_keeps (I := fun s => UniqueOccurrences s.db) (fun _ _ _ _ _ _ row => by cases row)
    (fun _ _ _ _ effect => effect_keeps_unique effect) rs

def Call.plans : Call → Bool
  | .putSchedule .. | .setSchedulePaused .. | .deleteSchedule _ | .materializeSchedule ..
  | .adminSetSchedulePaused .. => true
  | _ => false

theorem Effect.schedules (effect : Effect e l s s') (hl : l ≠ .frame) :
    s'.db.schedules = s.db.schedules := by
  cases effect with
  | frame => exact absurd rfl hl
  | @fireManage _ j old new =>
    obtain ⟨keys, hk⟩ := manage_tables e j old new s.db
    rw [hk]
  | @delete _ j t =>
    obtain ⟨keys, hk⟩ := deleteTask_spec e s.db j t
    rw [hk]
  | _ => rfl

theorem effects_schedules {ls : List Label} (path : Effects e ls s s') (h : ∀ l ∈ ls, l ≠ .frame) :
    s'.db.schedules = s.db.schedules := by
  have keeps : ∀ l s1 s2, l ≠ .frame → Effect e l s1 s2 → s1.db.schedules = s.db.schedules →
      s2.db.schedules = s.db.schedules :=
    fun _ _ _ hl effect ih => (effect.schedules hl).trans ih
  exact path.keeps keeps h rfl

theorem registerWorker_schedules {worker : Uuid} {queueName version : String} {r : Registration}
    {ttl : Int} (h : registerWorker e worker queueName version r ttl s = .ok s') :
    s'.db.schedules = s.db.schedules := by
  unfold registerWorker at h
  split at h
  · cases h
  · split at h
    · cases h
    · split at h
      · cases h
      · obtain ⟨s1, h1, h⟩ := bind_ok h
        obtain ⟨s2, h2, h3⟩ := bind_ok h
        obtain ⟨-, -, queues, rfl⟩ := addQueue_spec (e := e) h1
        have hcapabilities : s2.db.schedules = s.db.schedules := by
          refine foldlM_rule (fun _ s2 => s2.db.schedules = s.db.schedules) ?_ h2 rfl
          intro c _ t t' ih hinsert
          obtain ⟨-, -, hinsert⟩ := bind_ok hinsert
          cases hinsert
          exact ih
        split at h3
        · cases h3
        · refine foldlM_rule (fun _ s2 => s2.db.schedules = s.db.schedules) ?_ h3 hcapabilities
          intro p _ t t' ih hinsert
          obtain ⟨-, -, hinsert⟩ := bind_ok hinsert
          split at hinsert
          · cases hinsert
            exact ih
          · cases hinsert
            exact ih

theorem exec_schedules {c : Call} {reply : Reply} (hq : s.queued = [])
    (h : exec e c s = .ok (reply, s')) (hc : c.plans = false) :
    s'.db.schedules = s.db.schedules := by
  by_cases hframe : c.effects .frame
  · cases c with
    | registerWorker worker queueName version registration ttl =>
      obtain ⟨s1, h1, hs'⟩ := map_eq_ok.mp h
      cases hs'
      exact registerWorker_schedules h1
    | heartbeatWorker worker ttl draining =>
      cases h
      unfold heartbeatWorker
      split <;> rfl
    | deleteExpiredWorkers grace n =>
      obtain ⟨a, h, -⟩ := reply_ok h
      obtain ⟨n, -, h⟩ := bind_ok h
      cases h
      rfl
    | adminCancelTask id actor =>
      obtain ⟨a, h, -⟩ := reply_ok h
      obtain ⟨actor, -, h⟩ := bind_ok h
      obtain ⟨⟨cancelled, s1⟩, h1, h⟩ := bind_ok h
      obtain ⟨⟨ls, path, hls⟩, -⟩ := cancelTask_spec hq h1
      have hsame := effects_schedules path fun l hl hframe => by
        have := hls l hl
        rw [hframe] at this
        cases this
      cases h
      split <;> exact hsame
    | adminRetryTask id actor =>
      obtain ⟨a, h, -⟩ := reply_ok h
      exact (adminRetryTask_spec hq h).2.2
    | _ => simp_all [Call.effects, Call.plans, Label.enqueues, Label.cascade, Label.spawns,
        Label.freshlySpawns, Label.waits, Label.timesOut]
  · obtain ⟨⟨ls, path, hls⟩, -⟩ := exec_spec hq h
    refine effects_schedules path fun l hl hlabel => hframe ?_
    rw [← hlabel]
    exact hls l hl

theorem materializeOccurrences_rows
    {count : Nat} (planned : ∃ c, s.db.schedules.get? id = some c ∧ c.definition = d)
    (h : materializeOccurrences e id d occurrences s = .ok (count, s')) :
    s'.db.schedules = s.db.schedules ∧ ∀ task t, s'.db.tasks.get? task = some t →
      s.db.tasks.get? task = some t ∨ ∃ o ∈ occurrences, t.instant = (some id, some o) := by
  induction occurrences generalizing s count with
  | nil =>
    cases h
    exact ⟨rfl, fun task t row => .inl row⟩
  | cons instant rest ih =>
    obtain ⟨⟨inserted, s1⟩, h1, h⟩ := bind_ok h
    obtain ⟨⟨n, s2⟩, h2, h⟩ := bind_ok h
    cases h
    obtain ⟨-, hplan, -, h1⟩ := materializeOccurrence_spec planned h1
    obtain ⟨hschedules, hrest⟩ := ih (by rw [hplan]; exact planned) h2
    refine ⟨hschedules.trans hplan, fun task t row => ?_⟩
    rcases hrest task t row with row1 | ⟨o, ho, ht⟩
    · rcases h1 with ⟨-, -, new, t1, -, htasks, hfor, hid⟩ | ⟨-, -, ⟨q, -, -, effect⟩ | effect⟩
      · rw [htasks, get?_put] at row1
        split at row1
        · cases row1
          exact .inr ⟨instant, mem_cons_self, by rw [Task.instant, hid, hfor]⟩
        · exact .inl row1
      · cases effect
        exact .inl row1
      · cases effect
        exact .inl row1
    · exact .inr ⟨o, mem_cons_of_mem _ ho, ht⟩

theorem materializeSchedule_cursor
    {count : Nat} (h : materializeSchedule e id expected occurrences next s = .ok (count, s')) :
    s' = s ∨ ∃ c n, s.db.schedules.get? id = some c ∧
      s'.db.schedules = s.db.schedules.put id { c with nextRunAt := occurrences[n]?.getD next } ∧
      ∀ task t, s'.db.tasks.get? task = some t →
        s.db.tasks.get? task = some t ∨ ∃ o ∈ occurrences.take n, t.instant = (some id, some o) := by
  unfold materializeSchedule at h
  split at h
  · cases h
    exact .inl rfl
  · rename_i c hc
    obtain ⟨hrow, -⟩ := Option.filter_eq_some_iff.mp hc
    obtain ⟨hschedules, htasks⟩ := materializeOccurrences_rows ⟨_, get?_put_self _ _ _, rfl⟩ h
    exact .inr ⟨c, _, hrow, hschedules, htasks⟩

theorem effects_no_materialize {c : Call} (h : c.effects (.materialize id)) :
    ∃ schedule expected occurrences next, c = .materializeSchedule schedule expected occurrences next := by
  cases c <;> simp_all [Call.effects, Label.enqueues, Label.cascade, Label.spawns,
    Label.freshlySpawns, Label.waits, Label.timesOut, Label.bookkeeping]

/-! ## Runs -/

def Inserts (server : Server) (w : World) (r : Request) (schedule : Uuid) (instant : Timestamp)
    (id : Uuid) : Prop :=
  w.db.tasks.get? id = none ∧ ∃ t, (step server w r).2.db.tasks.get? id = some t ∧
    t.instant = (some schedule, some instant)

def HasRun (server : Server) (rs : List Request) (schedule : Uuid) (instant : Timestamp) : Prop :=
  ∃ before r after id, rs = before ++ r :: after ∧
    Inserts server (run server before) r schedule instant id

/-- No cursor is set back to an instant that the schedule has had: neither by a declaration, nor by
a deferral. -/
def MovesForward (server : Server) (rs : List Request) (r : Request) : Prop :=
  (∀ schedule c instant, r.call.declares (run server rs).db = some (schedule, c) →
      HasRun server rs schedule instant → instant < c.earliest) ∧
    ∀ schedule expected next, r.call = .materializeSchedule schedule expected [] next →
      expected ≤ next

variable {schedule : Uuid} {instant : Timestamp}

theorem hasRun_concat : HasRun server (rs ++ [r]) schedule instant ↔
    HasRun server rs schedule instant ∨ ∃ id, Inserts server (run server rs) r schedule instant id := by
  constructor
  · rintro ⟨before, r', after, id, hrs, hinserts⟩
    rcases eq_nil_or_concat after with rfl | ⟨after, r'', rfl⟩
    · obtain ⟨rfl, hr⟩ := append_inj' hrs rfl
      cases hr
      exact .inr ⟨id, hinserts⟩
    · rw [concat_eq_append, ← cons_append, ← append_assoc] at hrs
      obtain ⟨rfl, -⟩ := append_inj' hrs rfl
      exact .inl ⟨before, r', after, id, rfl, hinserts⟩
  · rintro (⟨before, r', after, id, rfl, hinserts⟩ | ⟨id, hinserts⟩)
    · exact ⟨before, r', after ++ [r], id, by simp, hinserts⟩
    · exact ⟨rs, r, [], id, rfl, hinserts⟩

theorem Inserts.call (h : Inserts server w r schedule instant id) :
    ∃ other expected occurrences next, r.call = .materializeSchedule other expected occurrences next := by
  obtain ⟨hnone, t, row, ht⟩ := h
  by_contra hcall
  rcases step_spec server w r with ⟨-, -, -, -, -, ls, path, hls⟩ | ⟨-, -, hw⟩
  · have keeps : ∀ l s s', r.call.effects l → Effect (server.envAt r.now) l s s' →
        (∀ t, s.db.tasks.get? id = some t → t.instant ≠ (some schedule, some instant)) →
        ∀ t, s'.db.tasks.get? id = some t → t.instant ≠ (some schedule, some instant) := by
      intro l s s' hl effect ih t row ht
      rcases effect.instant row ht with ⟨t0, row0, ht0⟩ | ⟨rfl, -⟩
      · exact ih t0 row0 ht0
      · exact hcall (effects_no_materialize hl)
    refine path.keeps keeps hls (fun t row => ?_) t row ht
    rw [World.session_db, hnone] at row
    cases row
  · rw [hw, hnone] at row
    cases row

/-- Every instant that a schedule has had lies before what its cursor leads to. -/
def PastInstants (server : Server) (rs : List Request) : Prop :=
  ∀ schedule c instant, (run server rs).db.schedules.get? schedule = some c →
    HasRun server rs schedule instant → instant < c.earliest

theorem materialize_step (server : Server)
    (call : r.call = .materializeSchedule schedule expected occurrences next) :
    (step server w r).2.db = w.db ∨ ∃ c n, w.db.schedules.get? schedule = some c ∧
      (step server w r).2.db.schedules =
        w.db.schedules.put schedule { c with nextRunAt := occurrences[n]?.getD next } ∧
      ∀ task t, (step server w r).2.db.tasks.get? task = some t →
        w.db.tasks.get? task = some t ∨
          ∃ o ∈ occurrences.take n, t.instant = (some schedule, some o) := by
  rcases step_spec server w r with ⟨reply', s', hexec, hs', -⟩ | ⟨-, -, hw⟩
  · rw [call] at hexec
    obtain ⟨count, h, -⟩ := reply_ok hexec
    have hdb : (step server w r).2.db = s'.db := by rw [hs', World.session_db]
    rw [hdb]
    rcases materializeSchedule_cursor h with rfl | hmoved
    · exact .inl rfl
    · exact .inr hmoved
  · exact .inl (by rw [hw])

theorem addQueue_schedules {name : String} (h : addQueue name s = .ok s') :
    s'.db.schedules = s.db.schedules := by
  obtain ⟨-, -, h⟩ := bind_ok h
  split at h
  · cases h
    rfl
  · cases h
    rfl

theorem putSchedule_declares {name : String}
    {x : Uuid × Schedule} (h : putSchedule id name d next s = .ok (x, s'))
    (row : s'.db.schedules.get? schedule = some c) : s.db.schedules.get? schedule = some c ∨
      (Call.putSchedule id name d next).declares s.db = some (schedule, c) := by
  unfold putSchedule at h
  obtain ⟨s1, h1, h⟩ := bind_ok h
  obtain ⟨u, -, h⟩ := bind_ok h
  have hsame := addQueue_schedules h1
  dsimp only at h
  unfold scheduleNamed at h
  rw [hsame] at h
  split at h
  · rename_i old current hcurrent
    simp only [Call.declares, scheduleNamed, hcurrent]
    split at h
    · cases h
      exact .inl (by rwa [hsame] at row)
    · rename_i hchanged
      cases h
      rw [if_neg hchanged]
      dsimp only at row
      rw [get?_put] at row
      split at row
      · rename_i hold
        cases row
        exact .inr (by rw [hold])
      · exact .inl row
  · rename_i hnone
    simp only [Call.declares, scheduleNamed, hnone]
    split at h
    · cases h
    · cases h
      dsimp only at row
      rw [get?_put] at row
      split at row
      · rename_i hid
        cases row
        exact .inr (by rw [hid])
      · exact .inl row

theorem setSchedulePaused_earliest {paused : Bool}
    (row : (setSchedulePaused e id paused s).2.db.schedules.get? schedule = some c) :
    ∃ c0, s.db.schedules.get? schedule = some c0 ∧ c0.earliest = c.earliest := by
  unfold setSchedulePaused at row
  split at row
  · exact ⟨c, row, rfl⟩
  · rename_i c0 hc0
    dsimp only at row
    rw [get?_put] at row
    split at row
    · rename_i hid
      cases row
      exact ⟨c0, by rw [hid, hc0], rfl⟩
    · exact ⟨c, row, rfl⟩

theorem step_declares (hcall : ∀ schedule expected occurrences next,
      r.call ≠ .materializeSchedule schedule expected occurrences next)
    (row : (step server w r).2.db.schedules.get? schedule = some c) :
    (∃ c0, w.db.schedules.get? schedule = some c0 ∧ c0.earliest = c.earliest) ∨
      r.call.declares w.db = some (schedule, c) := by
  rcases step_spec server w r with ⟨reply', s', hexec, hs', -⟩ | ⟨-, -, hw⟩
  · have hdb : (step server w r).2.db = s'.db := by rw [hs', World.session_db]
    rw [hdb] at row
    by_cases hplans : r.call.plans = false
    · rw [exec_schedules rfl hexec hplans] at row
      exact .inl ⟨c, row, rfl⟩
    · generalize r.call = call at *
      cases call with
      | putSchedule id name d next =>
        obtain ⟨x, h, -⟩ := reply_ok hexec
        rcases putSchedule_declares h row with hsame | hdeclares
        · exact .inl ⟨c, hsame, rfl⟩
        · exact .inr hdeclares
      | setSchedulePaused id paused =>
        cases hexec
        exact .inl (setSchedulePaused_earliest row)
      | deleteSchedule id =>
        cases hexec
        exact .inl ⟨c, (get?_delete_eq_some.mp row).1, rfl⟩
      | adminSetSchedulePaused id paused actor =>
        obtain ⟨x, h, -⟩ := reply_ok hexec
        obtain ⟨actor, -, h⟩ := bind_ok h
        cases h
        have haudit : ∀ (b : Bool) action (s : Session),
            (if b then recordAudit actor action id s else s).db.schedules = s.db.schedules := by
          intro b action s
          split <;> rfl
        rw [haudit] at row
        exact .inl (setSchedulePaused_earliest row)
      | materializeSchedule id expected occurrences next => exact absurd rfl (hcall _ _ _ _)
      | _ => exact absurd rfl hplans
  · rw [hw] at row
    exact .inl ⟨c, row, rfl⟩

theorem step_past (past : PastInstants server rs) (store : FromStore calendar (run server rs) r)
    (forward : MovesForward server rs r) : PastInstants server (rs ++ [r]) := by
  intro other c instant row hrun
  rw [hasRun_concat] at hrun
  rw [run_concat] at row
  by_cases hcall : ∃ schedule expected occurrences next,
      r.call = .materializeSchedule schedule expected occurrences next
  · obtain ⟨schedule, expected, occurrences, next, call⟩ := hcall
    obtain ⟨c0, hc0, hcursor⟩ := store.cursor call fun hnil =>
      forward.2 schedule expected next (by rw [call, hnil])
    rcases materialize_step server call with hsame | ⟨c1, n, hc1, hschedules, htasks⟩
    · rw [hsame] at row
      rcases hrun with hrun | ⟨id, hnone, t, hrow, -⟩
      · exact past other c instant row hrun
      · rw [hsame, hnone] at hrow
        cases hrow
    · obtain rfl := Option.some.inj (hc0.symm.trans hc1)
      obtain ⟨hkeeps, hinserted⟩ := hcursor n
      have new : ∀ id, Inserts server (run server rs) r other instant id →
          other = schedule ∧ instant ∈ occurrences.take n := by
        rintro id ⟨hnone, t, hrow, ht⟩
        rcases htasks id t hrow with hold | ⟨o, ho, hinstant⟩
        · rw [hnone] at hold
          cases hold
        · rw [ht] at hinstant
          cases hinstant
          exact ⟨rfl, ho⟩
      rw [hschedules, get?_put] at row
      split at row
      · rename_i hother
        cases row
        rcases hrun with hrun | ⟨id, hinserts⟩
        · rw [hother] at hrun
          exact (past schedule c0 instant hc0 hrun).trans_le hkeeps
        · exact (hinserted instant (new id hinserts).2).2
      · rename_i hother
        rcases hrun with hrun | ⟨id, hinserts⟩
        · exact past other c instant row hrun
        · exact absurd (new id hinserts).1 hother
  · rcases hrun with hrun | ⟨id, hinserts⟩
    · rcases step_declares (fun a b c d h => hcall ⟨a, b, c, d, h⟩) row with ⟨c0, hc0, hsame⟩ | hdeclares
      · rw [← hsame]
        exact past other c0 instant hc0 hrun
      · exact forward.1 other c instant hdeclares hrun
    · exact absurd hinserts.call hcall

theorem run_past (store : EveryStep server (FromStore calendar) rs)
    (forward : ∀ before r after, rs = before ++ r :: after → MovesForward server before r) :
    PastInstants server rs := by
  induction rs using List.reverseRecOn with
  | nil =>
    rintro schedule c instant row
    cases row
  | append_singleton rs r ih =>
    have hsplit : ∀ {before r' after}, rs = before ++ r' :: after →
        rs ++ [r] = before ++ r' :: (after ++ [r]) := by
      rintro before r' after rfl
      simp
    refine step_past (ih (fun before r' after hrs => store before r' _ (hsplit hrs))
      fun before r' after hrs => forward before r' _ (hsplit hrs)) (store rs r [] rfl)
      (forward rs r [] rfl)

/-- Step number `n` of the run inserts the task as an occurrence of the schedule. -/
def InsertedAt (server : Server) (rs : List Request) (schedule : Uuid) (instant : Timestamp)
    (n : Nat) (id : Uuid) : Prop :=
  ∃ before r after, rs = before ++ r :: after ∧ before.length = n ∧
    Inserts server (run server before) r schedule instant id

theorem not_inserted_again (store : EveryStep server (FromStore calendar) rs)
    (forward : ∀ before r after, rs = before ++ r :: after → MovesForward server before r)
    {before after : List Request} (hrs : rs = before ++ r :: after)
    (hrun : HasRun server before schedule instant) :
    ¬ Inserts server (run server before) r schedule instant id := by
  intro hinserts
  obtain ⟨other, expected, occurrences, next, call⟩ := hinserts.call
  have hsplit : ∀ {a r' b}, before = a ++ r' :: b → rs = a ++ r' :: (b ++ r :: after) := by
    rintro a r' b rfl
    rw [hrs, append_assoc, cons_append]
  have hstore : EveryStep server (FromStore calendar) before :=
    fun a r' b hab => store a r' _ (hsplit hab)
  have past : PastInstants server before :=
    run_past hstore fun a r' b hab => forward a r' _ (hsplit hab)
  obtain ⟨c, hc, hcursor⟩ := (store before r after hrs).cursor call fun hnil =>
    (forward before r after hrs).2 other expected next (by rw [call, hnil])
  obtain ⟨hnone, t, row, ht⟩ := hinserts
  rcases materialize_step server call with hsame | ⟨c1, n, -, -, htasks⟩
  · rw [hsame, hnone] at row
    cases row
  · rcases htasks id t row with hold | ⟨o, ho, hinstant⟩
    · rw [hnone] at hold
      cases hold
    · rw [ht] at hinstant
      cases hinstant
      exact absurd ((hcursor n).2 instant ho).1 (Int.not_le.mpr (past schedule c instant hc hrun))

/-- Every occurrence of a schedule becomes a task at most once in a run, as long as no cursor is set
back to an instant that the schedule has had. -/
theorem occurrences_inserted_once (calendar : Calendar) (server : Server) (rs : List Request)
    (store : EveryStep server (FromStore calendar) rs)
    (forward : ∀ before r after, rs = before ++ r :: after → MovesForward server before r)
    (schedule : Uuid) (instant : Timestamp) (n n' : Nat) (id id' : Uuid)
    (h : InsertedAt server rs schedule instant n id)
    (h' : InsertedAt server rs schedule instant n' id') : n = n' ∧ id = id' := by
  obtain ⟨before, r, after, hrs, rfl, hinserts⟩ := h
  obtain ⟨before', r', after', hrs', rfl, hinserts'⟩ := h'
  rcases append_eq_append_iff.mp (hrs.symm.trans hrs') with ⟨x, rfl, hx⟩ | ⟨x, rfl, hx⟩
  · cases x with
    | nil =>
      cases hx
      rw [append_nil] at hinserts' ⊢
      obtain ⟨-, t, row, ht⟩ := hinserts
      obtain ⟨-, t', row', ht'⟩ := hinserts'
      rw [← run_concat] at row row'
      exact ⟨rfl, run_unique server _ id id' t t' schedule instant row row' ht ht'⟩
    | cons r₁ x =>
      cases hx
      exact absurd hinserts' (not_inserted_again store forward hrs' ⟨before, r, x, id, rfl, hinserts⟩)
  · cases x with
    | nil =>
      cases hx
      rw [append_nil] at hinserts ⊢
      obtain ⟨-, t, row, ht⟩ := hinserts
      obtain ⟨-, t', row', ht'⟩ := hinserts'
      rw [← run_concat] at row row'
      exact ⟨rfl, run_unique server _ id id' t t' schedule instant row row' ht ht'⟩
    | cons r₁ x =>
      cases hx
      exact absurd hinserts (not_inserted_again store forward hrs ⟨before', r', x, id', rfl, hinserts'⟩)

def plainCalendar : Calendar where
  supported _ := true
  fromStr _ := .error ""
  later _ _ _ _ h := by cases h
  whole _ _ _ _ h := by cases h

def hourlyConfig (payload : Json) : Core.ScheduleConfig where
  id := Uuid.ofNat 50
  name := "s"
  definition := .interval 3600000000000
  task := { taskName := "a", payload := payload }
  startAt := some 5

def declareHourly (now : Timestamp) (payload : Json) : Request :=
  ⟨now, .putSchedule (Uuid.ofNat 50) "s"
    { kind := .interval, intervalMilliseconds := some 3600000, cronExpression := none
      misfirePolicy := .latest, catchUpLimit := none, queueName := "default", taskName := "a"
      handlerVersion := 1, payload := payload, headers := .obj [], priority := 0, maxAttempts := 5 } 5⟩

def materializeFirst (now : Timestamp) : Request :=
  ⟨now, .materializeSchedule (Uuid.ofNat 50) 5 [5] (now + 3600000000)⟩

def hourlyRun : List Request :=
  [declareHourly 0 .null, materializeFirst 10, ⟨11, .deleteExpiredTerminal "default" 10⟩]

theorem occurrences_inserted_once_hourly :
    InsertedAt countingServer hourlyRun (Uuid.ofNat 50) 5 1 (Uuid.ofNat 1) ∧
      ∀ n id, InsertedAt countingServer hourlyRun (Uuid.ofNat 50) 5 n id → 1 = n ∧ Uuid.ofNat 1 = id := by
  have first : InsertedAt countingServer hourlyRun (Uuid.ofNat 50) 5 1 (Uuid.ofNat 1) :=
    ⟨hourlyRun.take 1, materializeFirst 10, hourlyRun.drop 2, rfl, rfl, by decide +kernel, _, rfl, rfl⟩
  refine ⟨first, fun n id h => occurrences_inserted_once plainCalendar countingServer hourlyRun ?_ ?_
    (Uuid.ofNat 50) 5 1 n _ id first h⟩
  · refine everyStep_of_fin fun i => ?_
    match i with
    | ⟨0, _⟩ => exact ⟨hourlyConfig .null, 0, le_refl _, rfl⟩
    | ⟨1, _⟩ => exact ⟨_, 10, 10, le_refl _, le_refl _, rfl, rfl, by decide, Or.inl rfl⟩
    | ⟨2, _⟩ => trivial
  · refine fun before r after => split_of_fin fun i => ?_
    match i with
    | ⟨0, _⟩ =>
      refine ⟨?_, by rintro _ _ _ ⟨⟩⟩
      rintro schedule c instant - ⟨before, r, after, id, hrs, -⟩
      simp at hrs
    | ⟨1, _⟩ => exact ⟨by rintro _ _ _ ⟨⟩, by rintro _ _ _ ⟨⟩⟩
    | ⟨2, _⟩ => exact ⟨by rintro _ _ _ ⟨⟩, by rintro _ _ _ ⟨⟩⟩

theorem redeclared_occurrence_runs_again :
    let rs : List Request := ⟨0, .putQueue "default" ⟨0, 604800, none, 300⟩⟩ :: declareHourly 0 .null ::
      materializeFirst 10 :: ⟨11, .claim "default" (Uuid.ofNat 100) ["a"] [1] 1 1000⟩ ::
      ⟨12, .completeTask ⟨Uuid.ofNat 1, 1, Uuid.ofNat 2⟩ none⟩ ::
      ⟨13, .deleteExpiredTerminal "default" 10⟩ :: declareHourly 14 (.bool true) :: [materializeFirst 15]
    EveryStep countingServer (FromStore plainCalendar) rs ∧
      InsertedAt countingServer rs (Uuid.ofNat 50) 5 2 (Uuid.ofNat 1) ∧
      InsertedAt countingServer rs (Uuid.ofNat 50) 5 7 (Uuid.ofNat 3) := by
  intro rs
  refine ⟨everyStep_of_fin fun i => ?_, ?_, ?_⟩
  · match i with
    | ⟨0, _⟩ | ⟨3, _⟩ | ⟨4, _⟩ | ⟨5, _⟩ => trivial
    | ⟨1, _⟩ => exact ⟨hourlyConfig .null, 0, le_refl _, rfl⟩
    | ⟨2, _⟩ => exact ⟨_, 10, 10, le_refl _, le_refl _, rfl, rfl, by decide, Or.inl rfl⟩
    | ⟨6, _⟩ => exact ⟨hourlyConfig (.bool true), 14, le_refl _, rfl⟩
    | ⟨7, _⟩ => exact ⟨_, 15, 15, le_refl _, le_refl _, rfl, rfl, by decide, Or.inl rfl⟩
  · exact ⟨rs.take 2, materializeFirst 10, rs.drop 3, rfl, rfl, by decide +kernel, _, rfl, rfl⟩
  · exact ⟨rs.take 7, materializeFirst 15, [], rfl, rfl, by decide +kernel, _, rfl, rfl⟩

end Pgtask
