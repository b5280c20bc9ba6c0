import Mathlib.Data.Int.LeastGreatest
import Mathlib.Order.Bounds.Basic
import Pgtask.Invariant.Backlog
import Pgtask.Invariant.Grid

/-!
# What a materialization takes

The walk from the cursor on says which occurrences are due. `materialize` takes
some of them, without the walk where it can: an interval by division, a cron
expression by a binary search over seconds.
-/

open Sql Checked List

namespace Pgtask

/-! ## Calendars -/

def Upcoming (occurrences : Set Int) (next : Int → Option Int) : Prop :=
  ∀ t t', next t = some t' ↔ IsLeast {o | o ∈ occurrences ∧ t < o} t'

/-- What `chrono` and `cron` promise: dates without a gap, and of every expression exactly its
occurrences. -/
structure Calendar.Sound (calendar : Calendar) : Prop where
  convex : ∀ a b t, calendar.supported a = true → calendar.supported b = true → a ≤ t → t ≤ b →
    calendar.supported t = true
  after : ∀ text next, calendar.fromStr text = .ok next → ∃ occurrences, Upcoming occurrences next

namespace Upcoming

variable {occurrences : Set Int} {next : Int → Option Int} {t t' u o : Int}

theorem mem (h : Upcoming occurrences next) (ht : next t = some t') : t' ∈ occurrences :=
  ((h t t').mp ht).1.1

theorem le (h : Upcoming occurrences next) (ht : next t = some t') (ho : o ∈ occurrences) (hlt : t < o) :
    t' ≤ o :=
  ((h t t').mp ht).2 ⟨ho, hlt⟩

theorem of_mem (h : Upcoming occurrences next) (ho : o ∈ occurrences) : next (o - 1) = some o :=
  (h _ o).mpr ⟨⟨ho, by omega⟩, fun u hu => by have := hu.2; omega⟩

theorem exists_of_lt (h : Upcoming occurrences next) (ho : o ∈ occurrences) (hlt : t < o) :
    ∃ t', next t = some t' ∧ t' ≤ o := by
  obtain ⟨t', ht', hleast⟩ := Int.exists_least_of_bdd (P := fun u => u ∈ occurrences ∧ t < u)
    ⟨t, fun u hu => hu.2.le⟩ ⟨o, ho, hlt⟩
  exact ⟨t', (h t t').mpr ⟨ht', fun u hu => hleast u hu⟩, hleast o ⟨ho, hlt⟩⟩

end Upcoming

theorem Calendar.Sound.upcoming {calendar : Calendar} (sound : calendar.Sound) {expression : String}
    {next : Timestamp → Option Timestamp} (h : Core.parseCron calendar expression = .ok next) :
    Upcoming {o | Occurs calendar expression o} next := by
  obtain ⟨text, htext⟩ := Core.parseCron_ok h
  obtain ⟨occurrences, hup⟩ := sound.after text next htext
  have hset : {o | Occurs calendar expression o} = occurrences := by
    ext o
    constructor
    · rintro ⟨next', t0, hparse, ho⟩
      cases h.symm.trans hparse
      exact hup.mem ho
    · intro ho
      exact ⟨next, o - 1, h, hup.of_mem ho⟩
  rw [hset]
  exact hup

namespace Core

/-! ## The walk -/

namespace ScheduleDefinition

variable {calendar : Calendar} {d : ScheduleDefinition} {now c t t' : Timestamp} {backlog : List Timestamp}

def Built (calendar : Calendar) (d : ScheduleDefinition) : Prop :=
  (∃ every, ofInterval every = .ok d) ∨ ∃ expression, ofCron calendar expression = .ok d

/-- Every instant may start an interval. A cron expression starts with one of its occurrences. -/
def Cursor (calendar : Calendar) (c : Timestamp) : ScheduleDefinition → Prop
  | .interval _ => True
  | .cron expression => Occurs calendar expression c

structure InRange (calendar : Calendar) (d : ScheduleDefinition) (c now : Timestamp) : Prop where
  cursor : calendar.supported c = true
  now : calendar.supported now = true
  before : ∀ expression, d = .cron expression → calendar.supported ((unixTime c - 1) * 1000000) = true

theorem Built.valid (built : d.Built calendar) : d.Valid := by
  rcases built with ⟨every, h⟩ | ⟨expression, h⟩
  · exact (ofInterval_valid h).2
  · rw [ofCron_eq h]
    trivial

theorem Built.interval {every : Nat} (built : Built calendar (.interval every)) :
    ∃ ms, intervalMilliseconds every = .ok ms ∧ timeDelta every = .ok (ms * 1000) ∧ 0 < ms := by
  rcases built with ⟨every', h⟩ | ⟨expression, h⟩
  · cases (ofInterval_valid h).1
    obtain ⟨ms, hms, h⟩ := bind_ok h
    obtain ⟨delta, hdelta, -⟩ := bind_ok h
    rw [timeDelta_milliseconds hdelta hms] at hdelta
    exact ⟨ms, hms, hdelta, (intervalMilliseconds_pos hms).1⟩
  · cases ofCron_eq h

theorem nextAfter_interval {every : Nat} {delta : Int} (hdelta : timeDelta every = .ok delta) :
    (interval every).nextAfter calendar t = checkedAdd calendar t delta := by
  simp only [nextAfter]
  rw [hdelta]
  rfl

theorem nextAfter_cron {expression : String} {next : Timestamp → Option Timestamp}
    (h : parseCron calendar expression = .ok next) :
    (cron expression).nextAfter calendar t = .ok t' ↔ next t = some t' := by
  simp only [nextAfter]
  rw [h]
  show firstAfter next t = .ok t' ↔ _
  unfold firstAfter
  split <;> simp_all

theorem checkedAdd_eq_ok {delta : Int} :
    checkedAdd calendar t delta = .ok t' ↔ calendar.supported (t + delta) = true ∧ t' = t + delta := by
  unfold checkedAdd
  split
  · rename_i h
    simp [h, eq_comm (a := t')]
  · rename_i h
    simp [h]

theorem nextAfter_earlier (sound : calendar.Sound) (built : d.Built calendar)
    (cursor : calendar.supported c = true) (future : d.nextAfter calendar now = .ok t') (hc : c ≤ t)
    (ht : t ≤ now) : ∃ t1, d.nextAfter calendar t = .ok t1 := by
  cases d with
  | interval every =>
    obtain ⟨ms, -, hdelta, hpos⟩ := built.interval
    rw [nextAfter_interval hdelta, checkedAdd_eq_ok] at future
    rw [nextAfter_interval hdelta]
    refine ⟨t + ms * 1000, checkedAdd_eq_ok.mpr ⟨?_, rfl⟩⟩
    refine sound.convex c (now + ms * 1000) _ cursor future.1 ?_ (Int.add_le_add_right ht _)
    exact hc.trans (Int.le_add_of_nonneg_right (by omega))
  | cron expression =>
    obtain ⟨next, hparse, -⟩ := bind_ok future
    rw [nextAfter_cron hparse] at future
    have hup := sound.upcoming hparse
    obtain ⟨t1, h1, -⟩ := hup.exists_of_lt (hup.mem future)
      (ht.trans_lt (nextAfter_later (d := .cron expression) trivial ((nextAfter_cron hparse).mpr future)))
    exact ⟨t1, (nextAfter_cron hparse).mpr h1⟩

theorem due_of_steps (calendar : Calendar) (valid : d.Valid) (now c : Int)
    (steps : ∀ t, c ≤ t → t ≤ now → ∃ t', d.nextAfter calendar t = .ok t') :
    ∃ backlog, Due calendar d now c backlog := by
  by_cases h : c ≤ now
  · obtain ⟨t', hnext⟩ := steps c (le_refl c) h
    have hlater : c < t' := nextAfter_later valid hnext
    obtain ⟨rest, hrest⟩ := due_of_steps calendar valid now t' fun t ht => steps t (hlater.le.trans ht)
    exact ⟨c :: rest, .now h hnext hrest⟩
  · exact ⟨[], .later (Int.not_le.mp h)⟩
termination_by (now + 1 - c).toNat
decreasing_by omega

theorem due_exists (sound : calendar.Sound) (built : d.Built calendar)
    (cursor : calendar.supported c = true) (future : d.nextAfter calendar now = .ok t') :
    ∃ backlog, Due calendar d now c backlog :=
  due_of_steps calendar built.valid now c fun _ hc ht =>
    nextAfter_earlier sound built cursor future hc ht

theorem Due.nonempty (due : Due calendar d now t backlog) (h : t ≤ now) :
    ∃ rest, backlog = t :: rest := by
  cases due with
  | later hlater => exact absurd h (not_le.mpr hlater)
  | now => exact ⟨_, rfl⟩

theorem Due.last (due : Due calendar d now t backlog) (h : t ≤ now) :
    ∃ o t', backlog.getLast? = some o ∧ o ≤ now ∧ d.nextAfter calendar o = .ok t' ∧ now < t' := by
  induction due with
  | later hlater => exact absurd h (not_le.mpr hlater)
  | @now t t' rest hdue next due ih =>
    by_cases ht' : t' ≤ now
    · obtain ⟨rest, rfl⟩ := due.nonempty ht'
      rw [getLast?_cons_cons]
      exact ih ht'
    · cases due with
      | later hlater => exact ⟨t, t', rfl, h, next, hlater⟩
      | now hdue' => exact absurd hdue' ht'

theorem Due.occurs {expression : String} (due : Due calendar (.cron expression) now t backlog)
    (start : Occurs calendar expression t) : ∀ o ∈ backlog, Occurs calendar expression o := by
  induction due with
  | later => simp
  | now _ next _ ih => exact forall_mem_cons.mpr ⟨start, ih (nextAfter_occurs next)⟩

/-! ## The latest occurrence of an interval -/

section Interval

variable {every : Nat} {ms : Int}

theorem latestDue_interval (hms : intervalMilliseconds every = .ok ms) (h : c ≤ now) :
    (interval every).latestDue calendar c now =
      checkedAdd calendar c ((now - c) / (ms * 1000) * (ms * 1000)) := by
  have hpassed : 0 ≤ now - c := Int.sub_nonneg_of_le h
  simp only [latestDue]
  rw [hms]
  show checkedAdd calendar c (milliseconds ((now - c).tdiv 1000 / ms * ms)) = _
  rw [Int.tdiv_eq_ediv_of_nonneg hpassed, Int.ediv_ediv_of_nonneg (by decide), milliseconds, mul_comm 1000,
    mul_assoc]

theorem Due.last_interval (hms : intervalMilliseconds every = .ok ms)
    (due : Due calendar (.interval every) now t backlog) (h : t ≤ now) :
    backlog.getLast? = some (t + (now - t) / (ms * 1000) * (ms * 1000)) := by
  have positive := (intervalMilliseconds_pos hms).1
  have hstep : 0 < ms * 1000 := by omega
  induction due with
  | later hlater => exact absurd h (not_le.mpr hlater)
  | @now t t' rest hdue next due ih =>
    obtain ⟨delta, hdelta, hnext⟩ := bind_ok next
    obtain rfl := timeDelta_milliseconds hdelta hms
    obtain rfl := checkedAdd_ok hnext
    generalize ms * 1000 = delta at hstep ih due ⊢
    by_cases ht' : t + delta ≤ now
    · obtain ⟨rest, rfl⟩ := due.nonempty ht'
      rw [getLast?_cons_cons, ih ht', ← Int.sub_sub, Int.sub_ediv_of_dvd _ (dvd_refl delta),
        Int.ediv_self hstep.ne', sub_mul, one_mul]
      congr 1
      ring
    · cases due with
      | later hlater =>
        have hlast : (now - t) / delta = 0 := Int.ediv_eq_zero_of_lt (Int.sub_nonneg_of_le h)
          (Int.sub_left_lt_of_lt_add hlater)
        rw [hlast, zero_mul, add_zero]
        rfl
      | now hdue' => exact absurd hdue' ht'

end Interval

/-! ## The latest occurrence of a cron expression -/

section Cron

variable {expression : String} {next : Timestamp → Option Timestamp}

theorem firstAfter_eq_ok : firstAfter next t = .ok t' ↔ next t = some t' := by
  unfold firstAfter
  split <;> simp_all

theorem bisect_spec {low high n : Int} (h : bisect calendar next now low high = .ok n)
    (hlt : low < high) (before : ∃ o, next (low * 1000000) = some o ∧ o ≤ now)
    (after : ∀ o, next (high * 1000000) = some o → now < o) :
    (∃ o, next (n * 1000000) = some o ∧ o ≤ now) ∧ ∀ o, next ((n + 1) * 1000000) = some o → now < o := by
  unfold bisect at h
  split at h
  · obtain ⟨t, ht, h⟩ := bind_ok h
    obtain rfl := fromUnixTime_ok ht
    obtain ⟨o, ho, h⟩ := bind_ok h
    rw [firstAfter_eq_ok] at ho
    split at h
    · exact bisect_spec h (by omega) ⟨o, ho, ‹_›⟩ after
    · refine bisect_spec h (by omega) before fun o' ho' => ?_
      cases ho.symm.trans ho'
      exact not_le.mp ‹_›
  · cases h
    obtain rfl : high = low + 1 := by omega
    exact ⟨before, after⟩
termination_by (high - low).toNat

theorem bisect_returns (calendar : Calendar) (next : Timestamp → Option Timestamp) (now : Timestamp)
    (low high : Int) (dates : ∀ n, low < n → n < high → calendar.supported (n * 1000000) = true ∧
      (next (n * 1000000)).isSome = true) : ∃ n, bisect calendar next now low high = .ok n := by
  unfold bisect
  split
  · obtain ⟨hdate, hnext⟩ := dates (low + (high - low) / 2) (by omega) (by omega)
    obtain ⟨o, ho⟩ := Option.isSome_iff_exists.mp hnext
    have htime : fromUnixTime calendar (low + (high - low) / 2) =
        .ok ((low + (high - low) / 2) * 1000000) := by
      unfold fromUnixTime
      rw [if_pos hdate]
    dsimp only
    rw [htime]
    show ∃ n, (do
      let occurrence ← firstAfter next ((low + (high - low) / 2) * 1000000)
      if occurrence ≤ now then bisect calendar next now (low + (high - low) / 2) high
      else bisect calendar next now low (low + (high - low) / 2)) = .ok n
    rw [firstAfter_eq_ok.mpr ho]
    show ∃ n, (if o ≤ now then bisect calendar next now (low + (high - low) / 2) high
      else bisect calendar next now low (low + (high - low) / 2)) = .ok n
    split
    · exact bisect_returns calendar next now _ high fun n hn => dates n (by omega)
    · exact bisect_returns calendar next now low _ fun n hn hlt => dates n hn (by omega)
  · exact ⟨low, rfl⟩
termination_by (high - low).toNat

theorem unixTime_le (t : Int) : unixTime t * 1000000 ≤ t ∧ t < (unixTime t + 1) * 1000000 := by
  unfold unixTime
  omega

theorem whole_of_lt {n o : Int} (whole : o % 1000000 = 0) (h : n * 1000000 < o) : (n + 1) * 1000000 ≤ o := by
  omega

theorem bisect_due (sound : calendar.Sound) (hparse : parseCron calendar expression = .ok next) {n : Int}
    {o : Timestamp} (h : bisect calendar next now (unixTime c - 1) (unixTime now + 1) = .ok n)
    (occurs : Occurs calendar expression o) (hc : c ≤ o) (hnow : o ≤ now) :
    (∃ o, next (n * 1000000) = some o ∧ o ≤ now) ∧
      ∀ o, next ((n + 1) * 1000000) = some o → now < o := by
  have hup := sound.upcoming hparse
  obtain ⟨text, htext⟩ := parseCron_ok hparse
  have hcursor := unixTime_le c
  have hseconds : unixTime c ≤ unixTime now := Int.ediv_le_ediv (by decide) (hc.trans hnow)
  refine bisect_spec h (by omega) ?_ fun o ho => ?_
  · obtain ⟨o', ho', hle⟩ := hup.exists_of_lt (t := (unixTime c - 1) * 1000000) occurs
      (lt_of_lt_of_le (by omega) (hcursor.1.trans hc))
    exact ⟨o', ho', hle.trans hnow⟩
  · exact (unixTime_le now).2.trans (calendar.later text next _ _ htext ho)

theorem latestDue_greatest (sound : calendar.Sound) (hparse : parseCron calendar expression = .ok next)
    {o o' : Timestamp} (h : (cron expression).latestDue calendar c now = .ok o)
    (occurs : Occurs calendar expression o') (hc : c ≤ o') (hnow : o' ≤ now) :
    IsGreatest {o | Occurs calendar expression o ∧ o ≤ now} o := by
  have hup := sound.upcoming hparse
  obtain ⟨text, htext⟩ := parseCron_ok hparse
  obtain ⟨next', hparse', h⟩ := bind_ok h
  cases hparse.symm.trans hparse'
  obtain ⟨n, hn, h⟩ := bind_ok h
  obtain ⟨low, hlow, h⟩ := bind_ok h
  obtain rfl := fromUnixTime_ok hlow
  obtain ⟨⟨o1, ho1, hdue⟩, hlast⟩ := bisect_due sound hparse hn occurs hc hnow
  rw [ho1, Option.filter_some, if_pos (by simpa using hdue)] at h
  cases h
  have hge := whole_of_lt (calendar.whole text next _ _ htext ho1) (calendar.later text next _ _ htext ho1)
  refine ⟨⟨hup.mem ho1, hdue⟩, fun u hu => ?_⟩
  -- An occurrence after the found second is not due.
  by_contra hlt
  obtain ⟨u', hu', hle⟩ := hup.exists_of_lt (t := (n + 1) * 1000000) hu.1
    (lt_of_le_of_lt hge (not_le.mp hlt))
  exact absurd (hlast u' hu') (not_lt.mpr (hle.trans hu.2))

theorem latestDue_returns (sound : calendar.Sound) (hparse : parseCron calendar expression = .ok next)
    (range : InRange calendar (.cron expression) c now) (future : next now = some t') {o' : Timestamp}
    (occurs : Occurs calendar expression o') (hc : c ≤ o') (hnow : o' ≤ now) :
    ∃ o, (cron expression).latestDue calendar c now = .ok o := by
  have hup := sound.upcoming hparse
  obtain ⟨text, htext⟩ := parseCron_ok hparse
  have hfuture := calendar.later text next _ _ htext future
  -- A second from the one before the cursor until now is a date.
  have hdate : ∀ n, unixTime c - 1 ≤ n → n * 1000000 ≤ now → calendar.supported (n * 1000000) = true := by
    intro n hn hle
    exact sound.convex _ now _ (range.before expression rfl) range.now
      (Int.mul_le_mul_of_nonneg_right hn (by decide)) hle
  obtain ⟨n, hn⟩ := bisect_returns calendar next now (unixTime c - 1) (unixTime now + 1) fun n hlow hhigh => by
    have hle : n * 1000000 ≤ now :=
      (Int.mul_le_mul_of_nonneg_right (Int.le_of_lt_add_one hhigh) (by decide)).trans (unixTime_le now).1
    obtain ⟨u, hu, -⟩ := hup.exists_of_lt (hup.mem future) (hle.trans_lt hfuture)
    exact ⟨hdate n hlow.le hle, by rw [hu]; rfl⟩
  obtain ⟨⟨o, ho, hdue⟩, -⟩ := bisect_due sound hparse hn occurs hc hnow
  have hlow : fromUnixTime calendar n = .ok (n * 1000000) := by
    have hle := (calendar.later text next _ _ htext ho).le.trans hdue
    unfold fromUnixTime
    rw [if_pos (hdate n (bisect_ge hn) hle)]
  refine ⟨o, bind_eq_ok.mpr ⟨next, hparse, bind_eq_ok.mpr ⟨n, hn, bind_eq_ok.mpr ⟨_, hlow, ?_⟩⟩⟩⟩
  rw [ho, Option.filter_some, if_pos (by simpa using hdue)]

theorem Due.greatest (sound : calendar.Sound) (due : Due calendar (.cron expression) now c backlog)
    (start : Occurs calendar expression c) (h : c ≤ now) :
    ∃ o, backlog.getLast? = some o ∧ IsGreatest {o | Occurs calendar expression o ∧ o ≤ now} o := by
  obtain ⟨o, t', hlast, hnow, hnext, hlater⟩ := due.last h
  refine ⟨o, hlast, ⟨due.occurs start o (mem_of_getLast? hlast), hnow⟩, fun u hu => ?_⟩
  by_contra hlt
  obtain ⟨next, hparse, -⟩ := bind_ok hnext
  have hle := (sound.upcoming hparse).le ((nextAfter_cron hparse).mp hnext) hu.1 (not_le.mp hlt)
  exact absurd (hle.trans hu.2) (not_le.mpr hlater)

end Cron

/-! ## Materialization -/

def selected (backlog : List Timestamp) : MisfirePolicy → List Timestamp
  | .skip => backlog.head?.toList
  | .latest => backlog.getLast?.toList
  | .catchUp limit => backlog.take limit.get

variable {policy : MisfirePolicy}

theorem Due.latestDue {o : Timestamp} (sound : calendar.Sound) (due : Due calendar d now c backlog)
    (start : d.Cursor calendar c) (hnow : c ≤ now) (h : d.latestDue calendar c now = .ok o) :
    backlog.getLast? = some o := by
  cases d with
  | interval every =>
    obtain ⟨ms, hms, -⟩ := bind_ok h
    rw [latestDue_interval hms hnow] at h
    rw [due.last_interval hms hnow, checkedAdd_ok h]
  | cron expression =>
    obtain ⟨next, hparse, -⟩ := bind_ok h
    obtain ⟨o', hlast, hgreatest⟩ := due.greatest sound start hnow
    rw [hlast, IsGreatest.unique (latestDue_greatest sound hparse h start (le_refl c) hnow) hgreatest]

theorem Due.dueOccurrences {occurrences : List Timestamp} (sound : calendar.Sound)
    (due : Due calendar d now c backlog) (start : d.Cursor calendar c) (hnow : c ≤ now)
    (h : d.dueOccurrences calendar c now policy = .ok occurrences) :
    occurrences = selected backlog policy := by
  cases policy with
  | skip =>
    cases h
    obtain ⟨rest, rfl⟩ := due.nonempty hnow
    rfl
  | latest =>
    obtain ⟨o, ho, h⟩ := bind_ok h
    cases h
    rw [selected, due.latestDue sound start hnow ho]
    rfl
  | catchUp limit =>
    cases (due.catchUp limit.get).symm.trans h
    rfl

theorem Due.dueOccurrences_returns (sound : calendar.Sound) (built : d.Built calendar)
    (due : Due calendar d now c backlog) (start : d.Cursor calendar c) (range : d.InRange calendar c now)
    (hnow : c ≤ now) (future : d.nextAfter calendar now = .ok t') (policy : MisfirePolicy) :
    ∃ occurrences, d.dueOccurrences calendar c now policy = .ok occurrences := by
  cases policy with
  | skip => exact ⟨_, rfl⟩
  | catchUp limit => exact ⟨_, due.catchUp limit.get⟩
  | latest =>
    have hlatest : ∃ o, d.latestDue calendar c now = .ok o := by
      cases d with
      | interval every =>
        obtain ⟨ms, hms, hdelta, hpos⟩ := built.interval
        rw [latestDue_interval hms hnow]
        have hdelta : 0 < ms * 1000 := by omega
        have hpassed : 0 ≤ (now - c) / (ms * 1000) :=
          Int.ediv_nonneg (Int.sub_nonneg_of_le hnow) hdelta.le
        refine ⟨_, checkedAdd_eq_ok.mpr ⟨sound.convex c now _ range.cursor range.now ?_ ?_, rfl⟩⟩
        · exact Int.le_add_of_nonneg_right (Int.mul_nonneg hpassed hdelta.le)
        · exact Int.add_le_of_le_sub_left (Int.ediv_mul_le _ hdelta.ne')
      | cron expression =>
        obtain ⟨next, hparse, -⟩ := bind_ok future
        exact latestDue_returns sound hparse range ((nextAfter_cron hparse).mp future) start (le_refl c) hnow
    obtain ⟨o, ho⟩ := hlatest
    exact ⟨[o], bind_eq_ok.mpr ⟨o, ho, rfl⟩⟩

theorem Due.countDue_returns (due : Due calendar d now t backlog) (rounds : Nat) :
    ∃ count, d.countDue calendar now rounds t = .ok count := by
  induction due generalizing rounds with
  | later h =>
    cases rounds with
    | zero => exact ⟨0, rfl⟩
    | succ rounds =>
      unfold ScheduleDefinition.countDue
      rw [if_neg (not_le.mpr h)]
      exact ⟨0, rfl⟩
  | now h next _ ih =>
    cases rounds with
    | zero => exact ⟨0, rfl⟩
    | succ rounds =>
      obtain ⟨count, hcount⟩ := ih rounds
      unfold ScheduleDefinition.countDue
      rw [if_pos h]
      exact ⟨count + 1, bind_eq_ok.mpr ⟨_, next, bind_eq_ok.mpr ⟨count, hcount, rfl⟩⟩⟩

theorem Due.dueCount_returns (built : d.Built calendar) (due : Due calendar d now c backlog) :
    ∃ count, d.dueCount calendar c now = .ok count := by
  cases d with
  | interval every =>
    obtain ⟨ms, hms, -, -⟩ := built.interval
    exact ⟨_, bind_eq_ok.mpr ⟨ms, hms, rfl⟩⟩
  | cron expression => exact due.countDue_returns dueCountLimit

theorem Due.materialize_eq {m : Materialization} (sound : calendar.Sound)
    (due : Due calendar d now c backlog) (start : d.Cursor calendar c) (hnow : c ≤ now)
    (h : d.materialize calendar c now policy = .ok m) : m.occurrences = selected backlog policy ∧
      m.skipped = d.counted backlog.length - m.occurrences.length ∧
      d.nextAfter calendar now = .ok m.nextRunAt := by
  unfold ScheduleDefinition.materialize at h
  rw [if_neg (not_lt.mpr hnow)] at h
  obtain ⟨occurrences, hoccurrences, h⟩ := bind_ok h
  obtain ⟨count, hcount, h⟩ := bind_ok h
  obtain ⟨next, hnext, h⟩ := bind_ok h
  cases h
  refine ⟨due.dueOccurrences sound start hnow hoccurrences, ?_, hnext⟩
  rw [due.dueCount hnow hcount]

theorem Due.materialize_returns (sound : calendar.Sound) (built : d.Built calendar)
    (due : Due calendar d now c backlog) (start : d.Cursor calendar c) (range : d.InRange calendar c now)
    (future : d.nextAfter calendar now = .ok t') (policy : MisfirePolicy) :
    ∃ m, d.materialize calendar c now policy = .ok m := by
  unfold ScheduleDefinition.materialize
  split
  · exact ⟨_, rfl⟩
  · rename_i hnow
    have hnow := not_lt.mp hnow
    obtain ⟨occurrences, hoccurrences⟩ := due.dueOccurrences_returns sound built start range hnow future policy
    obtain ⟨count, hcount⟩ := due.dueCount_returns built
    exact ⟨_, bind_eq_ok.mpr ⟨_, hoccurrences, bind_eq_ok.mpr ⟨_, hcount, bind_eq_ok.mpr ⟨_, future, rfl⟩⟩⟩⟩

theorem selected_sublist (backlog : List Timestamp) (policy : MisfirePolicy) :
    (selected backlog policy).Sublist backlog := by
  cases policy with
  | skip => cases backlog <;> simp [selected]
  | latest =>
    cases h : backlog.getLast? with
    | none => simp [selected, h]
    | some o => simpa [selected, h] using mem_of_getLast? h
  | catchUp limit => exact take_sublist _ _

/-- `materialize` takes from the walk what the policy says, and moves the cursor past `now`. -/
theorem materialize_follows_walk (calendar : Calendar) (sound : calendar.Sound) (d : ScheduleDefinition)
    (built : d.Built calendar) (c now next : Timestamp) (policy : MisfirePolicy)
    (start : d.Cursor calendar c) (range : d.InRange calendar c now)
    (future : d.nextAfter calendar now = .ok next) :
    ∃ backlog m, Due calendar d now c backlog ∧ d.materialize calendar c now policy = .ok m ∧
      (now < c → m = ⟨[], c, 0⟩) ∧
      (c ≤ now → m.occurrences = selected backlog policy ∧ m.occurrences.Pairwise (· < ·) ∧
        (∀ o ∈ m.occurrences, c ≤ o ∧ o ≤ now) ∧ m.nextRunAt = next ∧ now < next) := by
  obtain ⟨backlog, due⟩ := due_exists sound built range.cursor future
  obtain ⟨m, hm⟩ := due.materialize_returns sound built start range future policy
  refine ⟨backlog, m, due, hm, fun hlater => ?_, fun hnow => ?_⟩
  · unfold materialize at hm
    rw [if_pos hlater] at hm
    cases hm
    rfl
  · obtain ⟨hoccurrences, -, hnext⟩ := due.materialize_eq sound start hnow hm
    obtain ⟨hsorted, hrange⟩ := due.sorted built.valid
    have hsub := selected_sublist backlog policy
    cases hnext.symm.trans future
    rw [hoccurrences]
    exact ⟨rfl, hsorted.sublist hsub, fun o ho => hrange o (hsub.subset ho), rfl,
      nextAfter_later built.valid future⟩

/-! ## The policy `Latest` on any cursor -/

/-- A materialization under `Latest` gives one occurrence between the cursor and `now`, and a later
cursor, exactly when there is such an occurrence. -/
theorem latest_progresses_iff (calendar : Calendar) (sound : calendar.Sound) (expression : String)
    (built : Built calendar (.cron expression)) (c now next : Timestamp) (hnow : c ≤ now)
    (range : InRange calendar (.cron expression) c now)
    (future : (cron expression).nextAfter calendar now = .ok next) :
    (∃ m o, (cron expression).materialize calendar c now .latest = .ok m ∧ m.occurrences = [o] ∧
        c ≤ o ∧ o ≤ now ∧ now < m.nextRunAt) ↔
      ∃ o, Occurs calendar expression o ∧ c ≤ o ∧ o ≤ now := by
  obtain ⟨after, hparse, -⟩ := bind_eq_ok.mp future
  constructor
  · rintro ⟨m, o, hm, hoccurrences, hc, ho, -⟩
    have hgrid := (materialize_occurs (Or.inl rfl) hm).1 o (by rw [hoccurrences]; exact mem_singleton_self o)
    exact ⟨o, hgrid, hc, ho⟩
  · rintro ⟨o', occurs, hc, ho'⟩
    obtain ⟨o, ho⟩ := latestDue_returns sound hparse range ((nextAfter_cron hparse).mp future) occurs hc ho'
    have hgreatest := latestDue_greatest sound hparse ho occurs hc ho'
    obtain ⟨backlog, due⟩ := due_exists sound built range.cursor future
    obtain ⟨count, hcount⟩ := due.dueCount_returns built
    refine ⟨⟨[o], next, count - 1⟩, o, ?_, rfl, hc.trans (hgreatest.2 ⟨occurs, ho'⟩), hgreatest.1.2,
      nextAfter_later built.valid future⟩
    unfold materialize
    rw [if_neg (not_lt.mpr hnow)]
    exact bind_eq_ok.mpr ⟨[o], bind_eq_ok.mpr ⟨o, ho, rfl⟩, bind_eq_ok.mpr ⟨count, hcount,
      bind_eq_ok.mpr ⟨next, future, rfl⟩⟩⟩

/-! ## What is skipped -/

/-- What a materialization reports as skipped is what it leaves of the walk: whether anything, and how
much of a walk that is not too long. -/
def Reports (m : Materialization) (backlog : List Timestamp) : Prop :=
  (0 < m.skipped ↔ ∃ o ∈ backlog, o ∉ m.occurrences) ∧
    (backlog.length ≤ 10000 → m.skipped = (backlog.filter (· ∉ m.occurrences)).length)

theorem length_left_out {occurrences : List Timestamp} (hsub : occurrences.Sublist backlog)
    (nodup : backlog.Nodup) :
    (backlog.filter (· ∉ occurrences)).length = backlog.length - occurrences.length := by
  have hperm : (backlog.filter (· ∈ occurrences)).Perm occurrences := by
    refine (List.perm_ext_iff_of_nodup (nodup.filter _) (nodup.sublist hsub)).mpr fun o => ?_
    simp only [mem_filter, decide_eq_true_eq, and_iff_right_iff_imp]
    exact fun ho => hsub.subset ho
  have hsplit := List.length_eq_length_filter_add (l := backlog) (fun o => decide (o ∈ occurrences))
  simp only [decide_not]
  rw [hperm.length_eq] at hsplit
  omega

theorem length_selected {backlog : List Timestamp} (h : backlog ≠ []) (policy : MisfirePolicy) :
    (selected backlog policy).length = match policy with
      | .skip | .latest => 1
      | .catchUp limit => min limit.get backlog.length := by
  cases policy with
  | skip => cases backlog <;> simp_all [selected]
  | latest => simp [selected, List.getLast?_eq_some_getLast h]
  | catchUp limit => simp [selected]

/-- A discarded occurrence goes unreported exactly when a cron expression has more occurrences due
than a limit that is not below the cap of the count. -/
theorem skipped_reported_iff (calendar : Calendar) (sound : calendar.Sound) (d : ScheduleDefinition)
    (built : d.Built calendar) (c now : Timestamp) (policy : MisfirePolicy) (m : Materialization)
    (start : d.Cursor calendar c) (hcursor : calendar.supported c = true) (hnow : c ≤ now)
    (h : d.materialize calendar c now policy = .ok m) : ∃ backlog, Due calendar d now c backlog ∧
      (Reports m backlog ↔ ¬ ∃ expression limit, d = .cron expression ∧ policy = .catchUp limit ∧
        10000 ≤ limit.get ∧ limit.get < backlog.length) := by
  have future : ∃ next, d.nextAfter calendar now = .ok next := by
    unfold materialize at h
    rw [if_neg (not_lt.mpr hnow)] at h
    obtain ⟨_, -, h⟩ := bind_eq_ok.mp h
    obtain ⟨_, -, h⟩ := bind_eq_ok.mp h
    obtain ⟨next, hnext, -⟩ := bind_eq_ok.mp h
    exact ⟨next, hnext⟩
  obtain ⟨next, future⟩ := future
  obtain ⟨backlog, due⟩ := due_exists sound built hcursor future
  refine ⟨backlog, due, ?_⟩
  obtain ⟨hoccurrences, hskipped, -⟩ := due.materialize_eq sound start hnow h
  have hsub := selected_sublist backlog policy
  have hleft := length_left_out hsub ((due.sorted built.valid).1.imp ne_of_lt)
  have hne : backlog ≠ [] := by
    obtain ⟨rest, rfl⟩ := due.nonempty hnow
    exact cons_ne_nil _ _
  have hpos : 0 < backlog.length := length_pos_iff.mpr hne
  have hlength := length_selected hne policy
  unfold Reports
  rw [hskipped, hoccurrences]
  have hexists : (∃ o ∈ backlog, o ∉ selected backlog policy) ↔
      0 < (backlog.filter (· ∉ selected backlog policy)).length := by
    rw [List.length_pos_iff_exists_mem]
    simp [mem_filter]
  rw [hexists, hleft]
  cases d with
  | interval every => simp [counted]
  | cron expression =>
    simp only [counted, dueCountLimit]
    cases policy with
    | skip =>
      dsimp only at hlength
      simp only [hlength, reduceCtorEq, false_and, and_false, exists_false, not_false_eq_true, iff_true]
      omega
    | latest =>
      dsimp only at hlength
      simp only [hlength, reduceCtorEq, false_and, and_false, exists_false, not_false_eq_true, iff_true]
      omega
    | catchUp limit =>
      simp only [hlength, ScheduleDefinition.cron.injEq, MisfirePolicy.catchUp.injEq, exists_and_left,
        exists_eq_left']
      omega

end ScheduleDefinition

end Core

/-! ## An hourly schedule -/

theorem hourlyCalendar_sound : hourlyCalendar.Sound where
  convex _ _ _ _ _ _ _ := rfl
  after text next h := by
    cases h
    refine ⟨{o | o % 3600000000 = 0}, fun t t' => ?_⟩
    have hleast : IsLeast {o | o ∈ {o : Int | o % 3600000000 = 0} ∧ t < o} (nextHour t) := by
      refine ⟨⟨nextHour_mod t, lt_nextHour t⟩, fun o ho => ?_⟩
      have hmod : o % 3600000000 = 0 := ho.1
      have hlt := ho.2
      unfold nextHour
      omega
    rw [Option.some.injEq]
    exact ⟨fun h => h ▸ hleast, fun h => IsLeast.unique hleast h⟩

theorem hourly_built : Core.ScheduleDefinition.Built hourlyCalendar (.cron onTheHour) :=
  .inr ⟨onTheHour, bind_eq_ok.mpr ⟨_, parseCron_hourly, rfl⟩⟩

theorem hourly_nextAfter (t : Timestamp) :
    (Core.ScheduleDefinition.cron onTheHour).nextAfter hourlyCalendar t = .ok (nextHour t) :=
  (Core.ScheduleDefinition.nextAfter_cron parseCron_hourly).mpr rfl

theorem hourly_inRange (c now : Timestamp) :
    Core.ScheduleDefinition.InRange hourlyCalendar (.cron onTheHour) c now :=
  ⟨rfl, rfl, fun _ _ => rfl⟩

theorem hourly_follows_walk :
    ∃ backlog m, Core.ScheduleDefinition.Due hourlyCalendar (.cron onTheHour) 9000000000 0 backlog ∧
      (Core.ScheduleDefinition.cron onTheHour).materialize hourlyCalendar 0 9000000000 .latest = .ok m ∧
      m.occurrences = backlog.getLast?.toList ∧ m.nextRunAt = 10800000000 := by
  obtain ⟨backlog, m, due, hm, -, h⟩ := Core.ScheduleDefinition.materialize_follows_walk hourlyCalendar
    hourlyCalendar_sound (.cron onTheHour) hourly_built 0 9000000000 _ .latest (occurs_hourly.mpr rfl)
    (hourly_inRange 0 9000000000) (hourly_nextAfter 9000000000)
  obtain ⟨hoccurrences, -, -, hnext, -⟩ := h (by decide)
  exact ⟨backlog, m, due, hm, hoccurrences, hnext⟩

theorem hourly_latest_progresses :
    ∃ m o, (Core.ScheduleDefinition.cron onTheHour).materialize hourlyCalendar 1800000000 9000000000 .latest =
        .ok m ∧ m.occurrences = [o] ∧ 1800000000 ≤ o ∧ o ≤ 9000000000 ∧ 9000000000 < m.nextRunAt :=
  (Core.ScheduleDefinition.latest_progresses_iff hourlyCalendar hourlyCalendar_sound onTheHour hourly_built
    1800000000 9000000000 _ (by decide) (hourly_inRange _ _) (hourly_nextAfter _)).mpr
    ⟨3600000000, occurs_hourly.mpr rfl, by decide, by decide⟩

def halfPastConfig : Core.ScheduleConfig :=
  { id := Uuid.ofNat 50, name := "s", definition := .cron onTheHour
    task := { taskName := "a", payload := .null }, startAt := some 1800000000 }

theorem started_off_grid : firstRun hourlyCalendar halfPastConfig 0 = .ok 1800000000 ∧
      (Core.ScheduleDefinition.cron onTheHour).nextAfter hourlyCalendar 2400000000 = .ok 3600000000 ∧
      (Core.ScheduleDefinition.cron onTheHour).materialize hourlyCalendar 1800000000 2400000000 .latest =
        .error .noFutureOccurrence := by
  refine ⟨?_, hourly_nextAfter _, ?_⟩
  · decide +kernel
  · decide +kernel

theorem hourly_due (n : Nat) (t : Int) (h : t % 3600000000 = 0) :
    ∃ backlog, Core.ScheduleDefinition.Due hourlyCalendar (.cron onTheHour) (t + n * 3600000000) t backlog ∧
      backlog.length = n + 1 := by
  have hnext : nextHour t = t + 3600000000 := by
    unfold nextHour
    omega
  induction n generalizing t with
  | zero =>
    refine ⟨[t], .now (by simp) (hourly_nextAfter t) (.later ?_), rfl⟩
    rw [hnext, Nat.cast_zero, zero_mul]
    exact Int.add_lt_add_left (by decide) t
  | succ n ih =>
    obtain ⟨backlog, due, hlength⟩ := ih (t + 3600000000) (by omega) (by unfold nextHour; omega)
    have hnow : t + 3600000000 + n * 3600000000 = t + (n + 1 : Nat) * 3600000000 := by
      push_cast
      ring
    rw [hnow, ← hnext] at due
    have hdue : t ≤ t + (n + 1 : Nat) * 3600000000 :=
      Int.le_add_of_nonneg_right (Int.mul_nonneg (Int.natCast_nonneg _) (by decide))
    exact ⟨t :: backlog, .now hdue (hourly_nextAfter t) due, by rw [length_cons, hlength]⟩

theorem hourly_skip_reported :
    ∃ m backlog, (Core.ScheduleDefinition.cron onTheHour).materialize hourlyCalendar 0 9000000000 .skip =
        .ok m ∧ Core.ScheduleDefinition.Due hourlyCalendar (.cron onTheHour) 9000000000 0 backlog ∧
      Core.ScheduleDefinition.Reports m backlog := by
  have hm : (Core.ScheduleDefinition.cron onTheHour).materialize hourlyCalendar 0 9000000000 .skip =
      .ok ⟨[0], 10800000000, 2⟩ := by decide +kernel
  obtain ⟨backlog, due, h⟩ := Core.ScheduleDefinition.skipped_reported_iff hourlyCalendar hourlyCalendar_sound
    (.cron onTheHour) hourly_built 0 9000000000 .skip _ (occurs_hourly.mpr rfl) rfl (by decide) hm
  exact ⟨_, backlog, hm, due, h.mpr (by simp)⟩

theorem discarded_silently :
    ∃ m backlog, (Core.ScheduleDefinition.cron onTheHour).materialize hourlyCalendar 0 36000000000000
        (.catchUp ⟨10000, by decide, by decide⟩) = .ok m ∧
      Core.ScheduleDefinition.Due hourlyCalendar (.cron onTheHour) 36000000000000 0 backlog ∧
      m.skipped = 0 ∧ ∃ o ∈ backlog, o ∉ m.occurrences := by
  obtain ⟨backlog, due, hlength⟩ := hourly_due 10000 0 rfl
  obtain ⟨m, hm⟩ := due.materialize_returns hourlyCalendar_sound hourly_built (occurs_hourly.mpr rfl)
    (hourly_inRange _ _) (hourly_nextAfter _) (.catchUp ⟨10000, by decide, by decide⟩)
  obtain ⟨hoccurrences, hskipped, -⟩ := due.materialize_eq hourlyCalendar_sound (occurs_hourly.mpr rfl)
    (by decide) hm
  have hleft := Core.ScheduleDefinition.length_left_out
    (Core.ScheduleDefinition.selected_sublist backlog (.catchUp ⟨10000, by decide, by decide⟩))
    ((due.sorted hourly_built.valid).1.imp ne_of_lt)
  have htaken := Core.ScheduleDefinition.length_selected 
    (List.ne_nil_of_length_eq_add_one hlength) (.catchUp ⟨10000, by decide, by decide⟩)
  refine ⟨m, backlog, hm, due, ?_, ?_⟩
  · rw [hskipped, hoccurrences, htaken, hlength]
    rfl
  · rw [htaken, hlength] at hleft
    obtain ⟨o, ho⟩ := List.exists_mem_of_length_pos (l := backlog.filter _) (by rw [hleft]; decide)
    rw [mem_filter] at ho
    exact ⟨o, ho.1, by rw [hoccurrences]; simpa using ho.2⟩

end Pgtask
