import Pgtask.Effect.Task
import Pgtask.Run

/-!
# Waits

A task waits under exactly one open row of `waits` or `result_waits`, and what it
waits for can still come. While triggers are queued, a finished task may still
have an open row, and a waiting task may watch a finished child: the queued
`resolve_task_result` is what makes up for it.
-/

open Sql Table

namespace Pgtask

def OpenWait (db : Database) (k : StepKey) (w : Wait) : Prop :=
  db.waits.get? k = some w ∧ w.resolvedAt = none

def OpenResult (db : Database) (k : StepKey) (w : ResultWait) : Prop :=
  db.resultWaits.get? k = some w ∧ w.resolvedAt = none

def Owed (s : Session) (id : Uuid) : Prop := ∃ new, .resolveTaskResult id new ∈ s.queued

def Parked (s : Session) (id : Uuid) : Prop :=
  ∃ t, s.db.tasks.get? id = some t ∧
    (t.state = .waiting ∨ t.state.terminal = true ∧ Owed s id)

/-- If the parent waits, its child has not finished, or the parent is about to be told. -/
def Watches (s : Session) (parent child : Uuid) : Prop :=
  ∀ t, s.db.tasks.get? parent = some t → t.state = .waiting →
    ∃ c, s.db.tasks.get? child = some c ∧ c.parentTaskId = some parent ∧
      (c.state.outstanding = true ∨ Owed s child)

structure SingleOpen (db : Database) : Prop where
  waits : ∀ k k' w w', OpenWait db k w → OpenWait db k' w' → k.taskId = k'.taskId → k = k'
  results : ∀ k k' w w', OpenResult db k w → OpenResult db k' w' → k.taskId = k'.taskId → k = k'
  apart : ∀ k k' w w', OpenWait db k w → OpenResult db k' w' → k.taskId ≠ k'.taskId

structure WaitInv (s : Session) : Prop where
  single : SingleOpen s.db
  waits : ∀ k w, OpenWait s.db k w → Parked s k.taskId ∧ s.db.checkpoints.get? k = none ∧
    s.db.signals.get? (w.key k) = none
  results : ∀ k w, OpenResult s.db k w → Parked s k.taskId ∧ s.db.checkpoints.get? k = none ∧
    Watches s k.taskId w.resultTaskId
  awaited : ∀ id t, s.db.tasks.get? id = some t → t.state = .waiting →
    ∃ k, k.taskId = id ∧ ((∃ w, OpenWait s.db k w) ∨ ∃ w, OpenResult s.db k w)

variable {e : Env} {l : Label} {s s' : Session} {id : Uuid} {t new : Task}

/-! ## Tasks change, waits do not -/

structure SameWaits (db db' : Database) : Prop where
  waits : db'.waits = db.waits
  resultWaits : db'.resultWaits = db.resultWaits
  checkpoints : db'.checkpoints = db.checkpoints
  signals : db'.signals = db.signals

theorem WaitInv.tasks (h : WaitInv s) (same : SameWaits s.db s'.db)
    (parked : ∀ id, Parked s id → Parked s' id)
    (asleep : ∀ id t', s'.db.tasks.get? id = some t' → t'.state = .waiting →
      ∃ t, s.db.tasks.get? id = some t ∧ t.state = .waiting)
    (children : ∀ id c p, s.db.tasks.get? id = some c → c.parentTaskId = some p →
      (c.state.outstanding = true ∨ Owed s id) →
      ∃ c', s'.db.tasks.get? id = some c' ∧ c'.parentTaskId = some p ∧
        (c'.state.outstanding = true ∨ Owed s' id)) : WaitInv s' := by
  have hopen : ∀ k w, OpenWait s'.db k w ↔ OpenWait s.db k w := fun k w => by
    unfold OpenWait
    rw [same.waits]
  have hresult : ∀ k w, OpenResult s'.db k w ↔ OpenResult s.db k w := fun k w => by
    unfold OpenResult
    rw [same.resultWaits]
  refine ⟨⟨?_, ?_, ?_⟩, ?_, ?_, ?_⟩
  · intro k k' w w' hk hk'
    exact h.single.waits k k' w w' ((hopen _ _).mp hk) ((hopen _ _).mp hk')
  · intro k k' w w' hk hk'
    exact h.single.results k k' w w' ((hresult _ _).mp hk) ((hresult _ _).mp hk')
  · intro k k' w w' hk hk'
    exact h.single.apart k k' w w' ((hopen _ _).mp hk) ((hresult _ _).mp hk')
  · intro k w hk
    obtain ⟨hp, hc, hs⟩ := h.waits k w ((hopen _ _).mp hk)
    exact ⟨parked _ hp, by rw [same.checkpoints]; exact hc, by rw [same.signals]; exact hs⟩
  · intro k w hk
    obtain ⟨hp, hc, hw⟩ := h.results k w ((hresult _ _).mp hk)
    refine ⟨parked _ hp, by rw [same.checkpoints]; exact hc, fun t' ht' hwait => ?_⟩
    obtain ⟨t, ht, hwait⟩ := asleep _ t' ht' hwait
    obtain ⟨c, hc, hparent, hout⟩ := hw t ht hwait
    exact children _ c _ hc hparent hout
  · intro id t' ht' hwait
    obtain ⟨t, ht, hwait⟩ := asleep id t' ht' hwait
    simpa only [hopen, hresult] using h.awaited id t ht hwait

theorem WaitInv.write (h : WaitInv s) (same : SameWaits s.db s'.db)
    (row : s.db.tasks.get? id = some t) (tasks : s'.db.tasks = s.db.tasks.put id new)
    (queue : ∀ x ∈ s.queued, x ∈ s'.queued)
    (parent : ∀ p, t.parentTaskId = some p → new.parentTaskId = some p)
    (asleep : new.state = .waiting → t.state = .waiting)
    (parked : t.state = .waiting ∨ t.state.terminal = true ∧ Owed s id →
      new.state = .waiting ∨ new.state.terminal = true ∧ Owed s' id)
    (watched : t.state.outstanding = true → new.state.outstanding = true ∨ Owed s' id) :
    WaitInv s' := by
  have owed : ∀ j, Owed s j → Owed s' j := fun j ⟨x, hx⟩ => ⟨x, queue _ hx⟩
  have get : ∀ j, s'.db.tasks.get? j = if j = id then some new else s.db.tasks.get? j := fun j => by
    rw [tasks, get?_put]
  refine h.tasks same ?_ ?_ ?_
  · rintro j ⟨c, hc, hstate⟩
    by_cases hj : j = id
    · subst hj
      rw [row] at hc
      cases hc
      exact ⟨new, by rw [get, if_pos rfl], parked hstate⟩
    · exact ⟨c, by rw [get, if_neg hj, hc], hstate.imp_right fun hs => ⟨hs.1, owed j hs.2⟩⟩
  · intro j t' ht' hwait
    rw [get] at ht'
    split at ht'
    · rename_i hj
      cases ht'
      exact ⟨t, by rw [hj, row], asleep hwait⟩
    · exact ⟨t', ht', hwait⟩
  · intro j c p hc hparent hout
    by_cases hj : j = id
    · subst hj
      rw [row] at hc
      cases hc
      refine ⟨new, by rw [get, if_pos rfl], parent p hparent, ?_⟩
      rcases hout with hout | hout
      · exact watched hout
      · exact .inr (owed j hout)
    · exact ⟨c, by rw [get, if_neg hj, hc], hparent, hout.imp_right (owed j)⟩

theorem WaitInv.insert (h : WaitInv s) (same : SameWaits s.db s'.db)
    (free : s.db.tasks.get? id = none) (tasks : s'.db.tasks = s.db.tasks.put id new)
    (queue : s'.queued = s.queued) (awake : new.state ≠ .waiting) : WaitInv s' := by
  have owed : ∀ j, Owed s j → Owed s' j := fun j ⟨x, hx⟩ => ⟨x, by rw [queue]; exact hx⟩
  have stay : ∀ j c, s.db.tasks.get? j = some c → s'.db.tasks.get? j = some c := by
    intro j c hc
    rw [tasks, get?_put, if_neg, hc]
    rintro rfl
    rw [free] at hc
    cases hc
  refine h.tasks same ?_ ?_ ?_
  · rintro j ⟨c, hc, hstate⟩
    exact ⟨c, stay j c hc, hstate.imp_right fun hs => ⟨hs.1, owed j hs.2⟩⟩
  · intro j t' ht' hwait
    rw [tasks, get?_put] at ht'
    split at ht'
    · cases ht'
      exact absurd hwait awake
    · exact ⟨t', ht', hwait⟩
  · intro j c p hc hparent hout
    exact ⟨c, stay j c hc, hparent, hout.imp_right (owed j)⟩

/-! ## Waits end -/

theorem WaitInv.close (h : WaitInv s) (id : Uuid)
    (waits : ∀ j w, OpenWait s'.db j w ↔ OpenWait s.db j w ∧ j.taskId ≠ id)
    (results : ∀ j w, OpenResult s'.db j w ↔ OpenResult s.db j w ∧ j.taskId ≠ id)
    (checkpoints : ∀ j, j.taskId ≠ id → s'.db.checkpoints.get? j = s.db.checkpoints.get? j)
    (signals : ∀ j, j.taskId ≠ id → s'.db.signals.get? j = s.db.signals.get? j)
    (others : ∀ j, j ≠ id → s'.db.tasks.get? j = s.db.tasks.get? j)
    (awake : ∀ t, s'.db.tasks.get? id = some t → t.state ≠ .waiting)
    (watched : ∀ k w t, OpenResult s.db k w → w.resultTaskId = id → k.taskId ≠ id →
      s.db.tasks.get? k.taskId = some t → t.state = .waiting →
      ∃ c, s'.db.tasks.get? id = some c ∧ c.parentTaskId = some k.taskId ∧
        (c.state.outstanding = true ∨ Owed s' id))
    (owed : ∀ j, j ≠ id → Owed s j → Owed s' j) : WaitInv s' := by
  have parked : ∀ j, j ≠ id → Parked s j → Parked s' j := by
    rintro j hj ⟨t, ht, hstate⟩
    exact ⟨t, by rw [others j hj, ht], hstate.imp_right fun hs => ⟨hs.1, owed j hj hs.2⟩⟩
  refine ⟨⟨?_, ?_, ?_⟩, ?_, ?_, ?_⟩
  · intro k k' w w' hk hk'
    exact h.single.waits k k' w w' ((waits _ _).mp hk).1 ((waits _ _).mp hk').1
  · intro k k' w w' hk hk'
    exact h.single.results k k' w w' ((results _ _).mp hk).1 ((results _ _).mp hk').1
  · intro k k' w w' hk hk'
    exact h.single.apart k k' w w' ((waits _ _).mp hk).1 ((results _ _).mp hk').1
  · intro k w hk
    obtain ⟨hk, hid⟩ := (waits _ _).mp hk
    obtain ⟨hp, hc, hs⟩ := h.waits k w hk
    exact ⟨parked _ hid hp, by rw [checkpoints k hid, hc], by rw [signals (w.key k) hid, hs]⟩
  · intro k w hk
    obtain ⟨hk, hid⟩ := (results _ _).mp hk
    obtain ⟨hp, hc, hw⟩ := h.results k w hk
    refine ⟨parked _ hid hp, by rw [checkpoints k hid, hc], fun t ht hwait => ?_⟩
    rw [others _ hid] at ht
    by_cases hchild : w.resultTaskId = id
    · rw [hchild]
      exact watched k w t hk hchild hid ht hwait
    · obtain ⟨c, hc, hparent, hout⟩ := hw t ht hwait
      exact ⟨c, by rw [others _ hchild, hc], hparent, hout.imp_right (owed _ hchild)⟩
  · intro j t ht hwait
    have hj : j ≠ id := by
      rintro rfl
      exact awake t ht hwait
    rw [others j hj] at ht
    obtain ⟨k, rfl, hk⟩ := h.awaited j t ht hwait
    refine ⟨k, rfl, hk.imp ?_ ?_⟩
    · rintro ⟨w, hw⟩
      exact ⟨w, (waits k w).mpr ⟨hw, hj⟩⟩
    · rintro ⟨w, hw⟩
      exact ⟨w, (results k w).mpr ⟨hw, hj⟩⟩

theorem WaitInv.none_open (h : WaitInv s) (free : ¬ Parked s id) :
    (∀ j w, OpenWait s.db j w → j.taskId ≠ id) ∧ ∀ j w, OpenResult s.db j w → j.taskId ≠ id := by
  constructor
  · rintro j w hj rfl
    exact free (h.waits j w hj).1
  · rintro j w hj rfl
    exact free (h.results j w hj).1

theorem not_parked_running (row : s.db.tasks.get? id = some t) (running : t.state = .running) :
    ¬ Parked s id := by
  rintro ⟨t', ht', hstate⟩
  rw [row] at ht'
  cases ht'
  rw [running] at hstate
  rcases hstate with hw | ⟨hw, -⟩ <;> cases hw

theorem WaitInv.watched (h : WaitInv s) {k : StepKey} {w : ResultWait} (hk : OpenResult s.db k w)
    (ht : s.db.tasks.get? k.taskId = some t) (hwait : t.state = .waiting) :
    ∃ c, s.db.tasks.get? w.resultTaskId = some c ∧ c.parentTaskId = some k.taskId ∧
      (c.state.outstanding = true ∨ Owed s w.resultTaskId) :=
  (h.results k w hk).2.2 t ht hwait

theorem woken_child (now : Timestamp) (c : Task) : (c.woken now).parentTaskId = c.parentTaskId ∧
      (c.woken now).state.outstanding = c.state.outstanding := by
  unfold Task.woken
  split
  · rename_i hw
    exact ⟨rfl, by rw [hw]; rfl⟩
  · exact ⟨rfl, rfl⟩

theorem WaitInv.delivered {k : StepKey} {v : Json} {now : Timestamp} (h : WaitInv s)
    (tasks : s'.db.tasks = s.db.tasks.adjust k.taskId (Task.woken now))
    (checkpoints : s'.db.checkpoints = s.db.checkpoints.putNew k v)
    (signals : s'.db.signals = s.db.signals) (queue : s'.queued = s.queued)
    (waits : ∀ j w, OpenWait s'.db j w ↔ OpenWait s.db j w ∧ j.taskId ≠ k.taskId)
    (results : ∀ j w, OpenResult s'.db j w ↔ OpenResult s.db j w ∧ j.taskId ≠ k.taskId) :
    WaitInv s' := by
  have owed : ∀ j, Owed s j → Owed s' j := fun j ⟨x, hx⟩ => ⟨x, by rw [queue]; exact hx⟩
  refine h.close k.taskId waits results ?_ (fun j _ => by rw [signals]) ?_ ?_ ?_ fun j _ => owed j
  · intro j hj
    rw [checkpoints, get?_putNew, if_neg]
    rintro rfl
    exact hj rfl
  · intro j hj
    rw [tasks, get?_adjust, if_neg hj]
  · intro t ht
    rw [tasks, get?_adjust, if_pos rfl] at ht
    obtain ⟨t0, -, rfl⟩ := Option.map_eq_some_iff.mp ht
    exact woken_not_waiting _ _
  · intro j w t hj hchild _ ht hwait
    obtain ⟨c, hc, hparent, hout⟩ := h.watched hj ht hwait
    rw [hchild] at hc hout
    obtain ⟨hp, ho⟩ := woken_child now c
    refine ⟨c.woken now, ?_, hp.trans hparent, ?_⟩
    · rw [tasks, get?_adjust, if_pos rfl, hc]
      rfl
    · rw [ho]
      exact hout.imp_right (owed _)

theorem open_put_closed {α : Type} {table : Table StepKey α} (resolvedAt : α → Option Timestamp)
    {k j : StepKey} {r w : α} (closed : resolvedAt r ≠ none)
    (only : ∀ j w, table.get? j = some w → resolvedAt w = none → j.taskId = k.taskId → j = k) :
    (table.put k r).get? j = some w ∧ resolvedAt w = none ↔
      (table.get? j = some w ∧ resolvedAt w = none) ∧ j.taskId ≠ k.taskId := by
  rw [get?_put]
  constructor
  · rintro ⟨hj, hopen⟩
    split at hj
    · cases hj
      exact absurd hopen closed
    · rename_i hjk
      exact ⟨⟨hj, hopen⟩, fun hid => hjk (only j w hj hopen hid)⟩
  · rintro ⟨⟨hj, hopen⟩, hid⟩
    rw [if_neg fun hjk => hid (by rw [hjk])]
    exact ⟨hj, hopen⟩

theorem open_update_closed {α : Type} {table : Table StepKey α} (resolvedAt : α → Option Timestamp)
    {close : α → α} {id : Uuid} {j : StepKey} {w : α} (closed : ∀ w, resolvedAt (close w) ≠ none) :
    (table.update fun k w => if k.taskId = id ∧ resolvedAt w = none then close w else w).get? j = some w ∧
      resolvedAt w = none ↔ (table.get? j = some w ∧ resolvedAt w = none) ∧ j.taskId ≠ id := by
  rw [get?_update]
  constructor
  · rintro ⟨hj, hopen⟩
    obtain ⟨w0, hw0, hw⟩ := Option.map_eq_some_iff.mp hj
    split at hw
    · exact absurd hopen (hw ▸ closed w0)
    · rename_i hnot
      subst hw
      exact ⟨⟨hw0, hopen⟩, fun hid => hnot ⟨hid, hopen⟩⟩
  · rintro ⟨⟨hj, hopen⟩, hid⟩
    refine ⟨?_, hopen⟩
    rw [hj, Option.map_some, if_neg fun h => hid h.1]

/-! ## Waits begin -/

theorem WaitInv.park {k : StepKey} (h : WaitInv s) (row : s.db.tasks.get? k.taskId = some t)
    (running : t.state = .running) (tasks : s'.db.tasks = s.db.tasks.put k.taskId t.parked)
    (checkpoints : s'.db.checkpoints = s.db.checkpoints) (signals : s'.db.signals = s.db.signals)
    (queue : s'.queued = s.queued) (waits : ∀ j w, j ≠ k → (OpenWait s'.db j w ↔ OpenWait s.db j w))
    (results : ∀ j w, j ≠ k → (OpenResult s'.db j w ↔ OpenResult s.db j w))
    (opened : (∃ w, OpenWait s'.db k w) ∧ (∀ w, ¬ OpenResult s'.db k w) ∨
      (∃ w, OpenResult s'.db k w) ∧ ∀ w, ¬ OpenWait s'.db k w)
    (quiet : s.db.checkpoints.get? k = none)
    (unsignalled : ∀ w, OpenWait s'.db k w → s.db.signals.get? (w.key k) = none)
    (watches : ∀ w, OpenResult s'.db k w → ∃ c, s.db.tasks.get? w.resultTaskId = some c ∧
      c.parentTaskId = some k.taskId ∧ c.state.outstanding = true ∧ w.resultTaskId ≠ k.taskId) :
    WaitInv s' := by
  have get : ∀ j, s'.db.tasks.get? j = if j = k.taskId then some t.parked else s.db.tasks.get? j :=
    fun j => by rw [tasks, get?_put]
  have owed : ∀ j, Owed s' j ↔ Owed s j := fun j => by
    unfold Owed
    rw [queue]
  obtain ⟨hnowait, hnoresult⟩ := h.none_open (not_parked_running row running)
  have hwaits : ∀ j w, OpenWait s'.db j w → j = k ∨ OpenWait s.db j w ∧ j.taskId ≠ k.taskId := by
    intro j w hj
    by_cases hjk : j = k
    · exact .inl hjk
    · have hj := (waits j w hjk).mp hj
      exact .inr ⟨hj, hnowait j w hj⟩
  have hresults : ∀ j w, OpenResult s'.db j w → j = k ∨ OpenResult s.db j w ∧ j.taskId ≠ k.taskId := by
    intro j w hj
    by_cases hjk : j = k
    · exact .inl hjk
    · have hj := (results j w hjk).mp hj
      exact .inr ⟨hj, hnoresult j w hj⟩
  have parked : ∀ j, j ≠ k.taskId → Parked s j → Parked s' j := by
    rintro j hj ⟨c, hc, hstate⟩
    exact ⟨c, by rw [get, if_neg hj, hc], hstate.imp_right fun hs => ⟨hs.1, (owed j).mpr hs.2⟩⟩
  have self : Parked s' k.taskId := ⟨t.parked, by rw [get, if_pos rfl], .inl rfl⟩
  refine ⟨⟨?_, ?_, ?_⟩, ?_, ?_, ?_⟩
  · intro j j' w w' hj hj' heq
    rcases hwaits j w hj with rfl | ⟨hj, hne⟩ <;> rcases hwaits j' w' hj' with rfl | ⟨hj', hne'⟩
    · rfl
    · exact absurd heq.symm hne'
    · exact absurd heq hne
    · exact h.single.waits j j' w w' hj hj' heq
  · intro j j' w w' hj hj' heq
    rcases hresults j w hj with rfl | ⟨hj, hne⟩ <;> rcases hresults j' w' hj' with rfl | ⟨hj', hne'⟩
    · rfl
    · exact absurd heq.symm hne'
    · exact absurd heq hne
    · exact h.single.results j j' w w' hj hj' heq
  · intro j j' w w' hj hj' heq
    rcases hwaits j w hj with rfl | ⟨hj1, hne⟩ <;> rcases hresults j' w' hj' with rfl | ⟨hj2, hne'⟩
    · rcases opened with ⟨-, hno⟩ | ⟨-, hno⟩
      · exact hno w' hj'
      · exact hno w hj
    · exact hne' heq.symm
    · exact hne heq
    · exact h.single.apart j j' w w' hj1 hj2 heq
  · intro j w hj
    rw [checkpoints, signals]
    rcases hwaits j w hj with rfl | ⟨hj, hne⟩
    · exact ⟨self, quiet, unsignalled w hj⟩
    · obtain ⟨hp, hrest⟩ := h.waits j w hj
      exact ⟨parked _ hne hp, hrest⟩
  · intro j w hj
    rw [checkpoints]
    rcases hresults j w hj with rfl | ⟨hj, hne⟩
    · refine ⟨self, quiet, fun _ _ _ => ?_⟩
      obtain ⟨c, hc, hparent, hout, hchild⟩ := watches w hj
      exact ⟨c, by rw [get, if_neg hchild, hc], hparent, .inl hout⟩
    · obtain ⟨hp, hquiet, hw⟩ := h.results j w hj
      refine ⟨parked _ hne hp, hquiet, fun t' ht' hwait => ?_⟩
      rw [get, if_neg hne] at ht'
      obtain ⟨c, hc, hparent, hout⟩ := hw t' ht' hwait
      by_cases hchild : w.resultTaskId = k.taskId
      · rw [hchild, row] at hc
        cases hc
        exact ⟨t.parked, by rw [get, if_pos hchild], hparent, .inl rfl⟩
      · exact ⟨c, by rw [get, if_neg hchild, hc], hparent, hout.imp_right (owed _).mpr⟩
  · intro j t' ht' hwait
    by_cases hj : j = k.taskId
    · exact ⟨k, hj.symm, opened.imp (·.1) (·.1)⟩
    · rw [get, if_neg hj] at ht'
      obtain ⟨i, rfl, hi⟩ := h.awaited j t' ht' hwait
      have hik : i ≠ k := fun hik => hj (by rw [hik])
      refine ⟨i, rfl, ?_⟩
      simpa only [waits i _ hik, results i _ hik] using hi

/-! ## One effect -/

theorem owed_write (ho : t.state.outstanding = true) (hn : new.state.terminal = true) :
    Owed (s.write id t new) id := by
  refine ⟨new, List.mem_append_right _ ?_⟩
  unfold afterUpdate
  rw [ho, hn]
  simp

theorem mem_write {x : Trigger} (h : x ∈ s.queued) : x ∈ (s.write id t new).queued :=
  List.mem_append_left _ h

theorem WaitInv.leave {k : Uuid × Nat} {f : Attempt → Attempt} (h : WaitInv s)
    (row : s.db.tasks.get? id = some t) (running : t.state = .running)
    (parent : new.parentTaskId = t.parentTaskId) (awake : new.state ≠ .waiting) :
    WaitInv ((s.write id t new).endAttempt k f) := by
  refine h.write ⟨rfl, rfl, rfl, rfl⟩ row rfl (fun _ => mem_write) (fun p hp => parent.trans hp)
    (fun hw => absurd hw awake) ?_ ?_
  · rw [running]
    rintro (hw | ⟨hw, -⟩) <;> cases hw
  · intro ho
    by_cases hn : new.state.terminal = true
    · exact .inr (owed_write ho hn)
    · left
      simpa [TaskState.outstanding] using hn

theorem WaitInv.frame (h : WaitInv s) (same : SameWaits s.db s'.db)
    (tasks : s'.db.tasks = s.db.tasks) (owed : ∀ j, Owed s j → Owed s' j) : WaitInv s' := by
  refine h.tasks same ?_ ?_ ?_
  · rintro j ⟨t, ht, hstate⟩
    exact ⟨t, by rw [tasks, ht], hstate.imp_right fun hs => ⟨hs.1, owed j hs.2⟩⟩
  · intro j t ht hw
    exact ⟨t, by rw [← tasks, ht], hw⟩
  · intro j c p hc hparent hout
    exact ⟨c, by rw [tasks, hc], hparent, hout.imp_right (owed j)⟩

theorem Owed.pop {x : Trigger} {rest : List Trigger} {j : Uuid} (queue : s.queued = x :: rest)
    (other : ∀ new, x ≠ .resolveTaskResult j new) (hq : s'.queued = rest) (h : Owed s j) :
    Owed s' j := by
  obtain ⟨new, hnew⟩ := h
  rw [queue] at hnew
  exact ⟨new, hq ▸ (List.mem_cons.mp hnew).resolve_left (other new).symm⟩

theorem effect_keeps_waits (effect : Effect e l s s') (h : WaitInv s) : WaitInv s' := by
  cases effect with
  | claim row pending =>
    refine h.write ⟨rfl, rfl, rfl, rfl⟩ row rfl (fun _ => id) (fun _ => id) nofun ?_ fun _ => .inl rfl
    rw [pending]
    rintro (hw | ⟨hw, -⟩) <;> cases hw
  | renew row running =>
    refine h.write ⟨rfl, rfl, rfl, rfl⟩ row rfl (fun _ => id) (fun _ => id) id id .inl
  | yield row running => exact h.leave row running rfl nofun
  | complete row running => exact h.leave row running rfl nofun
  | fail row running =>
    refine h.leave row running rfl ?_
    unfold Task.failedWith
    simp only
    split <;> nofun
  | cancel row unfinished =>
    refine h.write ⟨rfl, rfl, rfl, rfl⟩ row rfl (fun _ => mem_write) (fun _ => id) nofun ?_ ?_
    · exact fun _ => .inr ⟨rfl, owed_write unfinished rfl⟩
    · exact fun _ => .inr (owed_write unfinished rfl)
  | retry row ended room idle =>
    refine h.write ⟨rfl, rfl, rfl, rfl⟩ row rfl (fun _ => mem_write) (fun _ => id) nofun ?_
      fun _ => .inl rfl
    rintro (hw | ⟨-, new, hnew⟩)
    · rcases ended with he | he <;> rw [he] at hw <;> cases hw
    · rw [idle] at hnew
      cases hnew
  | adopt row orphan =>
    refine h.write ⟨rfl, rfl, rfl, rfl⟩ row rfl (fun _ => id) (fun p hp => ?_) id id .inl
    rw [orphan] at hp
    cases hp
  | adoptStored row orphan =>
    refine h.write ⟨rfl, rfl, rfl, rfl⟩ row rfl (fun _ => id) (fun p hp => ?_) id id .inl
    rw [orphan] at hp
    cases hp
  | insert fresh free new =>
    exact h.insert ⟨rfl, rfl, rfl, rfl⟩ free rfl rfl (by rw [new.state]; nofun)
  | materialize fresh free new =>
    exact h.insert ⟨rfl, rfl, rfl, rfl⟩ free rfl rfl (by rw [new.state]; nofun)
  | @parkSignal _ k w t row running quiet noSignal isOpen =>
    refine h.park row running rfl rfl rfl ?_ ?_ ?_ ?_ quiet ?_ ?_
    · rw [write_outstanding (running_outstanding running) (by rfl)]
      rfl
    · intro j w' hj
      simp only [OpenWait, Session.endAttempt, Session.write, get?_put_of_ne _ _ hj]
    · exact fun _ _ _ => Iff.rfl
    · refine .inl ⟨⟨w, get?_put_self _ _ _, isOpen⟩, fun w' hw' => ?_⟩
      exact (h.none_open (not_parked_running row running)).2 k w' hw' rfl
    · rintro w' ⟨hw', -⟩
      simp only [Session.endAttempt, Session.write, get?_put_self, Option.some.injEq] at hw'
      exact hw' ▸ noSignal
    · intro w' hw'
      exact absurd rfl ((h.none_open (not_parked_running row running)).2 k w' hw')
  | @parkResult _ k w t c row running quiet child owned unfinished distinct isOpen =>
    refine h.park row running rfl rfl rfl ?_ ?_ ?_ ?_ quiet ?_ ?_
    · rw [write_outstanding (running_outstanding running) (by rfl)]
      rfl
    · exact fun _ _ _ => Iff.rfl
    · intro j w' hj
      simp only [OpenResult, Session.endAttempt, Session.write, get?_put_of_ne _ _ hj]
    · refine .inr ⟨⟨w, get?_put_self _ _ _, isOpen⟩, fun w' hw' => ?_⟩
      exact (h.none_open (not_parked_running row running)).1 k w' hw' rfl
    · intro w' hw'
      exact absurd rfl ((h.none_open (not_parked_running row running)).1 k w' hw')
    · rintro w' ⟨hw', -⟩
      simp only [Session.endAttempt, Session.write, get?_put_self, Option.some.injEq] at hw'
      exact hw' ▸ ⟨c, child, owned, unfinished, distinct.symm⟩
  | @checkpoint _ k v t row running free =>
    obtain ⟨hnowait, hnoresult⟩ := h.none_open (not_parked_running row running)
    refine h.close k.taskId (fun j w => ⟨fun hj => ⟨hj, hnowait j w hj⟩, And.left⟩)
      (fun j w => ⟨fun hj => ⟨hj, hnoresult j w hj⟩, And.left⟩) ?_ (fun _ _ => rfl) (fun _ _ => rfl) ?_ ?_
      fun _ _ => id
    · intro j hj
      refine get?_put_of_ne _ _ ?_
      rintro rfl
      exact hj rfl
    · intro t' ht' hw
      rw [row] at ht'
      cases ht'
      rw [running] at hw
      cases hw
    · intro j w t' hj hchild _ ht' hwait
      exact hchild ▸ h.watched hj ht' hwait
  | @signal _ k v t row free answered =>
    refine ⟨⟨h.single.waits, h.single.results, h.single.apart⟩, fun j w hj => ?_, h.results, h.awaited⟩
    obtain ⟨hp, hc, hs⟩ := h.waits j w hj
    refine ⟨hp, hc, ?_⟩
    rw [get?_put_of_ne _ _ fun hkey => answered j w hj.1 hkey hj.2, hs]
  | @deliver _ k w v outcome row isOpen =>
    refine h.delivered rfl rfl rfl rfl (fun j w' => ?_) fun j w' => ?_
    · exact open_put_closed Wait.resolvedAt (by simp) fun j w' hj ho hid =>
        h.single.waits j k w' w ⟨hj, ho⟩ ⟨row, isOpen⟩ hid
    · exact ⟨fun hj => ⟨hj, (h.single.apart k j w w' ⟨row, isOpen⟩ hj).symm⟩, And.left⟩
  | @deliverResult _ k w v outcome row isOpen =>
    refine h.delivered rfl rfl rfl rfl (fun j w' => ?_) fun j w' => ?_
    · exact ⟨fun hj => ⟨hj, h.single.apart j k w' w hj ⟨row, isOpen⟩⟩, And.left⟩
    · exact open_put_closed ResultWait.resolvedAt (by simp) fun j w' hj ho hid =>
        h.single.results j k w' w ⟨hj, ho⟩ ⟨row, isOpen⟩ hid
  | @staleTimeout _ k w w' v row resolved awake target still idle =>
    have hfree : ¬ Parked s k.taskId := by
      rintro ⟨t, ht, hw | ⟨-, new, hnew⟩⟩
      · exact awake t ht hw
      · rw [idle] at hnew
        cases hnew
    obtain ⟨hnowait, hnoresult⟩ := h.none_open hfree
    refine h.close k.taskId (fun j w => ⟨fun hj => ⟨hj, hnowait j w hj⟩, And.left⟩) (fun j w => ?_) ?_
      (fun _ _ => rfl) (fun _ _ => rfl) awake ?_ fun _ _ => id
    · exact open_put_closed ResultWait.resolvedAt still fun j w' hj ho hid =>
        absurd hid (hnoresult j w' ⟨hj, ho⟩)
    · intro j hj
      dsimp only
      rw [get?_putNew, if_neg]
      rintro rfl
      exact hj rfl
    · intro j w t' hj hchild _ ht' hwait
      exact hchild ▸ h.watched hj ht' hwait
  | @fireResolve _ id new rest queue row finished unwatched =>
    refine h.close id (fun j w => open_update_closed Wait.resolvedAt (by simp))
      (fun j w => open_update_closed ResultWait.resolvedAt (by simp))
      (fun _ _ => rfl) (fun _ _ => rfl) (fun _ _ => rfl) ?_ ?_ ?_
    · intro t ht hw
      have ht : s.db.tasks.get? id = some t := ht
      rw [row] at ht
      cases ht
      rw [hw] at finished
      cases finished
    · intro k w t hk hchild _ ht hwait
      exact absurd hwait (unwatched k w hk.1 hchild hk.2 t ht)
    · intro j hj
      refine Owed.pop queue (fun new' heq => ?_) rfl
      cases heq
      exact hj rfl
  | @delete _ id t row finished childless idle =>
    obtain ⟨keys, hd⟩ := deleteTask_spec e s.db id t
    have hidle : ∀ j, ¬ Owed s j := by
      rintro j ⟨new, hnew⟩
      rw [idle] at hnew
      cases hnew
    have hwaiting : ∀ j, Parked s j → ∃ t, s.db.tasks.get? j = some t ∧ t.state = .waiting := by
      rintro j ⟨t, ht, hw | ⟨-, ho⟩⟩
      · exact ⟨t, ht, hw⟩
      · exact absurd ho (hidle j)
    -- A finished task has no waiting parent, so the cascade takes no open row of another task.
    have hunwatched : ∀ j w, OpenResult s.db j w → w.resultTaskId ≠ id := by
      rintro j w hj rfl
      obtain ⟨t', ht', hw⟩ := hwaiting _ (h.results j w hj).1
      obtain ⟨c, hc, -, ho | ho⟩ := h.watched hj ht' hw
      · rw [row] at hc
        cases hc
        simp [TaskState.outstanding, finished] at ho
      · exact hidle _ ho
    refine h.close id (fun j w => ?_) (fun j w => ?_) (fun j hj => ?_) (fun j hj => ?_) (fun j hj => ?_)
      (fun t' ht' => ?_) (fun k w t' hk hchild => absurd hchild (hunwatched k w hk))
      fun j _ ho => absurd ho (hidle j)
    · unfold OpenWait
      rw [hd, get?_delete_eq_some, decide_eq_false_iff_not]
      exact and_right_comm
    · unfold OpenResult
      rw [hd, get?_delete_eq_some, Bool.or_eq_false_iff, decide_eq_false_iff_not,
        decide_eq_false_iff_not]
      constructor
      · rintro ⟨⟨hj, hid, -⟩, ho⟩
        exact ⟨⟨hj, ho⟩, hid⟩
      · rintro ⟨⟨hj, ho⟩, hid⟩
        exact ⟨⟨hj, hid, hunwatched j w ⟨hj, ho⟩⟩, ho⟩
    · rw [hd, get?_delete_of_false]
      exact fun _ => decide_eq_false hj
    · rw [hd, get?_delete_of_false]
      exact fun _ => decide_eq_false hj
    · rw [deleteTask_get? t childless, if_neg hj]
    · rw [deleteTask_get? t childless, if_pos rfl] at ht'
      cases ht'
  | @fireManage _ id old new rest queue =>
    obtain ⟨keys, hk⟩ := manage_tables e id old new s.db
    rw [hk]
    exact h.frame ⟨rfl, rfl, rfl, rfl⟩ rfl fun j =>
      Owed.pop queue (fun new' => Trigger.noConfusion) rfl
  | fireCancel queue =>
    exact h.frame ⟨rfl, rfl, rfl, rfl⟩ rfl fun j =>
      Owed.pop queue (fun new' => Trigger.noConfusion) rfl
  | reorder perm =>
    exact h.frame ⟨rfl, rfl, rfl, rfl⟩ rfl fun j hj => hj.imp fun x => perm.symm.mem_iff.mp
  | phantom | draw | addQueue | configure | touchQueue | dropKeys | policy | enroll | heartbeat
  | dropWorkers | frame =>
    exact h.frame ⟨rfl, rfl, rfl, rfl⟩ rfl fun _ => id

theorem run_waits (server : Server) (rs : List Request) : WaitInv (run server rs).session := by
  refine run_keeps ?_ (fun _ _ _ _ => effect_keeps_waits) rs
  refine ⟨⟨?_, ?_, ?_⟩, ?_, ?_, ?_⟩
  · rintro k k' w w' ⟨h, -⟩
    cases h
  · rintro k k' w w' ⟨h, -⟩
    cases h
  · rintro k k' w w' ⟨h, -⟩
    cases h
  · rintro k w ⟨h, -⟩
    cases h
  · rintro k w ⟨h, -⟩
    cases h
  · intro id t h
    cases h

/-! ## Runs -/

def openRows {ρ : Type} (t : Table StepKey ρ) (resolvedAt : ρ → Option Timestamp) (id : Uuid) : Nat :=
  t.count fun k r => k.taskId = id && (resolvedAt r).isNone

def unresolvedRows (db : Database) (id : Uuid) : Nat :=
  openRows db.waits Wait.resolvedAt id + openRows db.resultWaits ResultWait.resolvedAt id

section OpenRows

variable {ρ : Type} {rows : Table StepKey ρ} {resolvedAt : ρ → Option Timestamp}

theorem openRows_pos_iff : 0 < openRows rows resolvedAt id ↔
      ∃ k, k.taskId = id ∧ ∃ r, rows.get? k = some r ∧ resolvedAt r = none := by
  unfold openRows
  simp only [Table.count_pos_iff, Bool.and_eq_true, decide_eq_true_eq, Option.isNone_iff_eq_none]
  constructor
  · rintro ⟨k, r, hr, hk, ho⟩
    exact ⟨k, hk, r, hr, ho⟩
  · rintro ⟨k, hk, r, hr, ho⟩
    exact ⟨k, r, hr, hk, ho⟩

theorem openRows_le_one (h : ∀ k k' r r', rows.get? k = some r ∧ resolvedAt r = none →
      rows.get? k' = some r' ∧ resolvedAt r' = none → k.taskId = k'.taskId → k = k') :
    openRows rows resolvedAt id ≤ 1 := by
  apply count_le_one
  simp only [Bool.and_eq_true, decide_eq_true_eq, Option.isNone_iff_eq_none]
  rintro k k' r r' hr ⟨rfl, ho⟩ hr' ⟨hid, ho'⟩
  exact h k k' r r' ⟨hr, ho⟩ ⟨hr', ho'⟩ hid.symm

end OpenRows

theorem unresolvedRows_eq_one_iff {db : Database} (h : SingleOpen db) : unresolvedRows db id = 1 ↔
      ∃ k, k.taskId = id ∧ ((∃ w, OpenWait db k w) ∨ ∃ w, OpenResult db k w) := by
  have hwait : openRows db.waits Wait.resolvedAt id ≤ 1 := openRows_le_one h.waits
  have hresult : openRows db.resultWaits ResultWait.resolvedAt id ≤ 1 := openRows_le_one h.results
  have hapart : ¬ (0 < openRows db.waits Wait.resolvedAt id ∧
      0 < openRows db.resultWaits ResultWait.resolvedAt id) := by
    rw [openRows_pos_iff, openRows_pos_iff]
    rintro ⟨⟨k, hk, w, hw⟩, k', hk', w', hw'⟩
    exact h.apart k k' w w' hw hw' (hk.trans hk'.symm)
  simp only [and_or_left, exists_or]
  unfold OpenWait OpenResult
  rw [← openRows_pos_iff, ← openRows_pos_iff]
  unfold unresolvedRows
  omega

/-- No waiting task has lost its wake source. -/
theorem waiting_has_one_open_row (server : Server) (rs : List Request) :
    let db := (run server rs).db
    (∀ id, (∃ t, db.tasks.get? id = some t ∧ t.state = .waiting) ↔ unresolvedRows db id = 1) ∧
    (∀ k w, db.waits.get? k = some w → w.resolvedAt = none →
      db.signals.get? ⟨k.taskId, w.signalName, w.signalOccurrence⟩ = none ∧
      db.checkpoints.get? k = none) ∧
    ∀ k w, db.resultWaits.get? k = some w → w.resolvedAt = none →
      db.checkpoints.get? k = none ∧
      ∃ c, db.tasks.get? w.resultTaskId = some c ∧ c.parentTaskId = some k.taskId ∧
        c.state ∈ [.pending, .running, .waiting] := by
  intro db
  have inv := run_waits server rs
  have idle : ∀ id, ¬ Owed (run server rs).session id := fun id ⟨_, h⟩ => List.not_mem_nil h
  have waiting : ∀ id, Parked (run server rs).session id →
      ∃ t, db.tasks.get? id = some t ∧ t.state = .waiting := by
    rintro id ⟨t, ht, hw | ⟨-, ho⟩⟩
    · exact ⟨t, ht, hw⟩
    · exact absurd ho (idle id)
  refine ⟨fun id => ?_, fun k w hk hw => ?_, fun k w hk hw => ?_⟩
  · refine Iff.trans ?_ (unresolvedRows_eq_one_iff inv.single).symm
    constructor
    · rintro ⟨t, ht, hw⟩
      exact inv.awaited id t ht hw
    · rintro ⟨k, rfl, ⟨w, hw⟩ | ⟨w, hw⟩⟩
      · exact waiting _ (inv.waits k w hw).1
      · exact waiting _ (inv.results k w hw).1
  · have := inv.waits k w ⟨hk, hw⟩
    exact ⟨this.2.2, this.2.1⟩
  · obtain ⟨hp, hc, hwatch⟩ := inv.results k w ⟨hk, hw⟩
    obtain ⟨t, ht, hstate⟩ := waiting _ hp
    obtain ⟨c, hc', hparent, ho | ho⟩ := hwatch t ht hstate
    · refine ⟨hc, c, hc', hparent, ?_⟩
      revert ho
      cases c.state <;> decide
    · exact absurd ho (idle _)

end Pgtask
