import Pgtask.Concurrent.Programs
import Pgtask.Invariant.Waits

/-!
# What the transactions promise each other

A task starts to wait only under FOR UPDATE on its row, and a new signal needs
FOR KEY SHARE on that row. A result wait is written under a lock on the child's
row that every end of the child needs too. Together with the invariant that no
wait has missed its source, this is what every commit keeps.
-/

open Sql ReadCommitted List Table

namespace Pgtask.Concurrent

variable {r : RowId} {k : StepKey} {w : ResultWait} {id : Uuid} {t : Task}
  {A : Promise.Assn Database RowId Row}

/-! ## The promise -/

def Exclusive (held : Locks) (id : Uuid) : Prop := (.task id, .update) ∈ held

def Unfinished (db : Database) (id : Uuid) : Prop :=
  ∃ t, db.tasks.get? id = some t ∧ t.state.outstanding = true

/-- What no wait may have missed, up to the signals `σ` and the results `τ` that the transaction
at work still has to deliver. -/
structure Settled (σ : StepKey → SignalKey → Prop) (τ : StepKey → Uuid → Prop) (db : Database) :
    Prop where
  signals : ∀ k w, OpenWait db k w → db.signals.get? (w.key k) ≠ none → σ k (w.key k)
  results : ∀ k w t, OpenResult db k w → db.tasks.get? k.taskId = some t → t.state = .waiting →
    ¬ Unfinished db w.resultTaskId → τ k w.resultTaskId
  parked : ∀ k w t, OpenResult db k w → db.tasks.get? k.taskId = some t → t.state ≠ .running

def nothing {α β : Type} (_ : α) (_ : β) : Prop := False

def change (held : Locks) : (r : RowId) → Option (Row r) → Option (Row r) → Prop
  | .task _, old, new => ∀ t' : Task, new = some t' →
    (t'.state = .waiting → ∃ t : Task, old = some t ∧ (t.state = .waiting ∨ t.state = .running)) ∧
      (t'.state = .running → ∃ t : Task, old = some t ∧ t.state = .running)
  | .signal k, old, new => old = none → new ≠ none → ∃ m, (.task k.taskId, m) ∈ held
  | .wait k, old, new => ∀ w : Wait, new = some w → w.resolvedAt = none →
    old = some w ∨ Exclusive held k.taskId
  | .resultWait k, old, new => ∀ w : ResultWait, new = some w → w.resolvedAt = none →
    old = some w ∨ Exclusive held k.taskId ∧ Writable held (.task w.resultTaskId)
  | .queue _, _, _ | .attempt .., _, _ | .checkpoint _, _, _ | .reservation .., _, _ => True
  | .worker _, _, _ | .capability _, _, _ | .policy _, _, _ => True

theorem change_mono {held : Locks} {l : RowId × LockMode} {old new : Option (Row r)}
    (h : change held r old new) : change (l :: held) r old new := by
  cases r with
  | task id => exact h
  | signal k => exact fun ho hn => (h ho hn).imp fun _ => mem_cons_of_mem _
  | wait k => exact fun w hw ho => (h w hw ho).imp_right (mem_cons_of_mem _)
  | resultWait k =>
    exact fun w hw ho => (h w hw ho).imp_right fun hl => ⟨mem_cons_of_mem _ hl.1, hl.2.cons⟩
  | _ => trivial

def promise : Promise Database RowId Row where
  Inv := Settled nothing nothing
  change := change
  mono := change_mono

variable {σ : StepKey → SignalKey → Prop} {τ : StepKey → Uuid → Prop} {held : Locks}
  {ws : Writes RowId Row} {db db' : Database}

/-- Every write is lawful, and what is owed is at most `σ` and `τ`. -/
def Owing (σ : StepKey → SignalKey → Prop) (τ : StepKey → Uuid → Prop) :
    Promise.Assn Database RowId Row := fun held ws db =>
  promise.Lawful held ws db ∧ Settled σ τ (view ws db)

/-! ## Stability -/

section Stability

variable (lawful : promise.Lawful held ws db) (other : promise.Other held db db')

include lawful other

theorem open_cases (hk : OpenResult (view ws db') k w) :
    OpenResult (view ws db) k w ∧ Exclusive held k.taskId ∧ Writable held (.task w.resultTaskId) ∨
    OpenResult (view ws db) k w ∧ OpenResult db k w ∧ OpenResult db' k w ∨
    OpenResult db' k w ∧ (view ws db').tasks.get? k.taskId = db'.tasks.get? k.taskId ∧
      (view ws db').tasks.get? w.resultTaskId = db'.tasks.get? w.resultTaskId := by
  obtain ⟨-, held', compatible, -, rows⟩ := id other
  rcases lawful.row_cases other (.resultWait k) with ⟨hv, hv'⟩ | ⟨-, hc, hv, hd⟩
  · have hopen : OpenResult db' k w := ⟨hv'.symm.trans hk.1, hk.2⟩
    rcases rows (.resultWait k) with hrow | ⟨-, hc⟩
    · have hold : db.resultWaits.get? k = some w := hrow.symm.trans hopen.1
      exact .inr (.inl ⟨⟨hv.trans hold, hk.2⟩, ⟨hold, hk.2⟩, hopen⟩)
    · rcases hc w hopen.1 hk.2 with hold | ⟨hparent, hchild⟩
      · exact .inr (.inl ⟨⟨hv.trans hold, hk.2⟩, ⟨hold, hk.2⟩, hopen⟩)
      · refine .inr (.inr ⟨hopen, ?_, ?_⟩)
        · rcases lawful.row_cases other (.task k.taskId) with ⟨-, hp⟩ | ⟨⟨m, hm, -⟩, -⟩
          · exact hp
          · exact absurd hm (compatible.symm.exclusive hparent)
        · rcases lawful.row_cases other (.task w.resultTaskId) with ⟨-, hp⟩ | ⟨hw, -⟩
          · exact hp
          · exact absurd hchild (hw.alone compatible)
  · have hopen : OpenResult (view ws db) k w := ⟨hv.symm.trans hk.1, hk.2⟩
    rcases hc w hopen.1 hk.2 with hold | hlocks
    · exact .inr (.inl ⟨hopen, ⟨hold, hk.2⟩, ⟨hd.trans hold, hk.2⟩⟩)
    · exact .inl ⟨hopen, hlocks⟩

theorem exclusive_row (hl : Exclusive held id) :
    (view ws db').tasks.get? id = (view ws db).tasks.get? id :=
  lawful.view_locked other (r := .task id) ⟨.update, hl, rfl⟩

variable (h : Settled σ τ (view ws db))

include h

theorem signals_stable {w : Wait} (hk : OpenWait (view ws db') k w)
    (hs : (view ws db').signals.get? (w.key k) ≠ none) : σ k (w.key k) := by
  obtain ⟨-, held', compatible, inv', rows⟩ := id other
  -- A wait that is open in the committed database has no signal there, so ours is the one.
  have written : OpenWait db' k w →
      (view ws db).signals.get? (w.key k) ≠ none ∧ ∃ m, (.task k.taskId, m) ∈ held := by
    intro hopen
    have hnone : db'.signals.get? (w.key k) = none :=
      Classical.not_not.mp fun hn => inv'.signals k w hopen hn
    rcases lawful.row_cases other (.signal (w.key k)) with ⟨-, h'⟩ | ⟨-, hc, hv, hd⟩
    · exact absurd (h'.trans hnone) hs
    · have hnew : (view ws db).signals.get? (w.key k) ≠ none := fun hn => hs (hv.trans hn)
      exact ⟨hnew, hc (hd.symm.trans hnone) hnew⟩
  rcases lawful.row_cases other (.wait k) with ⟨hv, hv'⟩ | ⟨-, hc, hv, hd⟩
  · have hopen : OpenWait db' k w := ⟨hv'.symm.trans hk.1, hk.2⟩
    obtain ⟨hnew, m, hm⟩ := written hopen
    rcases rows (.wait k) with hrow | ⟨-, hc⟩
    · exact h.signals k w ⟨hv.trans (hrow.symm.trans hopen.1), hk.2⟩ hnew
    · rcases hc w hopen.1 hk.2 with hold | hlock
      · exact h.signals k w ⟨hv.trans hold, hk.2⟩ hnew
      · exact absurd hm (compatible.symm.exclusive hlock)
  · have hopen : OpenWait (view ws db) k w := ⟨hv.symm.trans hk.1, hk.2⟩
    rcases hc w hopen.1 hk.2 with hold | hlock
    · exact h.signals k w hopen (written ⟨hd.trans hold, hk.2⟩).1
    · refine h.signals k w hopen fun hnone => ?_
      rcases lawful.row_cases other (.signal (w.key k)) with ⟨hs1, hs2⟩ | ⟨-, -, hs', -⟩
      · rcases rows (.signal (w.key k)) with hrow | ⟨-, hc⟩
        · exact hs (hs2.trans (hrow.trans (hs1.symm.trans hnone)))
        · obtain ⟨m, hm⟩ := hc (hs1.symm.trans hnone) fun hn => hs (hs2.trans hn)
          exact compatible.exclusive hlock hm
      · exact hs (hs'.trans hnone)

theorem parked_stable (hk : OpenResult (view ws db') k w)
    (ht : (view ws db').tasks.get? k.taskId = some t) : t.state ≠ .running := by
  obtain ⟨-, held', -, inv', -⟩ := id other
  rcases open_cases lawful other hk with ⟨hopen, hp, -⟩ | ⟨hopen, -, hopen'⟩ | ⟨hopen', hp, -⟩
  · exact h.parked k w t hopen ((exclusive_row lawful other hp).symm.trans ht)
  · rcases lawful.row_cases other (.task k.taskId) with ⟨-, hv'⟩ | ⟨-, -, hv, -⟩
    · exact inv'.parked k w t hopen' (hv'.symm.trans ht)
    · exact h.parked k w t hopen (hv.symm.trans ht)
  · exact inv'.parked k w t hopen' (hp.symm.trans ht)

theorem results_stable (hk : OpenResult (view ws db') k w)
    (ht : (view ws db').tasks.get? k.taskId = some t) (hwait : t.state = .waiting)
    (hfin : ¬ Unfinished (view ws db') w.resultTaskId) : τ k w.resultTaskId := by
  obtain ⟨inv, held', -, inv', rows⟩ := id other
  rcases open_cases lawful other hk with ⟨hopen, hp, hc⟩ | ⟨hopen, hold, hopen'⟩ | ⟨hopen', hp, hc⟩
  · have hchild := lawful.view_locked other hc
    refine h.results k w t hopen ((exclusive_row lawful other hp).symm.trans ht) hwait ?_
    rintro ⟨c, hc', ho⟩
    exact hfin ⟨c, hchild.trans hc', ho⟩
  · -- The committed child is unfinished as long as its parent waits, so it is ours that finished.
    have hchild : ∀ t', db'.tasks.get? k.taskId = some t' → t'.state = .waiting →
        ¬ Unfinished (view ws db) w.resultTaskId := by
      rintro t' ht' hwait' ⟨c, hc, ho⟩
      rcases lawful.row_cases other (.task w.resultTaskId) with ⟨-, hv'⟩ | ⟨-, -, hv, -⟩
      · refine inv'.results k w t' hopen' ht' hwait' ?_
        rintro ⟨c', hc', ho'⟩
        exact hfin ⟨c', hv'.trans hc', ho'⟩
      · exact hfin ⟨c, hv.trans hc, ho⟩
    have hasleep : ∀ t0, db.tasks.get? k.taskId = some t0 →
        t0.state = .waiting ∨ t0.state = .running → t0.state = .waiting := fun t0 ht0 hs =>
      hs.resolve_right (inv.parked k w t0 hold ht0)
    rcases lawful.row_cases other (.task k.taskId) with ⟨hv, hv'⟩ | ⟨-, hc, hv, hd⟩
    · have ht' : db'.tasks.get? k.taskId = some t := hv'.symm.trans ht
      rcases rows (.task k.taskId) with hrow | ⟨-, hc⟩
      · exact h.results k w t hopen (hv.trans (hrow.symm.trans ht')) hwait (hchild t ht' hwait)
      · obtain ⟨t0, ht0, hs⟩ := (hc t ht').1 hwait
        exact h.results k w t0 hopen (hv.trans ht0) (hasleep t0 ht0 hs) (hchild t ht' hwait)
    · have hview : (view ws db).tasks.get? k.taskId = some t := hv.symm.trans ht
      obtain ⟨t0, ht0, hs⟩ := (hc t hview).1 hwait
      exact h.results k w t hopen hview hwait (hchild t0 (hd.trans ht0) (hasleep t0 ht0 hs))
  · refine (inv'.results k w t hopen' (hp.symm.trans ht) hwait ?_).elim
    rintro ⟨c, hc', ho⟩
    exact hfin ⟨c, hc.trans hc', ho⟩

end Stability

theorem owing_stable : promise.Stable (Owing σ τ) :=
  fun _ _ _ _ ⟨lawful, h⟩ other => ⟨Promise.lawful_stable _ _ _ _ lawful other,
    ⟨fun _ _ => signals_stable lawful other h, fun _ _ _ => results_stable lawful other h,
      fun _ _ _ => parked_stable lawful other h⟩⟩

/-! ## Writes -/

def RowId.neutral : RowId → Bool
  | .queue _ | .attempt .. | .checkpoint _ | .reservation .. | .worker _ | .capability _
  | .policy _ => true
  | .task _ | .signal _ | .wait _ | .resultWait _ => false

theorem Owing.neutral {v : Option (Row r)} (h : Owing σ τ held ws db)
    (hw : Writable held r) (hr : r.neutral = true) : Owing σ τ held (ws ++ [⟨r, v⟩]) db := by
  refine ⟨h.1.write hw ?_, ?_⟩
  · cases r <;> trivial
  · rw [view_concat]
    obtain ⟨-, hs, hr', hp⟩ := h
    cases r <;> first | exact ⟨hs, hr', hp⟩ | cases hr

theorem Owing.closeWait {w : Wait} (h : Owing σ τ held ws db)
    (hw : Writable held (.wait k)) (closed : w.resolvedAt ≠ none) :
    Owing (fun j s => σ j s ∧ j ≠ k) τ held (ws ++ [⟨.wait k, some w⟩]) db := by
  refine ⟨h.1.write hw fun w' hw' ho => ?_, ?_⟩
  · cases hw'
    exact absurd ho closed
  · rw [view_concat]
    refine ⟨fun j w' hj hs => ?_, h.2.results, h.2.parked⟩
    obtain ⟨hj, ho⟩ := hj
    change ((view ws db).waits.set k (some w)).get? j = some w' at hj
    rw [get?_set] at hj
    split at hj
    · cases hj
      exact absurd ho closed
    · exact ⟨h.2.signals j w' ⟨hj, ho⟩ hs, ‹_›⟩

theorem Owing.closeResultWait (h : Owing σ τ held ws db)
    (hw : Writable held (.resultWait k)) (closed : w.resolvedAt ≠ none) :
    Owing σ (fun j c => τ j c ∧ j ≠ k) held (ws ++ [⟨.resultWait k, some w⟩]) db := by
  have still : ∀ j w', OpenResult (view (ws ++ [⟨.resultWait k, some w⟩]) db) j w' →
      OpenResult (view ws db) j w' ∧ j ≠ k := by
    rintro j w' ⟨hj, ho⟩
    rw [view_concat] at hj
    change ((view ws db).resultWaits.set k (some w)).get? j = some w' at hj
    rw [get?_set] at hj
    split at hj
    · cases hj
      exact absurd ho closed
    · exact ⟨⟨hj, ho⟩, ‹_›⟩
  refine ⟨h.1.write hw fun w' hw' ho => ?_, fun j w' hj => ?_, fun j w' t hj ht hwait hf => ?_,
    fun j w' t hj => ?_⟩
  · cases hw'
    exact absurd ho closed
  · rw [view_concat] at hj ⊢
    exact h.2.signals j w' hj
  · obtain ⟨hj, hne⟩ := still j w' hj
    rw [view_concat] at ht hf
    exact ⟨h.2.results j w' t hj ht hwait hf, hne⟩
  · rw [view_concat]
    exact h.2.parked j w' t (still j w' hj).1

theorem Owing.task {new : Task} (h : Owing σ τ held ws db)
    (hw : Writable held (.task id)) (row : (view ws db).tasks.get? id = some t)
    (idle : new.state ≠ .waiting ∧ new.state ≠ .running) :
    Owing σ (fun j c => τ j c ∨ c = id ∧ t.state.outstanding = true ∧ new.state.terminal = true) held
      (ws ++ [⟨.task id, some new⟩]) db := by
  have get : ∀ j, (view (ws ++ [⟨RowId.task id, some new⟩]) db).tasks.get? j =
      if j = id then some new else (view ws db).tasks.get? j := fun j => by
    rw [view_concat]
    exact get?_set _ id j (some new)
  refine ⟨h.1.write hw fun t' ht' => ?_, fun j w' hj => ?_, fun j w t' hj ht hwait hf => ?_,
    fun j w' t' hj ht' => ?_⟩
  · cases ht'
    exact ⟨fun h' => absurd h' idle.1, fun h' => absurd h' idle.2⟩
  · rw [view_concat] at hj ⊢
    exact h.2.signals j w' hj
  · rw [get] at ht
    split at ht
    · cases ht
      exact absurd hwait idle.1
    · rw [view_concat] at hj
      by_cases hc : w.resultTaskId = id
      · subst hc
        by_cases ho : t.state.outstanding = true
        · refine .inr ⟨rfl, ho, ?_⟩
          by_contra hterminal
          exact hf ⟨new, by rw [get, if_pos rfl], by simp [TaskState.outstanding, hterminal]⟩
        · refine .inl (h.2.results j w t' hj ht hwait ?_)
          rintro ⟨c, hc, ho'⟩
          rw [row] at hc
          cases hc
          exact ho ho'
      · refine .inl (h.2.results j w t' hj ht hwait ?_)
        rintro ⟨c, hc', ho⟩
        exact hf ⟨c, by rw [get, if_neg hc, hc'], ho⟩
  · rw [get] at ht'
    split at ht'
    · cases ht'
      exact idle.2
    · rw [view_concat] at hj
      exact h.2.parked j w' t' hj ht'

theorem Owing.signal {key : SignalKey} {v : Json} {m : LockMode} (h : Owing σ τ held ws db)
    (hw : Writable held (.signal key)) (lock : (RowId.task key.taskId, m) ∈ held) :
    Owing (fun j s => σ j s ∨ s = key) τ held (ws ++ [⟨.signal key, some v⟩]) db := by
  refine ⟨h.1.write hw fun _ _ => ⟨m, lock⟩, ?_⟩
  rw [view_concat]
  refine ⟨fun j w hj hs => ?_, h.2.results, h.2.parked⟩
  by_cases hk : w.key j = key
  · exact .inr hk
  · refine .inl (h.2.signals j w hj fun hn => hs ?_)
    change ((view ws db).signals.set key (some v)).get? (w.key j) = none
    rw [get?_set, if_neg hk, hn]

theorem Owing.sameSignal {key : SignalKey} {v : Json} (h : Owing σ τ held ws db)
    (hw : Writable held (.signal key)) (row : (view ws db).signals.get? key = some v) :
    Owing σ τ held (ws ++ [⟨.signal key, some v⟩]) db := by
  refine ⟨h.1.write hw fun hnone _ => ?_, ?_⟩
  · by_cases hr : RowId.signal key ∈ ws.map Sigma.fst
    · exact (h.1 _ hr).2 hnone fun hn => Option.some_ne_none v (row.symm.trans hn)
    · have hview : (view ws db).signals.get? key = none := (get_view_of_not_mem db hr).trans hnone
      rw [row] at hview
      cases hview
  · rw [view_concat]
    refine ⟨fun j w hj hs => h.2.signals j w hj fun hn => hs ?_, h.2.results, h.2.parked⟩
    change ((view ws db).signals.set key (some v)).get? (w.key j) = none
    rw [get?_set]
    split
    · rename_i hk
      rw [hk, row] at hn
      cases hn
    · exact hn

theorem running_committed (lawful : promise.Lawful held ws db)
    (row : (view ws db).tasks.get? id = some t) (running : t.state = .running) :
    ∃ t0, db.tasks.get? id = some t0 ∧ t0.state = .running := by
  by_cases hr : RowId.task id ∈ ws.map Sigma.fst
  · exact ((lawful _ hr).2 t row).2 running
  · exact ⟨t, (get_view_of_not_mem db hr).symm.trans row, running⟩

theorem Owing.park (h : Owing σ τ held ws db) (lock : Exclusive held id)
    (row : (view ws db).tasks.get? id = some t) (running : t.state = .running) :
    Owing σ τ held (ws ++ [⟨.task id, some t.parked⟩]) db := by
  have get : ∀ j, (view (ws ++ [⟨RowId.task id, some t.parked⟩]) db).tasks.get? j =
      if j = id then some t.parked else (view ws db).tasks.get? j := fun j => by
    rw [view_concat]
    exact get?_set _ id j (some t.parked)
  refine ⟨h.1.write ⟨.update, lock, rfl⟩ fun t' ht' => ?_, fun j w hj => ?_,
    fun j w t' hj ht hwait hf => ?_, fun j w t' hj ht' => ?_⟩
  · cases ht'
    obtain ⟨t0, ht0, hrunning⟩ := running_committed h.1 row running
    exact ⟨fun _ => ⟨t0, ht0, .inr hrunning⟩, nofun⟩
  · rw [view_concat] at hj ⊢
    exact h.2.signals j w hj
  · rw [view_concat] at hj
    have hother : j.taskId ≠ id := fun heq => h.2.parked j w t hj (heq ▸ row) running
    rw [get, if_neg hother] at ht
    refine h.2.results j w t' hj ht hwait ?_
    rintro ⟨c, hc, ho⟩
    by_cases hid : w.resultTaskId = id
    · exact hf ⟨t.parked, by rw [get, if_pos hid], rfl⟩
    · exact hf ⟨c, by rw [get, if_neg hid, hc], ho⟩
  · rw [view_concat] at hj
    rw [get] at ht'
    split at ht'
    · cases ht'
      nofun
    · exact h.2.parked j w t' hj ht'

theorem Owing.openWait {w : Wait} (h : Owing σ τ held ws db)
    (hw : Writable held (.wait k)) (lock : Exclusive held k.taskId)
    (absent : (view ws db).signals.get? (w.key k) = none) :
    Owing σ τ held (ws ++ [⟨.wait k, some w⟩]) db := by
  refine ⟨h.1.write hw fun _ _ _ => .inr lock, ?_⟩
  rw [view_concat]
  refine ⟨fun j w' hj hs => ?_, h.2.results, h.2.parked⟩
  obtain ⟨hj, ho⟩ := hj
  change ((view ws db).waits.set k (some w)).get? j = some w' at hj
  rw [get?_set] at hj
  split at hj
  · rename_i hk
    cases hj
    subst hk
    exact absurd absent hs
  · exact h.2.signals j w' ⟨hj, ho⟩ hs

theorem Owing.openResult (h : Owing σ τ held ws db)
    (hw : Writable held (.resultWait k)) (lock : Exclusive held k.taskId)
    (child : Writable held (.task w.resultTaskId))
    (row : (view ws db).tasks.get? k.taskId = some t) (stopped : t.state ≠ .running)
    (unfinished : Unfinished (view ws db) w.resultTaskId) :
    Owing σ τ held (ws ++ [⟨.resultWait k, some w⟩]) db := by
  have old : ∀ j w', OpenResult (view (ws ++ [⟨.resultWait k, some w⟩]) db) j w' →
      j = k ∧ w' = w ∨ OpenResult (view ws db) j w' := by
    rintro j w' ⟨hj, ho⟩
    rw [view_concat] at hj
    change ((view ws db).resultWaits.set k (some w)).get? j = some w' at hj
    rw [get?_set] at hj
    split at hj
    · cases hj
      exact .inl ⟨‹_›, rfl⟩
    · exact .inr ⟨hj, ho⟩
  refine ⟨h.1.write hw fun w' hw' _ => ?_, fun j w' hj => ?_, fun j w' t' hj ht hwait hf => ?_,
    fun j w' t' hj ht => ?_⟩
  · cases hw'
    exact .inr ⟨lock, child⟩
  · rw [view_concat] at hj ⊢
    exact h.2.signals j w' hj
  · rw [view_concat] at ht hf
    rcases old j w' hj with ⟨rfl, rfl⟩ | hj
    · exact absurd unfinished hf
    · exact h.2.results j w' t' hj ht hwait hf
  · rw [view_concat] at ht
    rcases old j w' hj with ⟨rfl, rfl⟩ | hj
    · rw [show (view ws db).tasks.get? j.taskId = some t' from ht] at row
      cases row
      exact stopped
    · exact h.2.parked j w' t' hj ht

theorem Owing.swap {s : RowId} {v : Option (Row r)} {u : Option (Row s)}
    (same : ∀ d, setRow (setRow d s u) r v = setRow (setRow d r v) s u)
    (h : Owing σ τ held (ws ++ [⟨s, u⟩] ++ [⟨r, v⟩]) db) :
    Owing σ τ held (ws ++ [⟨r, v⟩] ++ [⟨s, u⟩]) db := by
  have hview : view (ws ++ [⟨s, u⟩] ++ [⟨r, v⟩]) db = view (ws ++ [⟨r, v⟩] ++ [⟨s, u⟩]) db := by
    rw [view_concat, view_concat, view_concat, view_concat]
    exact same _
  refine ⟨fun q hq => ?_, hview ▸ h.2⟩
  rw [← hview]
  refine h.1 q ?_
  simp only [map_append, map_cons, map_nil, mem_append, mem_singleton]
    at hq ⊢
  tauto

/-! ## Assertions that other rows do not touch -/

structure Robust (A : Promise.Assn Database RowId Row) : Prop where
  lawful : ∀ {held ws db}, A held ws db → promise.Lawful held ws db
  stable : promise.Stable A
  lock : ∀ {held ws db l}, A held ws db → A (l :: held) ws db
  write : ∀ {held ws db r v}, A held ws db → Writable held r → r.neutral = true →
    A held (ws ++ [⟨r, v⟩]) db

theorem owing_robust : Robust (Owing σ τ) where
  lawful h := h.1
  stable := owing_stable
  lock h := ⟨h.1.cons, h.2⟩
  write h hw hr := h.neutral hw hr

def Sees (id : Uuid) (t : Task) : Promise.Assn Database RowId Row := fun held ws db =>
  Writable held (.task id) ∧ (view ws db).tasks.get? id = some t

theorem Robust.sees (hA : Robust A) (id : Uuid) (t : Task) :
    Robust fun held ws db => A held ws db ∧ Sees id t held ws db where
  lawful h := hA.lawful h.1
  stable held ws db db' h other := ⟨hA.stable _ _ _ _ h.1 other, h.2.1,
    ((hA.lawful h.1).view_locked other h.2.1).trans h.2.2⟩
  lock h := ⟨hA.lock h.1, h.2.1.cons, h.2.2⟩
  write {held ws db r v} h hw hr := by
    refine ⟨hA.write h.1 hw hr, h.2.1, ?_⟩
    have hne : RowId.task id ≠ r := by
      rintro rfl
      cases hr
    exact (get_view_concat_of_ne ws db v hne).trans h.2.2

theorem Robust.writable (hA : Robust A) (r : RowId) :
    Robust fun held ws db => A held ws db ∧ Writable held r where
  lawful h := hA.lawful h.1
  stable _ _ _ _ h other := ⟨hA.stable _ _ _ _ h.1 other, h.2⟩
  lock h := ⟨hA.lock h.1, h.2.cons⟩
  write h hw hr := ⟨hA.write h.1 hw hr, h.2⟩

theorem Robust.exclusive (hA : Robust A) (id : Uuid) :
    Robust fun held ws db => A held ws db ∧ Exclusive held id where
  lawful h := hA.lawful h.1
  stable _ _ _ _ h other := ⟨hA.stable _ _ _ _ h.1 other, h.2⟩
  lock h := ⟨hA.lock h.1, mem_cons_of_mem _ h.2⟩
  write h hw hr := ⟨hA.write h.1 hw hr, h.2⟩

theorem Robust.noSignal (hA : Robust A) (key : SignalKey)
    (lock : ∀ {held ws db}, A held ws db → Exclusive held key.taskId) :
    Robust fun held ws db => A held ws db ∧ (view ws db).signals.get? key = none where
  lawful h := hA.lawful h.1
  stable held ws db db' h other := by
    refine ⟨hA.stable _ _ _ _ h.1 other, ?_⟩
    rcases (hA.lawful h.1).row_cases other (.signal key) with ⟨hv, hv'⟩ | ⟨-, -, hv, -⟩
    · obtain ⟨-, held', compatible, -, rows⟩ := other
      have hnone : db.signals.get? key = none := hv.symm.trans h.2
      rcases rows (.signal key) with hrow | ⟨-, hc⟩
      · exact hv'.trans (hrow.trans hnone)
      · refine hv'.trans (Classical.not_not.mp fun hn => ?_)
        obtain ⟨m, hm⟩ := hc hnone hn
        exact compatible.exclusive (lock h.1) hm
    · exact hv.trans h.2
  lock h := ⟨hA.lock h.1, h.2⟩
  write {held ws db r v} h hw hr := by
    refine ⟨hA.write h.1 hw hr, ?_⟩
    have hne : RowId.signal key ≠ r := by
      rintro rfl
      cases hr
    exact (get_view_concat_of_ne ws db v hne).trans h.2

end Pgtask.Concurrent
