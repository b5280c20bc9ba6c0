import Pgtask.Effect.Rows

/-!
# Triggers as effects

Firing what a statement has queued is a sequence of effects. The triggers that
are queued stay true to the rows they were queued for: nothing that runs inside
a statement touches a finished task again.
-/

open Sql Checked List Table

namespace Pgtask

variable {s s' : Session} {t : Task}

variable {e : Env}

/-! ## Loops over rows -/

/-- A loop over rows under distinct keys. Each round finds its row as it was
fetched, and is one step of `R`. -/
theorem foldlM_path {κ ρ : Type} {f : Session → κ × ρ → Result Session}
    {R : Label → Session → Session → Prop} (current : Session → κ → ρ → Prop)
    (label : κ × ρ → Label) (I : List (κ × ρ) → Session → Prop)
    (round : ∀ k r rest s s', current s k r → I ((k, r) :: rest) s → f s (k, r) = .ok s' →
      R (label (k, r)) s s' ∧ (∀ j q, j ≠ k → current s j q → current s' j q) ∧ I rest s')
    {rows : List (κ × ρ)} (h : rows.foldlM f s = .ok s')
    (nodup : (rows.map Prod.fst).Nodup) (rows_current : ∀ x ∈ rows, current s x.1 x.2)
    (start : I rows s) : Labelled.Path R (rows.map label) s s' ∧ I [] s' := by
  induction rows generalizing s with
  | nil =>
    cases h
    exact ⟨.nil _, start⟩
  | cons x rows ih =>
    obtain ⟨s1, h1, h2⟩ := bind_ok h
    rw [map_cons, nodup_cons] at nodup
    rw [forall_mem_cons] at rows_current
    obtain ⟨effect, keep, next⟩ := round x.1 x.2 rows s s1 rows_current.1 start h1
    have hrows : ∀ y ∈ rows, current s1 y.1 y.2 := by
      intro y hy
      refine keep y.1 y.2 ?_ (rows_current.2 y hy)
      rintro hk
      exact nodup.1 (hk ▸ List.mem_map_of_mem hy)
    obtain ⟨path, last⟩ := ih h2 nodup.2 hrows next
    exact ⟨.cons effect path, last⟩

/-! ## Queued triggers -/

def Session.stash (s : Session) (queue : List Trigger) : Session := { s with queued := queue ++ s.queued }

def Trigger.task : Trigger → Uuid
  | .cancelOwnedChildren id _ | .manageIdempotencyKey id _ _ | .resolveTaskResult id _ => id

def Trigger.new : Trigger → Task
  | .cancelOwnedChildren _ new | .manageIdempotencyKey _ _ new | .resolveTaskResult _ new => new

/-- The trigger was queued when its task finished, and the task's row has not changed since. -/
def Trigger.Settled (db : Database) (t : Trigger) : Prop :=
  db.tasks.get? t.task = some t.new ∧ t.new.state.terminal = true ∧
    ∀ id old new, t = .manageIdempotencyKey id old new → old.state.terminal = false

def Session.Settled (s : Session) : Prop := ∀ t ∈ s.queued, t.Settled s.db

def Keeps (s s' : Session) : Prop :=
  ∀ id t, s.db.tasks.get? id = some t → t.state.terminal = true → s'.db.tasks.get? id = some t

theorem Keeps.refl (s : Session) : Keeps s s := fun _ _ h _ => h

theorem Keeps.trans {s1 s2 : Session} (h : Keeps s s1) (h' : Keeps s1 s2) : Keeps s s2 :=
  fun id t ht hf => h' id t (h id t ht hf) hf

theorem Trigger.Settled.keeps {t : Trigger} (h : t.Settled s.db) (hk : Keeps s s') :
    t.Settled s'.db :=
  ⟨hk _ _ h.1 h.2.1, h.2⟩

theorem keeps_put {id : Uuid} {new : Task} (row : s.db.tasks.get? id = some t)
    (unfinished : t.state.terminal = false) (h : s'.db.tasks = s.db.tasks.put id new) :
    Keeps s s' := by
  intro j c hj hc
  rw [h, get?_put]
  split
  · rename_i he
    subst he
    rw [row, Option.some.injEq] at hj
    rw [hj, hc] at unfinished
    cases unfinished
  · exact hj

theorem keeps_woken {id : Uuid} {now : Timestamp}
    (h : s'.db.tasks = s.db.tasks.adjust id (Task.woken now)) : Keeps s s' := by
  intro j c hj hc
  rw [h, get?_adjust]
  split
  · rename_i he
    subst he
    rw [hj, Option.map_some, Task.woken, if_neg]
    intro hw
    rw [hw] at hc
    cases hc
  · exact hj

theorem settled_write {id : Uuid} {old new : Task} (hs : s.Settled)
    (row : s.db.tasks.get? id = some old) (unfinished : old.state.outstanding = true) :
    (s.write id old new).Settled := by
  have hold : old.state.terminal = false := by simpa [outstanding_eq_not] using unfinished
  intro t ht
  rcases mem_append.mp ht with ht | ht
  · exact (hs t ht).keeps (keeps_put row hold rfl)
  · unfold afterUpdate at ht
    simp only [unfinished, Bool.true_and, hold, Bool.false_and, Bool.false_eq_true, if_false] at ht
    split at ht
    · rename_i hn
      have hput : (s.write id old new).db.tasks.get? id = some new := get?_put_self _ _ _
      simp only [mem_cons, not_mem_nil, or_false] at ht
      rcases ht with rfl | rfl | rfl
      · exact ⟨hput, hn, by rintro _ _ _ ⟨⟩⟩
      · exact ⟨hput, hn, by rintro _ _ _ ⟨⟩; exact hold⟩
      · exact ⟨hput, hn, by rintro _ _ _ ⟨⟩⟩
    · cases ht

/-! ## Ripples -/

def parentFinished (parent : Uuid) (state : TaskState) : Json :=
  .obj [("type", .str "parent_finished"), ("parent_state", .str state.text),
    ("parent_task_id", .str parent.text)]

/-- What the queued triggers do, one row at a time, and which trigger does it. -/
inductive Ripple (e : Env) : Label → Session → Session → Prop
  | cancel {s : Session} {id parent : Uuid} {t new : Task}
      (queued : .cancelOwnedChildren parent new ∈ s.queued)
      (row : s.db.tasks.get? id = some t) (owned : t.parentTaskId = some parent)
      (unfinished : t.state.outstanding = true)
      (checked : Holds ((t.cancelledAt e.now (parentFinished parent new.state)).checks id)) :
      Ripple e (.cancel id) s
        ((s.write id t (t.cancelledAt e.now (parentFinished parent new.state))).endAttempt
          (id, t.attempt) fun a =>
            if a.state = .running then
              { a with state := .cancelled, finishedAt := some e.now
                       error := some (parentFinished parent new.state) }
            else a)
  | answer {s : Session} {k : StepKey} {w : ResultWait} {t new : Task}
      (queued : .resolveTaskResult w.resultTaskId new ∈ s.queued)
      (row : s.db.resultWaits.get? k = some w) (isOpen : w.resolvedAt = none)
      (waiter : s.db.tasks.get? k.taskId = some t) (unfinished : t.state.outstanding = true)
      (child : s.db.tasks.get? w.resultTaskId = some new) (finished : new.state.terminal = true)
      (fits : Holds (checkpointChecks k (resultCheckpoint new.state.text new.result new.error))) :
      Ripple e (.deliverResult k) s
        { s.deliver e.now k (resultCheckpoint new.state.text new.result new.error) with
          db := { (s.deliver e.now k (resultCheckpoint new.state.text new.result new.error)).db with
            resultWaits := s.db.resultWaits.put k
              { w with resolvedAt := some e.now, outcome := some new.state.waitOutcome } } }
  | fireCancel {s : Session} {id : Uuid} {new : Task} {rest : List Trigger}
      (queue : s.queued = .cancelOwnedChildren id new :: rest)
      (row : s.db.tasks.get? id = some new) (finished : new.state.terminal = true)
      (childless : ∀ j c, s.db.tasks.get? j = some c → c.parentTaskId = some id →
        c.state.terminal = true) :
      Ripple e (.fireCancel id) s { s with queued := rest }
  | fireManage {s : Session} {id : Uuid} {old new : Task} {rest : List Trigger}
      (queue : s.queued = .manageIdempotencyKey id old new :: rest)
      (row : s.db.tasks.get? id = some new) (crossing : old.state.terminal ≠ new.state.terminal) :
      Ripple e (.fireManage id) s
        { s with db := manageIdempotencyKey e id old new s.db, queued := rest }
  | fireResolve {s : Session} {id : Uuid} {new : Task} {rest : List Trigger}
      (queue : s.queued = .resolveTaskResult id new :: rest)
      (row : s.db.tasks.get? id = some new) (finished : new.state.terminal = true)
      (unwatched : ∀ k w, s.db.resultWaits.get? k = some w → w.resultTaskId = id →
        w.resolvedAt = none → ∀ t, s.db.tasks.get? k.taskId = some t → t.state ≠ .waiting) :
      Ripple e (.fireResolve id) s { s with db := cancelOwnWaits e id s.db, queued := rest }
  | reorder {s : Session} {queue : List Trigger} (perm : queue.Perm s.queued) :
      Ripple e .reorder s { s with queued := queue }

abbrev Ripples (e : Env) : List Label → Session → Session → Prop :=
  Labelled.Path (Ripple e)

def Label.cascade : Label → Bool
  | .cancel _ | .deliverResult _ | .fireCancel _ | .fireManage _ | .fireResolve _ | .reorder => true
  | _ => false

theorem Ripple.effect {l : Label} (h : Ripple e l s s') : Effect e l s s' := by
  cases h with
  | cancel _ row _ unfinished checked => exact .cancel row unfinished checked
  | answer _ row isOpen _ _ child finished =>
    exact .deliverResult row isOpen (.inr ⟨_, child, finished, rfl, rfl⟩)
  | fireCancel queue row finished childless => exact .fireCancel queue row finished childless
  | fireManage queue row crossing => exact .fireManage queue row crossing
  | fireResolve queue row finished unwatched => exact .fireResolve queue row finished unwatched
  | reorder perm => exact .reorder perm

theorem Ripple.cascade {l : Label} (h : Ripple e l s s') : l.cascade = true := by
  cases h <;> rfl

/-! ## Cancellation -/

theorem cancelRow_spec {error : Json} {id : Uuid} (h : cancelRow e error s (id, t) = .ok s') :
    Holds ((t.cancelledAt e.now error).checks id) ∧
      s' = (s.write id t (t.cancelledAt e.now error)).endAttempt (id, t.attempt) fun a =>
        if a.state = .running then
          { a with state := .cancelled, finishedAt := some e.now, error := some error }
        else a := by
  unfold cancelRow at h
  obtain ⟨s1, h1, h⟩ := bind_ok h
  obtain ⟨rfl, checked, -⟩ := updateTask_spec h1
  exact ⟨checked, updateAttempt_spec h⟩

theorem cancelOwnedChildren_spec {id : Uuid} {new : Task} (waiting : List Trigger)
    (h : cancelOwnedChildren e id new s = .ok s') (hs : s.Settled)
    (queued : .cancelOwnedChildren id new ∈ waiting) :
    (∃ ls, Ripples e ls (s.stash waiting) (s'.stash waiting)) ∧ Keeps s s' ∧ s'.Settled ∧
      ∀ j c, s'.db.tasks.get? j = some c → c.parentTaskId = some id → c.state.terminal = true := by
  unfold cancelOwnedChildren at h
  set p : Uuid → Task → Bool := fun _ t => t.parentTaskId = some id && t.state.outstanding with hp
  obtain ⟨path, hkeeps, hsettled, hnone⟩ := foldlM_path
    (R := fun l s s' => Ripple e l (s.stash waiting) (s'.stash waiting))
    (fun s j c => s.db.tasks.get? j = some c ∧ p j c = true) (fun x => .cancel x.1)
    (fun rest s' => Keeps s s' ∧ s'.Settled ∧
      ∀ j c, s'.db.tasks.get? j = some c → p j c = true → (j, c) ∈ rest)
    (by
      rintro j c rest s1 s2 ⟨row, hc⟩ ⟨hk, hset, hrest⟩ h1
      rw [hp, Bool.and_eq_true, decide_eq_true_eq] at hc
      obtain ⟨checked, rfl⟩ := cancelRow_spec
        (show cancelRow e (parentFinished id new.state) s1 (j, c) = .ok s2 from h1)
      have hun : c.state.terminal = false := by simpa [outstanding_eq_not] using hc.2
      refine ⟨?_, ?_, hk.trans (keeps_put row hun rfl), settled_write hset row hc.2, ?_⟩
      · have hqueued : .cancelOwnedChildren id new ∈ (s1.stash waiting).queued :=
          mem_append_left _ queued
        have ripple := Ripple.cancel hqueued row hc.1 hc.2 checked
        unfold Session.write Session.endAttempt Session.stash at ripple ⊢
        simpa only [append_assoc] using ripple
      · rintro i q hi ⟨hq, hpq⟩
        exact ⟨(get?_put_of_ne _ _ hi).trans hq, hpq⟩
      · intro i q hi hq
        replace hi := (get?_put _ _ _ _).symm.trans hi
        split at hi
        · -- The child just cancelled is finished.
          cases hi
          simp [hp, Task.cancelledAt, TaskState.outstanding, TaskState.terminal] at hq
        · rename_i hne
          rcases mem_cons.mp (hrest i q hi hq) with he | he
          · exact absurd (congrArg Prod.fst he) hne
          · exact he)
    h (nodup_select _ _)
    (fun x hx => mem_select.mp (by exact hx))
    ⟨Keeps.refl s, hs, fun j c hj hc => mem_select.mpr ⟨hj, hc⟩⟩
  refine ⟨⟨_, path.map (fun s : Session => s.stash waiting) fun _ _ _ ripple => ripple⟩, hkeeps, hsettled, ?_⟩
  intro j c hj hc
  by_contra hun
  have : p j c = true := by
    rw [hp, Bool.and_eq_true, decide_eq_true_eq, outstanding_eq_not]
    exact ⟨hc, by simpa using hun⟩
  exact absurd (hnone j c hj this) (not_mem_nil)

/-! ## Results -/

theorem woken_not_waiting (now : Timestamp) (t : Task) : (t.woken now).state ≠ .waiting := by
  unfold Task.woken
  split
  · exact TaskState.noConfusion
  · assumption

theorem woken_outstanding {now : Timestamp} (h : t.state.outstanding = true) :
    (t.woken now).state.outstanding = true := by
  unfold Task.woken
  split
  · rfl
  · exact h

theorem resolveResultWait_spec {v : Json} {outcome : WaitOutcome} {k : StepKey}
    {w : ResultWait} (h : resolveResultWait e v outcome s (k, w) = .ok s') :
    Holds (checkpointChecks k v) ∧
      s' = { s.deliver e.now k v with db := { (s.deliver e.now k v).db with
        resultWaits := s.db.resultWaits.put k
          { w with resolvedAt := some e.now, outcome := some outcome } } } := by
  unfold resolveResultWait at h
  obtain ⟨⟨stored, s1⟩, h1, h⟩ := bind_ok h
  obtain ⟨rfl, -, fits⟩ := saveCheckpoint_spec h1
  obtain ⟨s2, h2, h⟩ := bind_ok h
  have := wake_spec h2
  subst this
  cases h
  exact ⟨fits, rfl⟩

/-- `k` is an open wait for the result of `id`, and its task is waiting. -/
def Watched (db : Database) (id : Uuid) (k : StepKey) (w : ResultWait) : Bool :=
  w.resultTaskId = id && w.resolvedAt.isNone && (db.tasks.get? k.taskId).any (·.state = .waiting)

theorem resolveMatching_spec {id : Uuid} {new : Task} (waiting : List Trigger)
    (finishedRow : s.db.tasks.get? id = some new) (finished : new.state.terminal = true)
    (queued : .resolveTaskResult id new ∈ waiting)
    (h : (s.db.resultWaits.select (Watched s.db id)).foldlM (resolveResultWait e
      (resultCheckpoint new.state.text new.result new.error) new.state.waitOutcome) s = .ok s') :
    (∃ ls, Ripples e ls (s.stash waiting) (s'.stash waiting)) ∧ Keeps s s' ∧ s'.queued = s.queued ∧
      ∀ k w, s'.db.resultWaits.get? k = some w → Watched s'.db id k w = false := by
  obtain ⟨path, hkeeps, hqueue, hnone⟩ := foldlM_path
    (R := fun l s s' => Ripple e l (s.stash waiting) (s'.stash waiting))
    (fun s k w => s.db.resultWaits.get? k = some w ∧ w.resolvedAt = none ∧ w.resultTaskId = id ∧
      ∃ t, s.db.tasks.get? k.taskId = some t ∧ t.state.outstanding = true)
    (fun x => .deliverResult x.1)
    (fun rest s' => Keeps s s' ∧ s'.queued = s.queued ∧
      ∀ k w, s'.db.resultWaits.get? k = some w → Watched s'.db id k w = true → (k, w) ∈ rest)
    (by
      rintro k w rest s1 s2 ⟨row, hw, rfl, t, waiter, unfinished⟩ ⟨hk, hq, hrest⟩ h1
      obtain ⟨fits, rfl⟩ := resolveResultWait_spec h1
      have hqueued : .resolveTaskResult w.resultTaskId new ∈ (s1.stash waiting).queued :=
        mem_append_left _ queued
      have hchild := hk w.resultTaskId new finishedRow finished
      refine ⟨Ripple.answer hqueued row hw waiter unfinished hchild finished fits, ?_,
        hk.trans (keeps_woken rfl), hq, ?_⟩
      · rintro j q hj ⟨hq, hr, htarget, u, hu, hout⟩
        refine ⟨by simpa [Session.deliver, hj] using hq, hr, htarget, ?_⟩
        simp only [Session.deliver, get?_adjust]
        split
        · rename_i hid
          rw [hid] at hu
          exact ⟨u.woken e.now, by rw [hu]; rfl, woken_outstanding hout⟩
        · exact ⟨u, hu, hout⟩
      · intro j q hj hwatched
        simp only [get?_put] at hj
        split at hj
        · -- The wait just answered is not open.
          cases hj
          simp [Watched] at hwatched
        · rename_i hne
          have hold : Watched s1.db w.resultTaskId j q = true := by
            unfold Watched at hwatched ⊢
            simp only [Session.deliver, get?_adjust] at hwatched
            split at hwatched
            · -- The waiter was woken, so it waits for nothing.
              cases hr : s1.db.tasks.get? k.taskId with
              | none => simp [hr] at hwatched
              | some t => simp [hr, woken_not_waiting] at hwatched
            · exact hwatched
          rcases mem_cons.mp (hrest j q hj hold) with he | he
          · exact absurd (congrArg Prod.fst he) hne
          · exact he)
    h (nodup_select _ _)
    (fun x hx => by
      obtain ⟨hx, hw⟩ := mem_select.mp (show (x.1, x.2) ∈ _ from hx)
      simp only [Watched, Bool.and_eq_true, Option.isNone_iff_eq_none, decide_eq_true_eq,
        Option.any_eq_true] at hw
      obtain ⟨⟨htarget, hopen⟩, t, ht, hwait⟩ := hw
      exact ⟨hx, hopen, htarget, t, ht, by rw [hwait]; rfl⟩)
    ⟨Keeps.refl s, rfl, fun k w hk hw => mem_select.mpr ⟨hk, hw⟩⟩
  refine ⟨⟨_, path.map (fun s : Session => s.stash waiting) fun _ _ _ ripple => ripple⟩, hkeeps, hqueue,
    fun k w hk => ?_⟩
  rw [Bool.eq_false_iff]
  exact fun hw => absurd (hnone k w hk hw) not_mem_nil

/-! ## The drain -/

theorem fire_spec {t : Trigger} {rest : List Trigger} (hq : s.queued = t :: rest)
    (hs : s.Settled) (h : fire e t { s with queued := [] } = .ok s') :
    (∃ ls, Ripples e ls s { s' with queued := s'.queued ++ rest }) ∧
      Keeps s s' ∧ Session.Settled { s' with queued := s'.queued ++ rest } := by
  obtain ⟨row, finished, old⟩ := hs t (by rw [hq]; exact mem_cons_self)
  have hrest : ∀ u ∈ rest, u.Settled s.db := fun u hu => hs u (by rw [hq]; exact mem_cons_of_mem _ hu)
  have hstash : Session.stash { s with queued := [] } (t :: rest) = s := by
    unfold Session.stash
    rw [append_nil, ← hq]
  cases t with
  | cancelOwnedChildren id new =>
    obtain ⟨⟨ls, path⟩, hk, hset, hchildless⟩ := cancelOwnedChildren_spec
      (.cancelOwnedChildren id new :: rest) h (by intro u hu; cases hu) mem_cons_self
    rw [hstash] at path
    have hfire : Ripple e (.fireCancel id) (s'.stash (.cancelOwnedChildren id new :: rest))
        (s'.stash rest) :=
      .fireCancel (s := s'.stash (.cancelOwnedChildren id new :: rest)) rfl (hk _ _ row finished)
        finished hchildless
    have hreorder : Ripple e .reorder (s'.stash rest) { s' with queued := s'.queued ++ rest } :=
      .reorder (s := s'.stash rest) List.perm_append_comm
    refine ⟨⟨_, path.append (.cons hfire (.single hreorder))⟩, hk, ?_⟩
    intro u hu
    rcases mem_append.mp hu with hu | hu
    · exact hset u hu
    · exact (hrest u hu).keeps hk
  | manageIdempotencyKey id o new =>
    cases h
    have ho := old id o new rfl
    have htasks : (manageIdempotencyKey e id o new s.db).tasks = s.db.tasks := by
      unfold manageIdempotencyKey manageReservation
      repeat' split
      all_goals rfl
    have hk : Keeps s { s with db := manageIdempotencyKey e id o new s.db, queued := [] } := by
      intro j c hj _
      simpa only [htasks] using hj
    refine ⟨⟨_, .single (.fireManage hq row ?_)⟩, hk, fun u hu => (hrest u hu).keeps hk⟩
    have hnew : new.state.terminal = true := finished
    simp [ho, hnew]
  | resolveTaskResult id new =>
    obtain ⟨s1, h1, h⟩ := bind_ok h
    cases h
    have hrow : s.db.tasks.get? id = some new := row
    obtain ⟨⟨ls, path⟩, hk, hqueue, hunwatched⟩ := resolveMatching_spec (s := { s with queued := [] })
      (.resolveTaskResult id new :: rest) hrow finished mem_cons_self h1
    rw [hstash] at path
    have hempty : s1.queued = [] := hqueue
    have hs1 : (s1.stash (.resolveTaskResult id new :: rest)).queued =
        .resolveTaskResult id new :: rest := by
      unfold Session.stash
      rw [hempty, append_nil]
    have hfire := Ripple.fireResolve (e := e) hs1 (hk _ _ row finished) finished (by
      intro k w hkw hw hopen t ht hwait
      have := hunwatched k w hkw
      have ht' : s1.db.tasks.get? k.taskId = some t := ht
      simp [Watched, hw, hopen, ht', hwait] at this)
    have hk' : Keeps s { s1 with db := cancelOwnWaits e id s1.db } := hk
    refine ⟨⟨_, path.append (.single (l := .fireResolve id) ?_)⟩, hk', ?_⟩
    · simp only [hempty, nil_append]
      exact hfire
    · intro u hu
      simp only [hempty, nil_append] at hu
      exact (hrest u hu).keeps hk'

theorem drain_spec {depth : Nat} (hs : s.Settled) (h : drain e depth s = .ok s') :
    (∃ ls, Ripples e ls s s') ∧ Keeps s s' ∧ s'.queued = [] := by
  induction depth generalizing s with
  | zero =>
    unfold drain at h
    split at h
    · rename_i hq
      cases h
      exact ⟨⟨[], .nil _⟩, Keeps.refl _, hq⟩
    · cases h
  | succ depth ih =>
    unfold drain at h
    split at h
    · rename_i hq
      cases h
      exact ⟨⟨[], .nil _⟩, Keeps.refl _, hq⟩
    · rename_i t rest hq
      obtain ⟨s1, h1, h⟩ := bind_ok h
      obtain ⟨⟨ls, path⟩, hk, hset⟩ := fire_spec hq hs h1
      obtain ⟨⟨ls', path'⟩, hk', hempty⟩ := ih hset h
      exact ⟨⟨ls ++ ls', path.append path'⟩, Keeps.trans hk hk', hempty⟩

theorem Ripples.effects {ls : List Label} (h : Ripples e ls s s') :
    Effects e ls s s' ∧ ∀ l ∈ ls, l.cascade = true :=
  ⟨h.map id fun _ _ _ ripple => ripple.effect, h.labels fun _ _ _ ripple => ripple.cascade⟩

theorem fireTriggers_spec (hs : s.Settled) (h : fireTriggers e s = .ok s') :
    (∃ ls, Effects e ls s s' ∧ ∀ l ∈ ls, l.cascade = true) ∧ Keeps s s' ∧ s'.queued = [] := by
  obtain ⟨⟨ls, path⟩, hk, hempty⟩ := drain_spec hs h
  exact ⟨⟨ls, path.effects⟩, hk, hempty⟩

end Pgtask
