import Pgtask.Invariant.Cascade
import Pgtask.Invariant.Checks

/-!
# Cascades return

Firing the queued triggers never runs out of depth, and nothing in it is refused
but a checkpoint that is too large.
-/

open Sql Checked List Table

namespace Pgtask

variable {e : Env} {l : Label} {ls : List Label} {s s' : Session} {x : Uuid}

/-! ## Sizes -/

theorem parentFinished_size (parent : Uuid) (state : TaskState) :
    (parentFinished parent state).octetLength ≤ 262144 := by
  have hparent := quoted_size_le parent.text
  rw [Uuid.text_length] at hparent
  have hstate : (quoted state.text).utf8ByteSize ≤ 11 := by
    cases state <;> decide +kernel
  have htype : (quoted "type" ++ ": " ++ quoted "parent_finished").utf8ByteSize = 25 := by
    decide +kernel
  have hparentState : (quoted "parent_state" ++ ": ").utf8ByteSize = 16 := by decide +kernel
  have hparentId : (quoted "parent_task_id" ++ ": ").utf8ByteSize = 18 := by decide +kernel
  have hopening : "\x7b".utf8ByteSize = 1 := by decide +kernel
  have hclosing : "\x7d".utf8ByteSize = 1 := by decide +kernel
  have hcomma : ", ".utf8ByteSize = 2 := by decide +kernel
  unfold Json.octetLength parentFinished
  simp only [Json.text, Json.fieldTexts, String.intercalate_cons_cons, String.intercalate_singleton,
    String.utf8ByteSize_append] at *
  omega

/-! ## One trigger -/

/-- Every checkpoint fits that a queued trigger is about to write. A task that an earlier trigger
cancels gets none. -/
def Session.Fits (s : Session) : Prop :=
  ∀ before after k w t new, s.queued = before ++ .resolveTaskResult w.resultTaskId new :: after →
    OpenResult s.db k w → s.db.tasks.get? k.taskId = some t → t.state = .waiting →
      Session.Doomed { s with queued := before } k.taskId ∨ Holds (checkpointChecks k new.checkpoint)

structure Session.Ready (s : Session) : Prop where
  settled : s.Settled
  waits : WaitInv s
  checks : ChecksInv s.db
  fits : s.Fits

theorem drainBound_cancel {id : Uuid} {t new : Task} {k : Uuid × Nat} {f : Attempt → Attempt}
    (row : s.db.tasks.get? id = some t) (unfinished : t.state.outstanding = true)
    (finished : new.state.terminal = true) :
    drainBound ((s.write id t new).endAttempt k f) = drainBound s := by
  have hcount := count_put_old (fun _ t => t.state.outstanding) new row
  have hnew : new.state.outstanding = false := by rw [outstanding_eq_not, finished]; rfl
  have hafter : (afterUpdate id t new).length = 3 := by
    unfold afterUpdate
    rw [unfinished, finished]
    rfl
  rw [unfinished, hnew] at hcount
  simp only [if_true, Bool.false_eq_true, if_false, Nat.add_zero] at hcount
  unfold drainBound Session.endAttempt Session.write
  simp only [length_append, hafter]
  omega

theorem cancelOwnedChildren_returns (id : Uuid) (new : Task) (inv : ChecksInv s.db) :
    ∃ s', cancelOwnedChildren e id new s = .ok s' ∧ drainBound s' = drainBound s := by
  unfold cancelOwnedChildren
  obtain ⟨s', hs', -, -, -, hbound⟩ := foldlM_returns (f := cancelRow e (parentFinished id new.state))
    (fun rest s' => ChecksInv s'.db ∧ (rest.map Prod.fst).Nodup ∧
      (∀ x ∈ rest, s'.db.tasks.get? x.1 = some x.2 ∧ x.2.state.outstanding = true) ∧
      drainBound s' = drainBound s)
    (by
      rintro ⟨j, c⟩ rest s1 ⟨hinv, hnodup, hrows, hbound⟩
      rw [map_cons, nodup_cons] at hnodup
      rw [forall_mem_cons] at hrows
      obtain ⟨⟨row, unfinished⟩, hrows⟩ := hrows
      obtain ⟨s2, hs2⟩ := cancelRow_returns (e := e) hinv row unfinished (parentFinished_size id new.state)
      obtain ⟨checked, hs2'⟩ := cancelRow_spec hs2
      refine ⟨s2, hs2, ?_, hnodup.2, ?_, ?_⟩
      · rw [hs2']
        exact effect_keeps_checks (.cancel row unfinished checked) hinv
      · intro y hy
        have hne : y.1 ≠ j := fun h => hnodup.1 (List.mem_map.mpr ⟨y, hy, h⟩)
        rw [hs2']
        exact ⟨(get?_put_of_ne _ _ hne).trans (hrows y hy).1, (hrows y hy).2⟩
      · rw [hs2', drainBound_cancel row unfinished rfl, hbound])
    (l := s.db.tasks.select fun _ t => t.parentTaskId = some id && t.state.outstanding) (s := s)
    ⟨inv, nodup_select _ _, fun y hy => by
      obtain ⟨hrow, hp⟩ := mem_select.mp (show (y.1, y.2) ∈ _ from hy)
      rw [Bool.and_eq_true] at hp
      exact ⟨hrow, hp.2⟩, rfl⟩
  exact ⟨s', hs', hbound⟩

theorem drainBound_deliver (now : Timestamp) (k : StepKey) (v : Json) (s : Session)
    (waits : Table StepKey ResultWait) :
    drainBound { s.deliver now k v with db := { (s.deliver now k v).db with resultWaits := waits } } =
      drainBound s := by
  unfold drainBound Session.deliver
  have hcount := count_adjust (t := s.db.tasks) (k := k.taskId) (f := Task.woken now)
    (p := fun _ t => t.state.outstanding) (by
      intro t _
      unfold Task.woken
      split
      · rename_i hw
        rw [hw]
        rfl
      · rfl)
  simp only [hcount]

theorem resolveResultWait_returns {k : StepKey} {v : Json} {t : Task} (w : ResultWait)
    (outcome : WaitOutcome) (inv : ChecksInv s.db) (row : s.db.tasks.get? k.taskId = some t)
    (fits : Holds (checkpointChecks k v)) : ∃ s', resolveResultWait e v outcome s (k, w) = .ok s' := by
  unfold resolveResultWait
  dsimp only
  rw [saveCheckpoint_returns row fits]
  simp only [bind, Except.bind]
  rw [wake_returns k.taskId (by exact inv.tasks k.taskId)]
  exact ⟨_, rfl⟩

theorem resolveTaskResult_returns (id : Uuid) (new : Task) (inv : ChecksInv s.db)
    (fits : ∀ k w t, OpenResult s.db k w → s.db.tasks.get? k.taskId = some t → t.state = .waiting →
      w.resultTaskId = id → Holds (checkpointChecks k new.checkpoint)) :
    ∃ s', resolveTaskResult e id new s = .ok s' ∧ drainBound s' = drainBound s := by
  unfold resolveTaskResult
  obtain ⟨s', hs', -, -, -, hbound⟩ := foldlM_returns
    (f := resolveResultWait e new.checkpoint new.state.waitOutcome)
    (fun rest s' => ChecksInv s'.db ∧ (rest.map Prod.fst).Nodup ∧
      (∀ x ∈ rest, s'.db.resultWaits.get? x.1 = some x.2 ∧ x.2.resolvedAt = none ∧
        (∃ t, s'.db.tasks.get? x.1.taskId = some t) ∧ Holds (checkpointChecks x.1 new.checkpoint)) ∧
      drainBound s' = drainBound s)
    (by
      rintro ⟨k, w⟩ rest s1 ⟨hinv, hnodup, hrows, hbound⟩
      rw [map_cons, nodup_cons] at hnodup
      rw [forall_mem_cons] at hrows
      obtain ⟨⟨hrow, hopen, ⟨t, ht⟩, hfits⟩, hrows⟩ := hrows
      obtain ⟨s2, hs2⟩ := resolveResultWait_returns (e := e) w new.state.waitOutcome hinv ht hfits
      have hs2' := (resolveResultWait_spec hs2).2
      refine ⟨s2, hs2, ?_, hnodup.2, ?_, ?_⟩
      · rw [hs2']
        exact { hinv with
          tasks := woken_checked hinv
          resultWaits := put_checked hinv.resultWaits (hinv.resultWaits k w hrow) }
      · intro y hy
        obtain ⟨hyrow, hyopen, ⟨u, hu⟩, hyfits⟩ := hrows y hy
        have hne : y.1 ≠ k := fun h => hnodup.1 (List.mem_map.mpr ⟨y, hy, h⟩)
        rw [hs2']
        refine ⟨(get?_put_of_ne _ _ hne).trans hyrow, hyopen, ?_, hyfits⟩
        simp only [Session.deliver, get?_adjust]
        split
        · rw [ht]
          exact ⟨_, rfl⟩
        · exact ⟨u, hu⟩
      · rw [hs2', drainBound_deliver, hbound])
    (l := s.db.resultWaits.select (Watched s.db id)) (s := s)
    ⟨inv, nodup_select _ _, fun y hy => by
      obtain ⟨hrow, hp⟩ := mem_select.mp (show (y.1, y.2) ∈ _ from hy)
      simp only [Watched, Bool.and_eq_true, decide_eq_true_eq, Option.isNone_iff_eq_none,
        Option.any_eq_true] at hp
      obtain ⟨⟨htarget, hopen⟩, t, ht, hwaiting⟩ := hp
      exact ⟨hrow, hopen, ⟨t, ht⟩, fits _ _ t ⟨hrow, hopen⟩ ht hwaiting htarget⟩, rfl⟩
  refine ⟨{ s' with db := cancelOwnWaits e id s'.db }, ?_, hbound⟩
  exact bind_eq_ok.mpr ⟨s', hs', rfl⟩

theorem fire_returns {t : Trigger} {rest : List Trigger} (hq : s.queued = t :: rest) (ready : s.Ready) :
    ∃ s', fire e t { s with queued := [] } = .ok s' ∧
      drainBound { s' with queued := s'.queued ++ rest } + 1 = drainBound s := by
  have hdrop : ∀ s' : Session, drainBound s' = drainBound { s with queued := [] } →
      drainBound { s' with queued := s'.queued ++ rest } + 1 = drainBound s := by
    intro s' hs'
    unfold drainBound at *
    simp only [length_append, hq, length_cons, length_nil] at *
    omega
  cases t with
  | cancelOwnedChildren id new =>
    obtain ⟨s', hs', hbound⟩ := cancelOwnedChildren_returns (e := e) (s := { s with queued := [] }) id new
      ready.checks
    exact ⟨s', hs', hdrop s' hbound⟩
  | manageIdempotencyKey id old new =>
    refine ⟨_, rfl, hdrop _ ?_⟩
    obtain ⟨keys, hdb⟩ := manage_tables e id old new s.db
    unfold drainBound
    rw [hdb]
  | resolveTaskResult id new =>
    obtain ⟨s', hs', hbound⟩ := resolveTaskResult_returns (e := e) (s := { s with queued := [] }) id new
      ready.checks (by
        rintro k w t hopen ht hwaiting rfl
        refine (ready.fits [] rest k w t new hq hopen ht hwaiting).resolve_left ?_
        exact Spread.not_doomed fun _ ⟨_, hnone⟩ => not_mem_nil hnone)
    exact ⟨s', hs', hdrop s' hbound⟩

theorem Ripples.checks (h : Ripples e ls s s') (inv : ChecksInv s.db) : ChecksInv s'.db := by
  induction h with
  | nil => exact inv
  | cons head _ ih => exact ih (effect_keeps_checks head.effect inv)

theorem fire_ready {u : Trigger} {rest : List Trigger} (hq : s.queued = u :: rest) (ready : s.Ready)
    (h : fire e u { s with queued := [] } = .ok s') :
    Session.Ready { s' with queued := s'.queued ++ rest } := by
  obtain ⟨⟨ls, path⟩, -, hset⟩ := fire_spec hq ready.settled h
  refine ⟨hset, Ripples.waitInv path ready.waits, Ripples.checks path ready.checks, ?_⟩
  intro before after k w t new hsplit hopen ht hwaiting
  have hopen0 := Ripples.openResult path hopen
  have ht0 := Ripples.waiting path ht hwaiting
  -- The same trigger in a shorter queue: what it cancels does not depend on the rest.
  have hshort : ∀ ahead, (∀ v ∈ ahead, v ∈ rest) →
      ∃ ls, Ripples e ls { s with queued := u :: ahead } { s' with queued := s'.queued ++ ahead } := by
    intro ahead hahead
    refine (fire_spec (s := { s with queued := u :: ahead }) rfl ?_ h).1
    intro v hv
    refine ready.settled v ?_
    rw [hq]
    exact mem_cons.mpr ((mem_cons.mp hv).imp_right (hahead v))
  have hplace : (∃ ahead, before = s'.queued ++ ahead ∧
      rest = ahead ++ .resolveTaskResult w.resultTaskId new :: after) ∨
        .resolveTaskResult w.resultTaskId new ∈ s'.queued := by
    rcases append_eq_append_iff.mp hsplit with ⟨ahead, hbefore, hrest⟩ | ⟨behind, hnew, hrest⟩
    · exact .inl ⟨ahead, hbefore, hrest⟩
    · cases behind with
      | nil => exact .inl ⟨[], by rw [hnew, append_nil, append_nil], hrest.symm⟩
      | cons v behind =>
        rw [hnew, ← (List.cons.inj hrest).1]
        exact .inr (mem_append_right _ mem_cons_self)
  rcases hplace with ⟨ahead, rfl, hrest⟩ | hnew
  · -- The trigger was queued before.
    rcases ready.fits (u :: ahead) after k w t new (by rw [hq, hrest]; rfl) hopen0 ht0 hwaiting with
      hdoomed | hfits
    · obtain ⟨ls', path'⟩ := hshort ahead fun v hv => by rw [hrest]; exact mem_append_left _ hv
      rcases (Ripples.doomed path').mp hdoomed with hcancel | hdoomed
      · obtain ⟨_, t1, _, _, -, -, -, -, hlast⟩ := Ripples.row_cancelled path' hcancel
        cases ht.symm.trans hlast
        cases hwaiting
      · exact .inl hdoomed
    · exact .inr hfits
  · -- The trigger is the one that fired, or it is new and nobody waits for its task.
    obtain ⟨ls', path'⟩ := hshort [] fun _ hv => absurd hv not_mem_nil
    have hset' : Session.Settled { s with queued := [u] } := by
      intro v hv
      rw [mem_singleton.mp hv]
      exact ready.settled u (by rw [hq]; exact mem_cons_self)
    rcases Ripples.queued path' hset' (mem_append_left _ hnew) with hu | ⟨parent, p, howner, hp, hdone⟩
    · rw [← mem_singleton.mp hu] at hq
      refine .inr ((ready.fits [] rest k w t new hq hopen0 ht0 hwaiting).resolve_left ?_)
      exact Spread.not_doomed fun _ ⟨_, hnone⟩ => not_mem_nil hnone
    · exact ((Ripples.waitInv path ready.waits).orphan hopen ht hwaiting howner hp hdone).elim

/-! ## The whole cascade -/

theorem drain_returns {depth : Nat} (room : drainBound s ≤ depth) (ready : s.Ready) :
    ∃ s', drain e depth s = .ok s' := by
  induction depth generalizing s with
  | zero =>
    unfold drain
    split
    · exact ⟨s, rfl⟩
    · rename_i hq
      unfold drainBound at room
      rw [hq, length_cons] at room
      omega
  | succ depth ih =>
    unfold drain
    split
    · exact ⟨s, rfl⟩
    · rename_i t rest hq
      obtain ⟨s1, h1, hbound⟩ := fire_returns (e := e) hq ready
      obtain ⟨s2, h2⟩ := ih (by omega) (fire_ready hq ready h1)
      exact ⟨s2, bind_eq_ok.mpr ⟨s1, h1, h2⟩⟩

theorem fireTriggers_returns (ready : s.Ready) : ∃ s', fireTriggers e s = .ok s' :=
  drain_returns (Nat.le_refl _) ready

end Pgtask
