import Pgtask.Effect.Durable

/-! # Signals, waits and their timeouts as effects -/

open Sql Checked List Option Table

namespace Pgtask

variable {v : Json} {s s' : Session} {k : StepKey} {t : Task} {r : Option WaitReply} {id : Uuid}
  {w : ResultWait}

variable {e : Env}

/-! ## Signals -/

theorem resolveWait_spec {outcome : WaitOutcome}
    {w : Wait} (h : resolveWait e v outcome s (k, w) = .ok s') :
    s' = { s.deliver e.now k v with db := { (s.deliver e.now k v).db with
      waits := s.db.waits.put k { w with resolvedAt := some e.now, outcome := some outcome } } } := by
  unfold resolveWait at h
  obtain ⟨⟨stored, s1⟩, h1, h⟩ := bind_ok h
  obtain ⟨rfl, -, -⟩ := saveCheckpoint_spec h1
  obtain ⟨s2, h2, h⟩ := bind_ok h
  have := wake_spec h2
  subst this
  cases h
  rfl

/-- A session with another table of signals. Answering a wait never reads that table. -/
def Session.withSignals (s : Session) (signals : Table SignalKey Json) : Session :=
  { s with db := { s.db with signals := signals } }

theorem resolveWaits_spec {outcome : WaitOutcome} {rows : List (StepKey × Wait)} (nodup : (rows.map Prod.fst).Nodup)
    (answer : (outcome = .timeout ∧ v = signalTimeout) ∨
      (outcome = .signal ∧ ∃ stored, v = signalCheckpoint stored))
    (current : ∀ x ∈ rows, s.db.waits.get? x.1 = some x.2 ∧ x.2.resolvedAt = none)
    (h : rows.foldlM (resolveWait e v outcome) s = .ok s') :
    (∀ signals, Effects e (rows.map fun x => .deliver x.1) (s.withSignals signals)
      (s'.withSignals signals)) ∧ s'.queued = s.queued ∧ s'.db.signals = s.db.signals ∧
      (∀ j w, s'.db.waits.get? j = some w → w.resolvedAt = none →
        s.db.waits.get? j = some w ∧ j ∉ rows.map Prod.fst) ∧
      ∀ j t, s.db.tasks.get? j = some t → ∃ t', s'.db.tasks.get? j = some t' := by
  induction rows generalizing s with
  | nil =>
    cases h
    exact ⟨fun _ => .nil _, rfl, rfl, fun j w hw _ => ⟨hw, by simp⟩, fun j t ht => ⟨t, ht⟩⟩
  | cons x rows ih =>
    obtain ⟨k, w⟩ := x
    obtain ⟨s1, h1, h⟩ := bind_ok h
    have hs1 := resolveWait_spec h1
    rw [map_cons, nodup_cons] at nodup
    rw [forall_mem_cons] at current
    have hrows : ∀ y ∈ rows, s1.db.waits.get? y.1 = some y.2 ∧ y.2.resolvedAt = none := by
      intro y hy
      have hne : y.1 ≠ k := fun hyk => nodup.1 (List.mem_map.mpr ⟨y, hy, hyk⟩)
      obtain ⟨hyrow, hyopen⟩ := current.2 y hy
      exact ⟨by rw [hs1, get?_put_of_ne _ _ hne, hyrow], hyopen⟩
    obtain ⟨path, hq, hsig, hopen, htask⟩ := ih nodup.2 hrows h
    refine ⟨fun signals => .cons ?_ (path signals), ?_, ?_, ?_, ?_⟩
    · rw [hs1]
      exact .deliver (s := s.withSignals signals) (v := v) current.1.1 current.1.2 answer
    · rw [hq, hs1]
      rfl
    · rw [hsig, hs1]
      rfl
    · intro j q hj ho
      obtain ⟨hj1, hnot⟩ := hopen j q hj ho
      rw [hs1, get?_put] at hj1
      split at hj1
      · cases hj1
        cases ho
      · rename_i hne
        refine ⟨hj1, ?_⟩
        rw [map_cons, mem_cons, not_or]
        exact ⟨hne, hnot⟩
    · intro j t ht
      have : ∃ t', s1.db.tasks.get? j = some t' := by
        rw [hs1]
        simp only [Session.deliver, get?_adjust]
        split
        · rename_i hj
          rw [← hj, ht]
          exact ⟨_, rfl⟩
        · exact ⟨t, ht⟩
      obtain ⟨t', ht'⟩ := this
      exact htask j t' ht'

theorem emitSignal_spec {k : SignalKey} {stored : Json}
    (h : emitSignal e k v s = .ok (stored, s')) :
    (∃ ls, Effects e ls s s' ∧ ∀ l ∈ ls, (∃ j, l = .deliver j) ∨ l = .signal k) ∧
      s'.queued = s.queued := by
  unfold emitSignal at h
  obtain ⟨⟨value, s1⟩, h1, h⟩ := bind_ok h
  obtain ⟨s2, h2, h⟩ := bind_ok h
  cases h
  obtain ⟨path, hq, hsig, hopen, htask⟩ := resolveWaits_spec (nodup_select _ _)
    (.inr ⟨rfl, _, rfl⟩) (by
    intro x hx
    obtain ⟨hrow, hp⟩ := mem_select.mp (show (x.1, x.2) ∈ _ from hx)
    simp only [Bool.and_eq_true, isNone_iff_eq_none] at hp
    exact ⟨hrow, hp.2⟩) h2
  -- What is still open afterwards does not ask for this signal.
  have hanswered : ∀ j w, s'.db.waits.get? j = some w → w.key j = k → w.resolvedAt ≠ none := by
    intro j w hj hk ho
    obtain ⟨hj1, hnot⟩ := hopen j w hj ho
    apply hnot
    refine List.mem_map.mpr ⟨(j, w), mem_select.mpr ⟨hj1, ?_⟩, rfl⟩
    subst hk
    simp [Wait.key, ho]
  have hdelivers : ∀ (rows : List (StepKey × Wait)), ∀ l ∈ rows.map fun x => Label.deliver x.1,
      (∃ j, l = Label.deliver j) ∨ l = .signal k := by
    intro rows l hl
    obtain ⟨x, -, rfl⟩ := List.mem_map.mp hl
    exact .inl ⟨x.1, rfl⟩
  unfold saveSignal at h1
  obtain ⟨u, hu, h1⟩ := bind_ok h1
  split at h1
  · cases h1
    have hs' : s'.withSignals s.db.signals = s' := by
      unfold Session.withSignals
      rw [← hsig]
    have hpath := path s.db.signals
    rw [hs'] at hpath
    exact ⟨⟨_, hpath, hdelivers _⟩, hq⟩
  · rename_i hfree
    split at h1
    · cases h1
    · rename_i htask0
      cases h1
      have hpath := path s.db.signals
      obtain ⟨t, ht⟩ : ∃ t, s.db.tasks.get? k.taskId = some t := by
        cases hr : s.db.tasks.get? k.taskId with
        | none => simp [hr] at htask0
        | some t => exact ⟨t, rfl⟩
      obtain ⟨t', ht'⟩ := htask k.taskId t ht
      have hsignal := Effect.signal (e := e) (s := s'.withSignals s.db.signals) (v := v) ht' hfree hanswered
        (require_ok hu)
      have hs' : ({ s'.withSignals s.db.signals with db := { (s'.withSignals s.db.signals).db with
          signals := (s'.withSignals s.db.signals).db.signals.put k v } } : Session) = s' := by
        have hsig : s'.db.signals = s.db.signals.put k v := hsig
        unfold Session.withSignals
        simp only
        rw [← hsig]
      rw [hs'] at hsignal
      refine ⟨⟨_, hpath.append (.single hsignal), ?_⟩, hq⟩
      intro l hl
      rcases mem_append.mp hl with hl | hl
      · exact hdelivers _ l hl
      · exact .inr (mem_singleton.mp hl)

/-! ## Waits -/

theorem answerReady_spec (row : s.db.tasks.get? k.taskId = some t) (running : t.state = .running)
    (h : answerReady k v s = .ok (r, s')) :
    ∃ ls stored, Effects e ls s s' ∧ (∀ l ∈ ls, l = .checkpoint k) ∧ s'.queued = s.queued ∧
      r = some (.ready stored) ∧ s'.db.checkpoints.get? k = some stored := by
  unfold answerReady at h
  obtain ⟨⟨stored, s1⟩, h1, h⟩ := bind_ok h
  cases h
  obtain ⟨ls, path, hls, hq, hget⟩ := saveCheckpoint_effects (e := e) row running h1
  exact ⟨ls, stored, path, hls, hq, rfl, hget⟩

theorem park_spec (h : park e id t s = .ok (r, s')) :
    r = some .waiting ∧ Holds (t.parked.checks id) ∧
      s' = (s.write id t t.parked).endAttempt (id, t.attempt) fun a =>
        { a with state := .suspended, finishedAt := some e.now } := by
  unfold park suspendAttempt at h
  obtain ⟨s1, h1, h⟩ := bind_ok h
  obtain ⟨s2, h2, h⟩ := bind_ok h
  cases h
  obtain ⟨rfl, checked, -⟩ := updateTask_spec h1
  exact ⟨rfl, checked, updateAttempt_spec h2⟩

theorem park_queued {f : Attempt → Attempt} (running : t.state = .running) :
    ((s.write id t t.parked).endAttempt (id, t.attempt) f).queued = s.queued := by
  rw [write_outstanding (running_outstanding running) (by rfl)]
  rfl

theorem armWait_spec {w : Wait} (h : armWait k w s = .ok s') :
    s' = { s with db := { s.db with waits := s.db.waits.put k w } } ∧ Holds (w.checks k) := by
  unfold armWait at h
  obtain ⟨u, hu, h⟩ := bind_ok h
  split at h
  · cases h
  · cases h
    exact ⟨rfl, require_ok hu⟩

theorem armResultWait_spec (h : armResultWait k w s = .ok s') :
    s' = { s with db := { s.db with resultWaits := s.db.resultWaits.put k w } } ∧
      Holds (w.checks k) := by
  unfold armResultWait at h
  obtain ⟨u, hu, h⟩ := bind_ok h
  split at h
  · cases h
  · cases h
    exact ⟨rfl, require_ok hu⟩

def Label.waits (id : Uuid) : Label → Prop
  | .checkpoint k | .parkSignal k | .parkResult k => k.taskId = id
  | _ => False

def Truthful (db : Database) (k : StepKey) : Option WaitReply → Prop
  | some (.ready v) => db.checkpoints.get? k = some v
  | _ => True

theorem waitForSignal_spec {token : Uuid} {attempt : Nat} {stepName signalName : String}
    {occ signalOcc : Int} {ms : Option Int}
    (h : waitForSignal e id attempt token stepName occ signalName signalOcc ms s = .ok (r, s')) :
    (∃ ls, Effects e ls s s' ∧ ∀ l ∈ ls, l.waits id) ∧ s'.queued = s.queued ∧
      (fenced s.db id attempt token = none → r = none) ∧
      ∀ t, fenced s.db id attempt token = some t →
        Truthful s'.db ⟨id, t.handlerVersion, stepName, occ⟩ r := by
  unfold waitForSignal at h
  split at h
  · cases h
  · split at h
    · rename_i hf
      cases h
      exact ⟨⟨[], .nil _, by simp⟩, rfl, fun _ => rfl, fun t ht => by rw [hf] at ht; cases ht⟩
    · rename_i t hf
      obtain ⟨row, running, hattempt, -⟩ := fenced_eq_some.mp hf
      refine (fun hmain => ⟨hmain.1, hmain.2.1, fun hn => (by rw [hf] at hn; cases hn),
        fun t' ht' => (by rw [hf] at ht'; cases ht'; exact hmain.2.2)⟩ : _ ∧ _ ∧
          Truthful s'.db ⟨id, t.handlerVersion, stepName, occ⟩ r → _) ?_
      extract_lets k at h
      split at h
      · rename_i v hv
        cases h
        exact ⟨⟨[], .nil _, by simp⟩, rfl, hv⟩
      · rename_i hk
        split at h
        · rename_i v hv
          obtain ⟨ls, stored, path, hls, hq, rfl, hget⟩ := answerReady_spec (e := e) row running h
          exact ⟨⟨ls, path, fun l hl => by rw [hls l hl]; rfl⟩, hq, hget⟩
        · rename_i hsig
          obtain ⟨s1, h1, h⟩ := bind_ok h
          obtain ⟨rfl, armed⟩ := armWait_spec h1
          obtain ⟨rfl, checked, rfl⟩ := park_spec h
          refine ⟨⟨_, .single (.parkSignal (k := k) row running hk hsig rfl armed checked), ?_⟩,
            park_queued running, trivial⟩
          intro l hl
          rw [mem_singleton.mp hl]
          rfl

theorem waitForResult_spec {token child : Uuid} {attempt : Nat} {stepName : String}
    {occ : Int} {ms : Option Int}
    (h : waitForResult e id attempt token stepName occ child ms s = .ok (r, s')) :
    (∃ ls, Effects e ls s s' ∧ ∀ l ∈ ls, l.waits id) ∧ s'.queued = s.queued ∧
      (fenced s.db id attempt token = none → r = none) ∧
      ∀ t, fenced s.db id attempt token = some t →
        Truthful s'.db ⟨id, t.handlerVersion, stepName, occ⟩ r := by
  unfold waitForResult at h
  split at h
  · cases h
  · rename_i hne
    split at h
    · cases h
    · split at h
      · rename_i hf
        cases h
        exact ⟨⟨[], .nil _, by simp⟩, rfl, fun _ => rfl, fun t ht => by rw [hf] at ht; cases ht⟩
      · rename_i t hf
        obtain ⟨row, running, hattempt, -⟩ := fenced_eq_some.mp hf
        refine (fun hmain => ⟨hmain.1, hmain.2.1, fun hn => (by rw [hf] at hn; cases hn),
          fun t' ht' => (by rw [hf] at ht'; cases ht'; exact hmain.2.2)⟩ : _ ∧ _ ∧
            Truthful s'.db ⟨id, t.handlerVersion, stepName, occ⟩ r → _) ?_
        extract_lets k at h
        split at h
        · rename_i v hv
          cases h
          exact ⟨⟨[], .nil _, by simp⟩, rfl, hv⟩
        · rename_i hk
          split at h
          · cases h
          · rename_i c hc
            rw [filter_eq_some_iff, decide_eq_true_eq] at hc
            split at h
            · obtain ⟨ls, stored, path, hls, hq, rfl, hget⟩ := answerReady_spec (e := e) row running h
              exact ⟨⟨ls, path, fun l hl => by rw [hls l hl]; rfl⟩, hq, hget⟩
            · rename_i hterminal
              obtain ⟨s1, h1, h⟩ := bind_ok h
              obtain ⟨rfl, armed⟩ := armResultWait_spec h1
              obtain ⟨rfl, checked, rfl⟩ := park_spec h
              have hun : c.state.outstanding = true := by simpa [outstanding_eq_not] using hterminal
              refine ⟨⟨_, .single (.parkResult (k := k) row running hk hc.1 hc.2 hun hne rfl armed
                checked), ?_⟩, park_queued running, trivial⟩
              intro l hl
              rw [mem_singleton.mp hl]
              rfl

/-! ## Timeouts -/

theorem recoverWaitTimeouts_spec {n : Int} {count : Nat}
    (h : recoverWaitTimeouts e n s = .ok (count, s')) :
    (∃ ls, Effects e ls s s' ∧ ∀ l ∈ ls, ∃ k, l = .deliver k) ∧ s'.queued = s.queued := by
  unfold recoverWaitTimeouts at h
  obtain ⟨m, -, h⟩ := bind_ok h
  obtain ⟨s1, h1, h⟩ := bind_ok h
  cases h
  obtain ⟨path, hq, hsig, -⟩ := resolveWaits_spec (nodup_take_sorted _ (nodup_select _ _))
    (.inl ⟨rfl, rfl⟩) (by
    intro x hx
    obtain ⟨hrow, hp⟩ := mem_select.mp (show (x.1, x.2) ∈ _ from mem_take_sorted hx)
    simp only [due, Bool.and_eq_true, isNone_iff_eq_none] at hp
    exact ⟨hrow, hp.1⟩) h1
  have hs' : s'.withSignals s.db.signals = s' := by
    unfold Session.withSignals
    rw [← hsig]
  have hpath := path s.db.signals
  rw [hs'] at hpath
  refine ⟨⟨_, hpath, ?_⟩, hq⟩
  intro l hl
  obtain ⟨x, -, rfl⟩ := List.mem_map.mp hl
  exact ⟨x.1, rfl⟩

/-- A fetched result wait is still open, or its task does not wait any more. -/
def Fetched (k : StepKey) (w : ResultWait) (s : Session) : Prop :=
  ∃ c, s.db.resultWaits.get? k = some c ∧ c.resultTaskId = w.resultTaskId ∧
    ((c = w ∧ w.resolvedAt = none) ∨
      (c.resolvedAt ≠ none ∧ ∀ t, s.db.tasks.get? k.taskId = some t → t.state ≠ .waiting))

def Label.timesOut : Label → Bool
  | .deliverResult _ | .staleTimeout _ => true
  | l => l.cascade

theorem awake_woken {j : Uuid} {now : Timestamp}
    (h : ∀ t, s.db.tasks.get? id = some t → t.state ≠ .waiting) :
    ∀ t, (s.db.tasks.adjust j (Task.woken now)).get? id = some t → t.state ≠ .waiting := by
  intro t ht
  rw [get?_adjust] at ht
  split at ht
  · obtain ⟨t0, -, rfl⟩ := map_eq_some_iff.mp ht
    exact woken_not_waiting _ _
  · exact h t ht

theorem timesOut_keeps_fetched {l : Label}
    (hl : l.timesOut = true) (h : Effect e l s s') (hf : Fetched k w s) : Fetched k w s' := by
  obtain ⟨c, hrow, htarget, hc⟩ := hf
  cases h with
  | cancel row unfinished =>
    refine ⟨c, hrow, htarget, hc.imp_right fun hc => ⟨hc.1, ?_⟩⟩
    intro t ht
    simp only [Session.endAttempt, Session.write, get?_put] at ht
    split at ht
    · cases ht
      exact TaskState.noConfusion
    · exact hc.2 t ht
  | @deliverResult _ j w' v outcome row isOpen =>
    by_cases hj : k = j
    · -- The row itself was answered, so its task is awake.
      subst hj
      rw [hrow, Option.some.injEq] at row
      subst row
      refine ⟨_, get?_put_self _ _ _, htarget, .inr ⟨by simp, ?_⟩⟩
      intro t ht
      simp only [Session.deliver, get?_adjust, if_pos] at ht
      obtain ⟨t0, -, rfl⟩ := map_eq_some_iff.mp ht
      exact woken_not_waiting _ _
    · refine ⟨c, ?_, htarget, hc.imp_right fun hc => ⟨hc.1, awake_woken hc.2⟩⟩
      simpa only [Session.deliver, get?_put, if_neg hj] using hrow
  | @staleTimeout _ j w1 w2 v row resolved awake target still _ =>
    by_cases hj : k = j
    · subst hj
      rw [hrow, Option.some.injEq] at row
      subst row
      exact ⟨_, get?_put_self _ _ _, target.trans htarget, .inr ⟨still, awake⟩⟩
    · exact ⟨c, by simpa only [get?_put, if_neg hj] using hrow, htarget, hc⟩
  | fireCancel => exact ⟨c, hrow, htarget, hc⟩
  | @fireManage _ id old new rest =>
    have hdb : (manageIdempotencyKey e id old new s.db).tasks = s.db.tasks ∧
        (manageIdempotencyKey e id old new s.db).resultWaits = s.db.resultWaits := by
      unfold manageIdempotencyKey manageReservation
      repeat' split
      all_goals exact ⟨rfl, rfl⟩
    unfold Fetched
    simp only [hdb.1, hdb.2]
    exact ⟨c, hrow, htarget, hc⟩
  | @fireResolve _ id new rest queue row finished =>
    -- The waits of the finished task are closed, and that task is not waiting.
    by_cases hk : k.taskId = id ∧ c.resolvedAt = none
    · refine ⟨{ c with resolvedAt := some e.now, outcome := some .cancelled }, ?_, htarget,
        .inr ⟨by simp, ?_⟩⟩
      · simp only [cancelOwnWaits, get?_update, hrow, map_some, if_pos hk]
      · intro t ht hw
        have ht : s.db.tasks.get? k.taskId = some t := ht
        rw [hk.1, row] at ht
        cases ht
        rw [hw] at finished
        cases finished
    · refine ⟨c, ?_, htarget, hc⟩
      simp only [cancelOwnWaits, get?_update, hrow, map_some, if_neg hk]
  | reorder => exact ⟨c, hrow, htarget, hc⟩
  | _ => cases hl

theorem cancelUnfinished_spec (error : Json) (hq : s.queued = [])
    (h : cancelUnfinished e id error s = .ok s') :
    (∃ ls, Effects e ls s s' ∧ ∀ l ∈ ls, l.cascade = true) ∧ s'.queued = [] := by
  unfold cancelUnfinished at h
  split at h
  · cases h
    exact ⟨⟨[], .nil _, by simp⟩, hq⟩
  · rename_i t ht
    rw [filter_eq_some_iff] at ht
    obtain ⟨s1, h1, h⟩ := bind_ok h
    obtain ⟨checked, rfl⟩ := cancelRow_spec h1
    have hset : ∀ k f, ((s.write id t (t.cancelledAt e.now error)).endAttempt k f).Settled :=
      fun _ _ => settled_write (settled_of_empty hq) ht.1 ht.2
    obtain ⟨⟨ls, path, hls⟩, -, hempty⟩ := fireTriggers_spec (hset _ _) h
    exact ⟨⟨_, .cons (.cancel ht.1 ht.2 checked) path, forall_mem_cons.mpr ⟨rfl, hls⟩⟩, hempty⟩

theorem timeOutResultWait_spec (hq : s.queued = [])
    (hf : Fetched k w s) (h : timeOutResultWait e s (k, w) = .ok s') :
    (∃ ls, Effects e ls s s' ∧ ∀ l ∈ ls, l.timesOut = true) ∧ s'.queued = [] := by
  unfold timeOutResultWait at h
  obtain ⟨s1, h1, h⟩ := bind_ok h
  have hs1 := (resolveResultWait_spec h1).2
  have hq1 : s1.queued = [] := by rw [hs1]; exact hq
  obtain ⟨⟨ls, path, hls⟩, hempty⟩ := cancelUnfinished_spec _ hq1 h
  have hls : ∀ l ∈ ls, l.timesOut = true := by
    intro l hl
    have := hls l hl
    cases l <;> first | rfl | cases this
  obtain ⟨c, hrow, htarget, ⟨rfl, hopen⟩ | ⟨hresolved, hawake⟩⟩ := hf
  · have effect : Effect e (.deliverResult k) s s1 := by
      rw [hs1]
      exact .deliverResult hrow hopen (.inl ⟨rfl, rfl⟩)
    exact ⟨⟨_, .cons effect path, forall_mem_cons.mpr ⟨rfl, hls⟩⟩, hempty⟩
  · -- The row was resolved by an earlier round. Its task is awake, so nobody is woken.
    have htasks : s.db.tasks.adjust k.taskId (Task.woken e.now) = s.db.tasks := by
      cases ht : s.db.tasks.get? k.taskId with
      | none => exact adjust_of_none _ ht
      | some t =>
        rw [adjust_of_some _ ht]
        unfold Task.woken
        rw [if_neg (hawake t ht), put_self ht]
    have effect : Effect e (.staleTimeout k) s s1 := by
      rw [hs1]
      unfold Session.deliver
      rw [htasks]
      exact .staleTimeout hrow hresolved hawake htarget.symm (by simp) hq rfl rfl
    exact ⟨⟨_, .cons effect path, forall_mem_cons.mpr ⟨rfl, hls⟩⟩, hempty⟩

theorem timeOutResultWaits_spec {rows : List (StepKey × ResultWait)} (hq : s.queued = [])
    (hf : ∀ x ∈ rows, Fetched x.1 x.2 s) (h : rows.foldlM (timeOutResultWait e) s = .ok s') :
    (∃ ls, Effects e ls s s' ∧ ∀ l ∈ ls, l.timesOut = true) ∧ s'.queued = [] := by
  have hloop := foldlM_rule (fun rest s' => ((∃ ls, Effects e ls s s' ∧ ∀ l ∈ ls, l.timesOut = true) ∧
    s'.queued = []) ∧ ∀ x ∈ rest, Fetched x.1 x.2 s') ?_ h ⟨⟨⟨[], .nil _, by simp⟩, hq⟩, hf⟩
  · exact hloop.1
  · rintro ⟨k, w⟩ rest s1 s2 ⟨⟨⟨ls, path, hls⟩, hq1⟩, hrest⟩ h2
    rw [forall_mem_cons] at hrest
    obtain ⟨⟨ls', path', hls'⟩, hq2⟩ := timeOutResultWait_spec hq1 hrest.1 h2
    refine ⟨⟨⟨ls ++ ls', path.append path', ?_⟩, hq2⟩, ?_⟩
    · intro l hl
      rcases mem_append.mp hl with hl | hl
      · exact hls l hl
      · exact hls' l hl
    · intro x hx
      exact path'.keeps (fun l s s' hl h => timesOut_keeps_fetched hl h) hls' (hrest.2 x hx)

theorem fetched_of_due {n : Nat} {x : StepKey × ResultWait}
    (hx : x ∈ ((s.db.resultWaits.select fun _ w => due e.now w.timeoutAt w.resolvedAt).insertionSort
      fun x y => byTimeout (x.2.timeoutAt, x.1.taskId) (y.2.timeoutAt, y.1.taskId)).take n) :
    s.db.resultWaits.get? x.1 = some x.2 ∧ x.2.resolvedAt = none ∧ Fetched x.1 x.2 s := by
  obtain ⟨hrow, hp⟩ := mem_select.mp (show (x.1, x.2) ∈ _ from mem_take_sorted hx)
  simp only [due, Bool.and_eq_true, isNone_iff_eq_none] at hp
  exact ⟨hrow, hp.1, x.2, hrow, rfl, .inl ⟨rfl, hp.1⟩⟩

theorem recoverResultWaitTimeouts_spec {n : Int} {count : Nat} (hq : s.queued = [])
    (h : recoverResultWaitTimeouts e n s = .ok (count, s')) :
    (∃ ls, Effects e ls s s' ∧ ∀ l ∈ ls, l.timesOut = true) ∧ s'.queued = [] := by
  unfold recoverResultWaitTimeouts at h
  obtain ⟨m, -, h⟩ := bind_ok h
  obtain ⟨s1, h1, h⟩ := bind_ok h
  cases h
  exact timeOutResultWaits_spec hq (fun x hx => (fetched_of_due hx).2.2) h1

end Pgtask
