import Pgtask.Effect.Triggers

/-! # The worker protocol as effects -/

open Sql Checked List Table

namespace Pgtask

variable {t : Task} {ms n : Int} {s s' : Session} {rows claimed : List (Uuid × Task)}
  {queueName : String} {result error : Option Json}

variable {e : Env}

/-! ## Claim -/

theorem historicalFailures_congr {db db' : Database} {id : Uuid}
    (h : (db'.attempts.count fun k a => k.1 = id && a.state.failure) =
      db.attempts.count fun k a => k.1 = id && a.state.failure) :
    historicalFailures db' id t = historicalFailures db id t := by
  unfold historicalFailures
  rw [h]

def HandsOut (row : Uuid × Task) (l : Lease) : Prop :=
  row.1 = l.taskId ∧ row.2.attempt = l.attempt ∧ row.2.leaseToken = some l.leaseToken ∧
    row.2.state = .running

theorem claimRow_spec {worker id : Uuid}
    {claimed : Uuid × Task} (row : s.db.tasks.get? id = some t) (pending : t.state = .pending)
    (budget : (historicalFailures s.db id t : Int) < t.maxAttempts) (ready : t.Ready e s.db)
    (h : claimRow e worker ms (id, t) s = .ok (claimed, s')) :
    ∃ l, Effect e (.claim l) s s' ∧ HandsOut claimed l ∧ l.taskId = id ∧
      l.leaseToken = e.uuid s.drawn ∧ s'.drawn = s.drawn + 1 ∧ s'.queued = s.queued ∧
      s'.db.tasks = s.db.tasks.put id claimed.2 ∧
      (∃ a, s'.db.attempts = s.db.attempts.put (id, l.attempt) a) ∧
      s.db.attempts.get? (id, l.attempt) = none ∧ s'.db.queues = s.db.queues ∧
      Holds (claimed.2.checks id) := by
  unfold claimRow genRandomUuid at h
  obtain ⟨attempt, ha, h⟩ := bind_ok h
  obtain ⟨s1, h1, h⟩ := bind_ok h
  obtain rfl := int4Succ_ok ha
  obtain ⟨rfl, checked, -⟩ := updateTask_spec h1
  have hout : t.state.outstanding = true := by rw [pending]; rfl
  rw [write_outstanding hout (by rfl)] at h
  split at h
  · cases h
  · rename_i hfree
    cases h
    have hfree : s.db.attempts.get? (id, t.attempt + 1) = none := by simpa using hfree
    exact ⟨_, .claim row pending budget rfl rfl hfree ready checked, ⟨rfl, rfl, rfl, rfl⟩, rfl, rfl,
      rfl, rfl, rfl, ⟨_, rfl⟩, hfree, rfl, checked⟩

def Candidate (e : Env) (db : Database) (x : Uuid × Task) : Prop :=
  db.tasks.get? x.1 = some x.2 ∧ x.2.state = .pending ∧
    (historicalFailures db x.1 x.2 : Int) < x.2.maxAttempts ∧ x.2.Ready e db

theorem claimRow_keeps {worker : Uuid} {x c : Uuid × Task} (nodup : ((x :: rows).map Prod.fst).Nodup)
    (current : ∀ y ∈ x :: rows, Candidate e s.db y)
    (h : claimRow e worker ms x s = .ok (c, s')) : ∀ y ∈ rows, Candidate e s'.db y := by
  rw [forall_mem_cons] at current
  obtain ⟨⟨row, pending, budget, ready⟩, current⟩ := current
  obtain ⟨l, -, -, -, -, -, -, htasks, ⟨a, hattempts⟩, hfree, hqueues, -⟩ :=
    claimRow_spec row pending budget ready h
  intro y hy
  have hne : y.1 ≠ x.1 := fun hyx =>
    (nodup_cons.mp nodup).1 (List.mem_map.mpr ⟨y, hy, hyx⟩)
  obtain ⟨hyrow, hypending, hybudget, hyready⟩ := current y hy
  refine ⟨by rw [htasks, get?_put_of_ne _ _ hne, hyrow], hypending, ?_,
    by unfold Task.Ready; rw [hqueues]; exact hyready⟩
  rw [historicalFailures_congr]
  · exact hybudget
  · rw [hattempts, count_put_new _ _ hfree]
    simp [Ne.symm hne]

theorem claimRows_spec {worker : Uuid} (nodup : (rows.map Prod.fst).Nodup) (current : ∀ x ∈ rows, Candidate e s.db x)
    (h : claimRows e worker ms rows s = .ok (claimed, s')) :
    ∃ leases : List Lease, Effects e (leases.map Label.claim) s s' ∧
      List.Forall₂ HandsOut claimed leases ∧ s'.queued = s.queued ∧
      claimed.map Prod.fst = rows.map Prod.fst ∧
      (∀ x ∈ claimed, s'.db.tasks.get? x.1 = some x.2 ∧ Holds (x.2.checks x.1)) ∧
      ∀ j, j ∉ rows.map Prod.fst → s'.db.tasks.get? j = s.db.tasks.get? j := by
  induction rows generalizing s claimed with
  | nil =>
    cases h
    exact ⟨[], .nil _, .nil, rfl, rfl, by simp, fun _ _ => rfl⟩
  | cons x rows ih =>
    obtain ⟨id, t⟩ := x
    unfold claimRows at h
    obtain ⟨⟨c, s1⟩, h1, h⟩ := bind_ok h
    obtain ⟨⟨cs, s2⟩, h2, h⟩ := bind_ok h
    cases h
    have hrows := claimRow_keeps nodup current h1
    rw [map_cons, nodup_cons] at nodup
    obtain ⟨row, pending, budget, ready⟩ := current (id, t) mem_cons_self
    obtain ⟨l, effect, hands, hid, -, -, hqueue, htasks, -, -, -, checked⟩ :=
      claimRow_spec row pending budget ready h1
    obtain ⟨ls, path, hf, hq, hids, hin, hother⟩ := ih nodup.2 hrows h2
    have hcid : c.1 = id := hands.1.trans hid
    refine ⟨l :: ls, .cons effect path, .cons hands hf, hq.trans hqueue, ?_, ?_, ?_⟩
    · rw [map_cons, map_cons, hids, hcid]
    · intro y hy
      rcases mem_cons.mp hy with rfl | hy
      · rw [hcid, hother _ nodup.1, htasks, get?_put_self]
        exact ⟨rfl, checked⟩
      · exact hin y hy
    · intro j hj
      rw [map_cons, mem_cons, not_or] at hj
      rw [hother j hj.2, htasks, get?_put_of_ne _ _ hj.1]

theorem mem_take_sorted {α : Type} {r : α → α → Prop} [DecidableRel r] {l : List α} {n : Nat} {a : α}
    (h : a ∈ (l.insertionSort r).take n) : a ∈ l :=
  (mem_insertionSort r).mp (mem_of_mem_take h)

theorem nodup_take_sorted {α β : Type} {r : α → α → Prop} [DecidableRel r] {l : List α} (n : Nat)
    {f : α → β} (h : (l.map f).Nodup) : (((l.insertionSort r).take n).map f).Nodup := by
  rw [List.map_take]
  exact (((perm_insertionSort r l).map f).nodup_iff.mpr h).sublist (take_sublist _ _)

theorem claimable_spec {db : Database} {handlers : List (String × Int)}
    {ready : Timestamp} {id : Uuid} (h : claimable db queueName handlers ready id t = true) :
    t.state = .pending ∧ (historicalFailures db id t : Int) < t.maxAttempts ∧
      t.queueName = queueName ∧ t.runAt ≤ ready := by
  unfold claimable at h
  simp only [Bool.and_eq_true, decide_eq_true_eq] at h
  exact ⟨h.1.1.1.2, h.1.2, h.1.1.1.1, h.1.1.2⟩

theorem claimCandidates_spec (e : Env) (db : Database) (queueName : String)
    (handlers : List (String × Int)) (n : Int) :
    ((claimCandidates e db queueName handlers n).map Prod.fst).Nodup ∧
      ∀ x ∈ claimCandidates e db queueName handlers n, Candidate e db x := by
  unfold claimCandidates
  split
  · exact ⟨nodup_nil, by simp⟩
  · rename_i q hq
    have hq := (Option.filter_eq_some_iff.mp hq).1
    extract_lets starved priorityCandidates
    constructor
    · rw [map_append, nodup_append]
      refine ⟨nodup_take_sorted _ (nodup_select _ _),
        nodup_take_sorted _ (nodup_select _ _), ?_⟩
      -- The second list leaves out what the first one took.
      rintro i hi j hj rfl
      obtain ⟨x, hx, rfl⟩ := List.mem_map.mp hi
      obtain ⟨y, hy, hxy⟩ := List.mem_map.mp hj
      have hy' := (mem_filter.mp (mem_take_sorted hy)).2
      rw [Bool.and_eq_true, Bool.not_eq_true', List.any_eq_false] at hy'
      exact hy'.2 x hx (by simp [hxy])
    · intro x hx
      rcases mem_append.mp hx with hx | hx
      · obtain ⟨hrow, hc⟩ := mem_select.mp (show (x.1, x.2) ∈ _ from mem_take_sorted hx)
        obtain ⟨hpending, hbudget, hqueue, hready⟩ := claimable_spec hc
        refine ⟨hrow, hpending, hbudget, fun hpos => ?_⟩
        have := hpos q (by rw [hqueue]; exact hq)
        have hpos : 0 ≤ seconds q.starvationTimeoutSeconds := Int.mul_nonneg this (by decide)
        exact hready.trans (Int.sub_le_self _ hpos)
      · obtain ⟨hrow, hc⟩ := mem_select.mp (show (x.1, x.2) ∈ _ from mem_take_sorted hx)
        rw [Bool.and_eq_true] at hc
        obtain ⟨hpending, hbudget, -, hready⟩ := claimable_spec hc.1
        exact ⟨hrow, hpending, hbudget, fun _ => hready⟩

theorem claim_spec {worker : Uuid} {names : List String} {versions : List Int}
    (h : claim e queueName worker names versions n ms s = .ok (claimed, s')) :
    ∃ leases : List Lease, Effects e (leases.map Label.claim) s s' ∧
      List.Forall₂ HandsOut claimed leases ∧ s'.queued = s.queued ∧ (claimed.map Prod.fst).Nodup ∧
      ∀ x ∈ claimed, s'.db.tasks.get? x.1 = some x.2 ∧ Holds (x.2.checks x.1) := by
  obtain ⟨hnodup, hcurrent⟩ := claimCandidates_spec e s.db queueName (names.zip versions) n
  obtain ⟨ls, path, hf, hq, hids, hin, -⟩ := claimRows_spec hnodup hcurrent h
  exact ⟨ls, path, hf, hq, hids ▸ hnodup, hin⟩

theorem claimRows_next {worker : Uuid} (h : claimRows e worker ms rows s = .ok (claimed, s')) :
    ∀ x ∈ claimed, ∃ t db token, (x.1, t) ∈ rows ∧ db.handlerPolicies = s.db.handlerPolicies ∧
      x.2 = t.claimed e db x.1 (t.attempt + 1) token worker ms := by
  induction rows generalizing s claimed with
  | nil =>
    cases h
    simp
  | cons row rows ih =>
    unfold claimRows at h
    obtain ⟨⟨c, s1⟩, h1, h⟩ := bind_ok h
    obtain ⟨⟨cs, s2⟩, h2, h⟩ := bind_ok h
    cases h
    unfold claimRow genRandomUuid at h1
    obtain ⟨attempt, ha, h1⟩ := bind_ok h1
    obtain ⟨s3, hupdate, h1⟩ := bind_ok h1
    obtain rfl := int4Succ_ok ha
    obtain ⟨rfl, -⟩ := updateTask_spec hupdate
    split at h1
    · cases h1
    cases h1
    intro x hx
    rcases mem_cons.mp hx with rfl | hx
    · exact ⟨row.2, s.db, _, mem_cons_self, rfl, rfl⟩
    · obtain ⟨t, db, token, ht, hnext⟩ := ih h2 x hx
      exact ⟨t, db, token, mem_cons_of_mem _ ht, hnext⟩

theorem owns_running {l : Lease} {id : Uuid} (h : l.owns id t = true) : t.state = .running := by
  unfold Lease.owns at h
  simp only [Bool.and_eq_true, decide_eq_true_eq] at h
  exact h.1.1.2

theorem renewLeases_spec {leases : List Lease} {ids : List Uuid}
    (h : renewLeases e leases ms s = .ok (ids, s')) :
    Effects e (ids.map Label.renew) s s' ∧ s'.queued = s.queued := by
  unfold renewLeases at h
  obtain ⟨u, hu, h⟩ := bind_ok h
  obtain ⟨s1, h1, h⟩ := bind_ok h
  cases h
  rw [List.map_map]
  refine foldlM_path (R := Effect e) (fun s id t => s.db.tasks.get? id = some t ∧ t.state = .running)
    (fun x => .renew x.1) (fun _ s' => s'.queued = s.queued) ?_ h1 (nodup_select _ _) ?_ rfl
  · rintro id t rest s1 s2 ⟨row, running⟩ hq h1
    obtain ⟨rfl, checked⟩ := updateTaskColumns_spec h1
    refine ⟨.renew row running checked, ?_, hq⟩
    rintro j q hj ⟨hq, hr⟩
    exact ⟨by rw [get?_put_of_ne _ _ hj, hq], hr⟩
  · intro x hx
    obtain ⟨hrow, hp⟩ := mem_select.mp (show (x.1, x.2) ∈ _ from hx)
    rw [Bool.and_eq_true, List.any_eq_true] at hp
    obtain ⟨⟨l, -, hl⟩, -⟩ := hp
    exact ⟨hrow, owns_running hl⟩

theorem running_outstanding (h : t.state = .running) : t.state.outstanding = true := by
  rw [h]
  rfl

theorem releaseRow_spec {id : Uuid}
    (row : s.db.tasks.get? id = some t) (running : t.state = .running)
    (h : releaseRow e s (id, t) = .ok s') :
    Effect e (.yield id) s s' ∧ s'.db.tasks = s.db.tasks.put id (t.yielded e.now) ∧
      s'.queued = s.queued := by
  unfold releaseRow at h
  obtain ⟨s1, h1, h⟩ := bind_ok h
  obtain ⟨rfl, checked, -⟩ := updateTask_spec h1
  have := updateAttempt_spec h
  subst this
  refine ⟨.yield row running (.inr rfl) checked, rfl, ?_⟩
  rw [write_outstanding (running_outstanding running) (by rfl)]
  rfl

theorem releaseTasks_spec {leases : List Lease} {ids : List Uuid}
    (h : releaseTasks e leases s = .ok (ids, s')) :
    Effects e (ids.map Label.yield) s s' ∧ s'.queued = s.queued := by
  unfold releaseTasks at h
  obtain ⟨u, hu, h⟩ := bind_ok h
  obtain ⟨s1, h1, h⟩ := bind_ok h
  cases h
  rw [List.map_map]
  refine foldlM_path (R := Effect e) (fun s id t => s.db.tasks.get? id = some t ∧ t.state = .running)
    (fun x => .yield x.1) (fun _ s' => s'.queued = s.queued) ?_ h1 (nodup_select _ _) ?_ rfl
  · rintro id t rest s1 s2 ⟨row, running⟩ hq h1
    obtain ⟨effect, htasks, hqueue⟩ := releaseRow_spec row running h1
    refine ⟨effect, ?_, hqueue.trans hq⟩
    rintro j q hj ⟨hq, hr⟩
    exact ⟨by rw [htasks, get?_put_of_ne _ _ hj, hq], hr⟩
  · intro x hx
    obtain ⟨hrow, hp⟩ := mem_select.mp (show (x.1, x.2) ∈ _ from hx)
    obtain ⟨l, -, hl⟩ := List.any_eq_true.mp hp
    exact ⟨hrow, owns_running hl⟩

/-! ## Completion and failure -/

theorem Session.Settled.congr (h : s.Settled) (ht : s'.db.tasks = s.db.tasks)
    (hq : s'.queued = s.queued) : s'.Settled := by
  intro t hm
  rw [hq] at hm
  obtain ⟨hrow, hnew⟩ := h t hm
  exact ⟨by rw [ht]; exact hrow, hnew⟩

theorem settled_of_empty (h : s.queued = []) : s.Settled := by
  intro t ht
  rw [h] at ht
  cases ht

theorem completeRow_spec {id : Uuid}
    (row : s.db.tasks.get? id = some t) (running : t.state = .running) (hs : s.Settled)
    (h : completeRow e id t result s = .ok s') : Effect e (.complete id) s s' ∧ s'.Settled := by
  unfold completeRow at h
  obtain ⟨s1, h1, h⟩ := bind_ok h
  obtain ⟨rfl, checked, -⟩ := updateTask_spec h1
  have := updateAttempt_spec h
  subst this
  exact ⟨.complete row running checked,
    (settled_write hs row (running_outstanding running)).congr rfl rfl⟩

theorem failRow_spec {id : Uuid} {ms : Option Int} {state : TaskState}
    (row : s.db.tasks.get? id = some t) (running : t.state = .running) (hs : s.Settled)
    (h : failRow e id t error ms s = .ok (state, s')) : Effect e (.fail id) s s' ∧ s'.Settled := by
  unfold failRow at h
  obtain ⟨failures, hf, h⟩ := bind_ok h
  obtain rfl := int4Succ_ok hf
  obtain ⟨s1, h1, h⟩ := bind_ok h
  obtain ⟨rfl, checked, -⟩ := updateTask_spec h1
  obtain ⟨s2, h2, h⟩ := bind_ok h
  have := updateAttempt_spec h2
  subst this
  cases h
  exact ⟨.fail row running (.inl rfl) checked,
    (settled_write hs row (running_outstanding running)).congr rfl rfl⟩

/-- One row of `tasks` has been written, and the task does not run. -/
def Stops (id : Uuid) (s s' : Session) : Prop :=
  ∃ new, s'.db.tasks = s.db.tasks.put id new ∧ new.state ≠ .running

theorem completeRow_stops {id : Uuid}
    (h : completeRow e id t result s = .ok s') : Stops id s s' := by
  unfold completeRow at h
  obtain ⟨s1, h1, h⟩ := bind_ok h
  obtain ⟨rfl, -, -⟩ := updateTask_spec h1
  have := updateAttempt_spec h
  subst this
  exact ⟨_, rfl, TaskState.noConfusion⟩

theorem failRow_stops {id : Uuid} {ms : Option Int}
    {state : TaskState} (h : failRow e id t error ms s = .ok (state, s')) : Stops id s s' := by
  unfold failRow at h
  obtain ⟨failures, -, h⟩ := bind_ok h
  obtain ⟨s1, h1, h⟩ := bind_ok h
  obtain ⟨rfl, -, -⟩ := updateTask_spec h1
  obtain ⟨s2, h2, h⟩ := bind_ok h
  have := updateAttempt_spec h2
  subst this
  cases h
  refine ⟨_, rfl, ?_⟩
  unfold Task.failedWith
  simp only
  split <;> exact TaskState.noConfusion

theorem recoverRow_spec {id : Uuid}
    (row : s.db.tasks.get? id = some t) (running : t.state = .running) (hs : s.Settled)
    (h : recoverRow e s (id, t) = .ok s') :
    Effect e (.fail id) s s' ∧ s'.Settled ∧ ∃ new, s'.db.tasks = s.db.tasks.put id new := by
  unfold recoverRow at h
  obtain ⟨failures, hf, h⟩ := bind_ok h
  obtain rfl := int4Succ_ok hf
  obtain ⟨s1, h1, h⟩ := bind_ok h
  obtain ⟨rfl, checked, -⟩ := updateTask_spec h1
  have := updateAttempt_spec h
  subst this
  exact ⟨.fail row running (.inr rfl) checked,
    (settled_write hs row (running_outstanding running)).congr rfl rfl, _, rfl⟩

theorem completeTask_spec {id token : Uuid} {attempt : Nat} {r : Bool} (hq : s.queued = [])
    (h : completeTask e id attempt token result s = .ok (r, s')) :
    (∃ ls, Effects e ls s s' ∧ ∀ l ∈ ls, l = .complete id ∨ l.cascade = true) ∧ s'.queued = [] := by
  unfold completeTask at h
  split at h
  · cases h
    exact ⟨⟨[], .nil _, by simp⟩, hq⟩
  · rename_i t hf
    obtain ⟨row, running, -, -⟩ := fenced_eq_some.mp hf
    obtain ⟨s1, h1, h⟩ := bind_ok h
    obtain ⟨s2, h2, h⟩ := bind_ok h
    cases h
    obtain ⟨effect, hset⟩ := completeRow_spec row running (settled_of_empty hq) h1
    obtain ⟨⟨ls, path, hls⟩, -, hempty⟩ := fireTriggers_spec hset h2
    refine ⟨⟨_, .cons effect path, ?_⟩, hempty⟩
    rw [forall_mem_cons]
    exact ⟨.inl rfl, fun l hl => .inr (hls l hl)⟩

def servedIds {α β : Type} (lease : α → Lease) (served : β → Bool) (requests : List α)
    (replies : List β) : List Uuid :=
  (requests.zip replies).filterMap fun x => if served x.2 then some (lease x.1).taskId else none

theorem forFenced_spec {α β : Type} {lease : α → Lease} {lost : β}
    {act : α → Task → Session → Result (β × Session)} (served : β → Bool) (label : Uuid → Label)
    (hlost : served lost = false)
    (round : ∀ a t b s s', s.db.tasks.get? (lease a).taskId = some t → t.state = .running →
      s.Settled → act a t s = .ok (b, s') → Effect e (label (lease a).taskId) s s' ∧ s'.Settled ∧
        served b = true)
    (stops : ∀ a t b s s', act a t s = .ok (b, s') → Stops (lease a).taskId s s')
    {as : List α} {bs : List β} (hs : s.Settled)
    (h : forFenced lease lost act as s = .ok (bs, s')) :
    Effects e ((servedIds lease served as bs).map label) s s' ∧ s'.Settled ∧
      (servedIds lease served as bs).Nodup ∧
      ∀ id ∈ servedIds lease served as bs, ∃ t, s.db.tasks.get? id = some t ∧ t.state = .running := by
  induction as generalizing s bs with
  | nil =>
    cases h
    exact ⟨.nil _, hs, nodup_nil, by simp [servedIds]⟩
  | cons a as ih =>
    unfold forFenced at h
    split at h
    · obtain ⟨⟨bs', s1⟩, h1, h⟩ := bind_ok h
      cases h
      have hids : servedIds lease served (a :: as) (lost :: bs') = servedIds lease served as bs' := by
        simp [servedIds, hlost]
      rw [hids]
      exact ih hs h1
    · rename_i t hf
      obtain ⟨row, running, -, -⟩ := fenced_eq_some.mp hf
      obtain ⟨⟨b, s1⟩, h1, h⟩ := bind_ok h
      obtain ⟨⟨bs', s2⟩, h2, h⟩ := bind_ok h
      cases h
      obtain ⟨effect, hset, hserved⟩ := round a t b s s1 row running hs h1
      obtain ⟨new, htasks, hstopped⟩ := stops a t b s s1 h1
      obtain ⟨path, hset', hnodup, hrunning⟩ := ih hset h2
      have hids : servedIds lease served (a :: as) (b :: bs') =
          (lease a).taskId :: servedIds lease served as bs' := by
        simp [servedIds, hserved]
      -- A task that has stopped does not pass the fence again.
      have hfresh : (lease a).taskId ∉ servedIds lease served as bs' := by
        intro hm
        obtain ⟨t', hrow', hrun'⟩ := hrunning _ hm
        rw [htasks, get?_put_self] at hrow'
        cases hrow'
        exact hstopped hrun'
      rw [hids]
      refine ⟨.cons effect path, hset', nodup_cons.mpr ⟨hfresh, hnodup⟩, ?_⟩
      intro id hid
      rcases mem_cons.mp hid with rfl | hid
      · exact ⟨t, row, running⟩
      · obtain ⟨t', hrow', hrun'⟩ := hrunning id hid
        rw [htasks, get?_put_of_ne _ _ (by rintro rfl; exact hfresh hid)] at hrow'
        exact ⟨t', hrow', hrun'⟩

theorem completeRequest_stops (c : Completion) (t : Task) (b : Bool) (s s' : Session)
    (h : completeRequest e c t s = .ok (b, s')) : Stops c.lease.taskId s s' := by
  obtain ⟨s1, h1, h⟩ := bind_ok h
  cases h
  exact completeRow_stops h1

theorem completeRows_spec {cs : List Completion} {replies : List Bool}
    (hs : s.Settled) (h : completeRows e cs s = .ok (replies, s')) :
    Effects e ((servedIds Completion.lease id cs replies).map Label.complete) s s' ∧ s'.Settled := by
  obtain ⟨path, hset, -⟩ := forFenced_spec (e := e) id Label.complete rfl (by
    intro c t b s s' row running hs h
    obtain ⟨s1, h1, h⟩ := bind_ok h
    cases h
    obtain ⟨effect, hset⟩ := completeRow_spec row running hs h1
    exact ⟨effect, hset, rfl⟩) completeRequest_stops hs h
  exact ⟨path, hset⟩

theorem completeTasks_spec {cs : List Completion} {replies : List Bool}
    (hq : s.queued = []) (h : completeTasks e cs s = .ok (replies, s')) :
    (∃ ls, Effects e ls s s' ∧ ∀ l ∈ ls, (∃ id, l = .complete id) ∨ l.cascade = true) ∧
      s'.queued = [] := by
  unfold completeTasks at h
  split at h
  · obtain ⟨⟨rs, s1⟩, h1, h⟩ := bind_ok h
    obtain ⟨s2, h2, h⟩ := bind_ok h
    cases h
    obtain ⟨path, hset⟩ := completeRows_spec (settled_of_empty hq) h1
    obtain ⟨⟨ls, path', hls⟩, -, hempty⟩ := fireTriggers_spec hset h2
    refine ⟨⟨_, path.append path', ?_⟩, hempty⟩
    intro l hl
    rcases mem_append.mp hl with hl | hl
    · obtain ⟨id, -, rfl⟩ := List.mem_map.mp hl
      exact .inl ⟨id, rfl⟩
    · exact .inr (hls l hl)
  · cases h

def failedIds : List Failure → List (Option TaskState) → List Uuid :=
  servedIds Failure.lease Option.isSome

theorem failTask_spec {id token : Uuid} {attempt : Nat} {ms : Option Int}
    {r : Option TaskState} (hq : s.queued = [])
    (h : failTask e id attempt token error ms s = .ok (r, s')) :
    (∃ ls, Effects e ((if r.isSome then [.fail id] else []) ++ ls) s s' ∧
      ∀ l ∈ ls, l.cascade = true) ∧ s'.queued = [] := by
  unfold failTask at h
  split at h
  · cases h
    exact ⟨⟨[], .nil _, by simp⟩, hq⟩
  · rename_i t hf
    obtain ⟨row, running, -, -⟩ := fenced_eq_some.mp hf
    obtain ⟨⟨state, s1⟩, h1, h⟩ := bind_ok h
    obtain ⟨s2, h2, h⟩ := bind_ok h
    cases h
    obtain ⟨effect, hset⟩ := failRow_spec row running (settled_of_empty hq) h1
    obtain ⟨⟨ls, path, hls⟩, -, hempty⟩ := fireTriggers_spec hset h2
    exact ⟨⟨ls, .cons effect path, hls⟩, hempty⟩

theorem failRequest_stops (f : Failure) (t : Task) (b : Option TaskState) (s s' : Session)
    (h : failRequest e f t s = .ok (b, s')) : Stops f.lease.taskId s s' := by
  obtain ⟨⟨state, s1⟩, h1, h⟩ := bind_ok h
  cases h
  exact failRow_stops h1

theorem failRows_spec {fs : List Failure} {replies : List (Option TaskState)}
    (hs : s.Settled) (h : failRows e fs s = .ok (replies, s')) :
    Effects e ((failedIds fs replies).map Label.fail) s s' ∧ s'.Settled ∧
      (failedIds fs replies).Nodup := by
  obtain ⟨path, hset, hnodup, -⟩ := forFenced_spec (e := e) Option.isSome Label.fail rfl (by
    intro f t b s s' row running hs h
    obtain ⟨⟨state, s1⟩, h1, h⟩ := bind_ok h
    cases h
    obtain ⟨effect, hset⟩ := failRow_spec row running hs h1
    exact ⟨effect, hset, rfl⟩) failRequest_stops hs h
  exact ⟨path, hset, hnodup⟩

theorem failTasks_spec {fs : List Failure} {replies : List (Option TaskState)}
    (hq : s.queued = []) (h : failTasks e fs s = .ok (replies, s')) :
    (∃ ls, Effects e ((failedIds fs replies).map Label.fail ++ ls) s s' ∧
      ∀ l ∈ ls, l.cascade = true) ∧ s'.queued = [] ∧ (failedIds fs replies).Nodup := by
  unfold failTasks at h
  split at h
  · obtain ⟨⟨rs, s1⟩, h1, h⟩ := bind_ok h
    obtain ⟨s2, h2, h⟩ := bind_ok h
    cases h
    obtain ⟨path, hset, hnodup⟩ := failRows_spec (settled_of_empty hq) h1
    obtain ⟨⟨ls, path', hls⟩, -, hempty⟩ := fireTriggers_spec hset h2
    exact ⟨⟨ls, path.append path', hls⟩, hempty, hnodup⟩
  · cases h

/-! ## Lease recovery -/

theorem recoverExpired_statement {count : Nat}
    (hq : s.queued = []) (h : recoverExpired e queueName n s = .ok (count, s')) :
    ∃ s1, Effects e ((expiredLeases e s.db queueName n.toNat).map fun x => .fail x.1) s s1 ∧ s1.Settled ∧
      fireTriggers e s1 = .ok s' := by
  unfold recoverExpired at h
  obtain ⟨m, hm, h⟩ := bind_ok h
  obtain ⟨rfl, -⟩ := limit_ok hm
  obtain ⟨s1, h1, h⟩ := bind_ok h
  obtain ⟨s2, h2, h⟩ := bind_ok h
  cases h
  obtain ⟨path, hset⟩ := foldlM_path (R := Effect e)
    (fun s id t => s.db.tasks.get? id = some t ∧ t.state = .running) (fun x => .fail x.1)
    (fun _ s' => s'.Settled) (by
      rintro id t rest s1 s2 ⟨row, running⟩ hset h1
      obtain ⟨effect, hset', new, htasks⟩ := recoverRow_spec row running hset h1
      refine ⟨effect, ?_, hset'⟩
      rintro j q hj ⟨hq, hr⟩
      exact ⟨by rw [htasks, get?_put_of_ne _ _ hj, hq], hr⟩)
    h1 (nodup_take_sorted _ (nodup_select _ _)) (by
      intro x hx
      obtain ⟨hrow, hp⟩ := mem_select.mp (show (x.1, x.2) ∈ _ from mem_take_sorted hx)
      simp only [Bool.and_eq_true, decide_eq_true_eq] at hp
      exact ⟨hrow, hp.1.2⟩) (settled_of_empty hq)
  exact ⟨s1, path, hset, h2⟩

theorem recoverExpired_spec {count : Nat}
    (hq : s.queued = []) (h : recoverExpired e queueName n s = .ok (count, s')) :
    (∃ ls, Effects e ((expiredLeases e s.db queueName n.toNat).map (fun x => .fail x.1) ++ ls) s s' ∧
      ∀ l ∈ ls, l.cascade = true) ∧ s'.queued = [] := by
  obtain ⟨s1, path, hset, fired⟩ := recoverExpired_statement hq h
  obtain ⟨⟨ls, path', hls⟩, -, hempty⟩ := fireTriggers_spec hset fired
  exact ⟨⟨ls, path.append path', hls⟩, hempty⟩

end Pgtask
