import Pgtask.Invariant.Answers
import Pgtask.Invariant.Kept
import Pgtask.Invariant.Parents
import Pgtask.Invariant.Window

/-!
# Families of tasks

When a task finishes, the unfinished tasks below it finish in the same call, and
nobody else changes but a parent that waits for it. So, unless an administrator
retries a task, the ancestors of an unfinished task are unfinished.
-/

open Sql Checked Relation

namespace Pgtask

variable {rs : List Request} {r : Request}

variable {e : Env} {l : Label} {s s' : Session} {db db' : Database} {id x y p : Uuid} {server : Server}

/-! ## Reservations of finished tasks -/

/-- A reservation without an expiry names an unfinished task, or one whose reservation is about to
get its expiry. -/
def ExpiryInv (s : Session) : Prop :=
  ∀ k id, s.db.idempotencyKeys.get? k = some ⟨id, none⟩ → ∃ t, s.db.tasks.get? id = some t ∧ t.carries k ∧
    (t.state.outstanding = true ∨ ∃ old new, .manageIdempotencyKey id old new ∈ s.queued)

theorem NamesInv.expiry (h : NamesInv db) {t : Task} (row : db.tasks.get? id = some t) : t.expiry e db ≠ none := by
  obtain ⟨q, hq⟩ := Option.isSome_iff_exists.mp (h.tasks id t row).2
  unfold Task.expiry
  rw [hq]
  exact Option.some_ne_none _

theorem effect_keeps_expiry (effect : Effect e l s s') (names : NamesInv s.db) (h : ExpiryInv s) : ExpiryInv s' := by
  intro k id hkey
  have names' := effect_keeps_names effect names
  have key := effect.key k
  rw [hkey] at key
  generalize hold : s.db.idempotencyKeys.get? k = old, hnew : some (Reservation.mk id none) = new at key
  cases key with
  | same quiet =>
    subst hnew
    obtain ⟨t, row, carries, hstate⟩ := h k id hold
    have queue : (s.db.queues.get? k.1).isSome = true := carries.1 ▸ (names.tasks id t row).2
    rcases hstate with ho | ⟨a, b, hqueued⟩
    · rcases Holding.effect effect ⟨⟨t, row, carries, ho⟩, queue, hold⟩ with held | ⟨finishing, -⟩
      · obtain ⟨t', row', carries', ho'⟩ := held.unfinished
        exact ⟨t', row', carries', .inl ho'⟩
      · obtain ⟨t', x, row', carries', -, -, -, hheld, hx⟩ := finishing.ended
        cases hkey.symm.trans hheld
        exact ⟨t', row', carries', .inr (hx.resolve_right fun hx => names'.expiry row' hx.symm)⟩
    · -- The trigger of this task does not fire yet.
      have hl : l ≠ .fireManage id := fun hl => quiet id t hl row carries rfl
      have hdelete : l ≠ .delete id := by
        rintro rfl
        cases effect with
        | delete _ _ _ idle =>
          rw [idle] at hqueued
          cases hqueued
      have step := effect.row id
      rw [row] at step
      obtain ⟨t', row'⟩ := Option.isSome_iff_exists.mp (step.stays.resolve_right hdelete)
      rw [row'] at step
      rcases step.fixed with ⟨u, hu, hfixed⟩ | ⟨hnone, -⟩
      · cases hu
        exact ⟨t', row', (Task.carries_of_fixed hfixed).mpr carries, .inr ⟨a, b, effect.still_queued hqueued hl⟩⟩
      · cases hnone
  | reserve row carries =>
    cases hnew
    refine ⟨_, row, carries, .inl ?_⟩
    cases effect with
    | insert fresh free new =>
      rw [Table.get?_put_self, Option.some.injEq] at row
      rw [← row, new.state]
      rfl
  | finish row =>
    exact absurd (congrArg Reservation.expiresAt (Option.some.inj hnew)).symm (names.expiry row)
  | revive row carries unfinished =>
    cases hnew
    have row' := effect.row id
    rw [row] at row'
    generalize s'.db.tasks.get? id = after at row'
    cases row' with
    | same => exact ⟨_, rfl, carries, .inl (by rw [outstanding_eq_not, unfinished]; rfl)⟩
    | park _ _ label | adopt _ label | wake _ label => rcases label with hl | hl <;> cases hl
  | @keep _ t x z row carries finished =>
    have hid := congrArg Reservation.taskId (Option.some.inj hnew)
    have hx := congrArg Reservation.expiresAt (Option.some.inj hnew)
    have hnone : x = none := by
      cases x with
      | none => rfl
      | some => cases hx
    subst hid hnone
    obtain ⟨t', row', -, ho | ⟨a, b, hqueued⟩⟩ := h k _ hold
    · exact absurd ⟨t', row', ho⟩ (not_live_of_terminal row finished)
    · cases effect with
      | delete _ _ _ idle =>
        rw [idle] at hqueued
        cases hqueued
  | drop => cases hnew

theorem run_expiry (server : Server) (rs : List Request) : ExpiryInv (run server rs).session := by
  have h : NamesInv (run server rs).session.db ∧ ExpiryInv (run server rs).session := run_keeps
    (I := fun s => NamesInv s.db ∧ ExpiryInv s) ⟨run_names server [], fun _ _ h => by cases h⟩
    (fun _ _ _ _ effect h => ⟨effect_keeps_names effect h.1, effect_keeps_expiry effect h.1 h.2⟩) rs
  exact h.2

/-! ## One step -/

structure Turn (e : Env) (c : Call) (db db' : Database) : Prop where
  change : Change e (c.acts e db) (fun x => ¬ Live db' x) db db'
  down : Down db db'
  fallen : ∀ x, Live db x → ¬ Live db' x →
    ∃ p, c.targets e db p ∧ Live db p ∧ ¬ Live db' p ∧ (x = p ∨ Under db p x)

theorem step_turn (server : Server) (rs : List Request) (r : Request) :
    Turn (server.envAt r.now) r.call (run server rs).db (step server (run server rs) r).2.db ∨
      ∃ ls, Effects (server.envAt r.now) ls (run server rs).session (step server (run server rs) r).2.session ∧
        ∀ l ∈ ls, l.quiet = true ∧ r.call.effects l := by
  have inv := run_waits server rs
  rcases step_spec server (run server rs) r with ⟨reply, s', hexec, hs', -, ls, path, hls⟩ | ⟨error, -, hw⟩
  swap
  · rw [hw]
    exact .inr ⟨[], .nil _, by simp⟩
  rcases r.call.kinds with hfinishes | ⟨n, hcall⟩ | hquiet
  · obtain ⟨s1, s2, audit, burst, hlast⟩ := exec_burst rfl inv hfinishes hexec
    have hdb : (step server (run server rs) r).2.db = { s2.db with administratorAudit := audit } := by
      rw [← World.session_db, ← hs', hlast]
    rw [hdb]
    refine .inl ⟨burst.change.audit audit, burst.down, fun x alive dead => ?_⟩
    obtain ⟨p, hp, hrest⟩ := burst.fallen alive dead
    exact ⟨p, .inl hp, hrest⟩
  · rw [hcall] at hexec
    obtain ⟨count, hrecover, -⟩ := reply_ok hexec
    obtain ⟨n, rfl⟩ : ∃ m : Nat, n = m := by
      obtain ⟨m, hm, -⟩ := bind_ok hrecover
      exact Int.eq_ofNat_of_zero_le (limit_ok hm).2
    obtain ⟨s1, hdone, done⟩ := recoverResultWaitTimeouts_done (e := server.envAt r.now) rfl inv (run_checks server rs) n
    cases hrecover.symm.trans hdone
    rw [← World.session_db (step server (run server rs) r).2, ← hs', hcall]
    refine .inl ⟨done.change, done.down, fun x alive dead => ?_⟩
    obtain ⟨row, hrow, hfall⟩ := done.fallen x alive dead
    have child := (inv.waitPair rfl (dueResultWaits_open hrow)).child
    exact ⟨_, .inr ⟨row, hrow, rfl⟩, child, (done.fetched row hrow).1, hfall⟩
  · exact .inr ⟨ls, path, fun l hl => ⟨hquiet l (hls l hl), hls l hl⟩⟩

theorem turn_of_finished (alive : Live (run server rs).db x)
    (dead : ¬ Live (step server (run server rs) r).2.db x) :
    Turn (server.envAt r.now) r.call (run server rs).db (step server (run server rs) r).2.db := by
  rcases step_turn server rs r with turn | ⟨ls, path, hls⟩
  · exact turn
  · refine absurd ?_ dead
    exact path.keeps (P := fun s => Live s.db x) (fun l _ _ (hl : l.quiet = true) effect h => effect.quiet_live hl h)
      (fun l hl => (hls l hl).1) alive

structure Felled (e : Env) (c : Call) (db db' : Database) (y : Uuid) : Prop where
  finished : ∃ t, db'.tasks.get? y = some t ∧ t.state.terminal = true
  cancelled : ¬ c.acts e db y → ∃ t, db.tasks.get? y = some t ∧ Cut db db' y t
  waits : ∀ k w, k.taskId = y → OpenWait db k w → db'.waits.get? k = some (w.cancelledAt e.now)
  resultWaits : ∀ k w, k.taskId = y → OpenResult db k w → ∃ w', db'.resultWaits.get? k = some w' ∧
    w'.resolvedAt = some e.now ∧ (¬ c.targets e db w.resultTaskId → w' = w.cancelledAt e.now)
  reservation : ∀ k x, db'.idempotencyKeys.get? k = some ⟨y, x⟩ → x.isSome = true

theorem Turn.felled
    (turn : Turn (server.envAt r.now) r.call (run server rs).db (step server (run server rs) r).2.db)
    (alive : Live (run server rs).db y) (dead : ¬ Live (step server (run server rs) r).2.db y) :
    Felled (server.envAt r.now) r.call (run server rs).db (step server (run server rs) r).2.db y := by
  have inv := run_waits server (rs ++ [r])
  have expiry := run_expiry server (rs ++ [r])
  rw [run_concat] at inv expiry
  obtain ⟨t, row, ho⟩ := alive
  refine ⟨?_, fun hacts => ⟨t, row, turn.change.cancelled y t row ho hacts dead⟩, ?_, ?_, ?_⟩
  · have hthere := turn.change.there y
    rw [row] at hthere
    obtain ⟨t', row'⟩ := Option.isSome_iff_exists.mp hthere
    refine ⟨t', row', ?_⟩
    by_contra hn
    exact dead ⟨t', row', by rw [outstanding_eq_not]; simpa using hn⟩
  · rintro k w rfl hopen
    rcases turn.change.waits k with hsame | ⟨w', hopen', -, hclosed⟩
    · -- The wait would still be open, but its task has finished.
      obtain ⟨t', row', hw | ⟨-, _, hqueued⟩⟩ := (inv.waits k w ⟨hsame.trans hopen.1, hopen.2⟩).1
      · exact absurd ⟨t', row', by rw [hw]; rfl⟩ dead
      · cases hqueued
    · cases hopen.1.symm.trans hopen'.1
      exact hclosed
  · rintro k w rfl hopen
    cases openResult_step server rs r hopen with
    | stays hrow => exact absurd (inv.waitPair rfl ⟨hrow, hopen.2⟩).waiter dead
    | cut hrow => exact ⟨_, hrow, rfl, fun _ => rfl⟩
    | result hrow _ _ _ target => exact ⟨_, hrow, rfl, fun hn => absurd target hn⟩
    | timeout hrow _ target => exact ⟨_, hrow, rfl, fun hn => absurd target hn⟩
  · intro k x hkey
    cases x with
    | some => rfl
    | none =>
      obtain ⟨t', row', -, ho' | ⟨_, _, hqueued⟩⟩ := expiry k y hkey
      · exact absurd ⟨t', row', ho'⟩ dead
      · cases hqueued

def Awakened (now : Timestamp) (db db' : Database) (y : Uuid) (t : Task) : Prop :=
  t.state = .waiting ∧ db'.tasks.get? y = some { t with state := .pending, runAt := now } ∧
    ∃ k w, k.taskId = y ∧ OpenResult db k w ∧ OwnedBy db w.resultTaskId y ∧ Live db w.resultTaskId ∧
      ¬ Live db' w.resultTaskId

theorem Turn.others {c : Call} {t : Task} (turn : Turn e c s.db db') (idle : s.queued = []) (inv : WaitInv s)
    (row : s.db.tasks.get? y = some t) :
    (∃ p, c.targets e s.db p ∧ (y = p ∨ Live s.db p ∧ ¬ Live db' p ∧ Under s.db p y)) ∨ db'.tasks.get? y = some t ∨
      Awakened e.now s.db db' y t := by
  by_cases hacts : c.acts e s.db y
  · exact .inl ⟨y, .inl (.inl hacts), .inl rfl⟩
  by_cases hfinished : t.state.terminal = true
  · exact .inr (.inl (turn.change.ended y t row hfinished).1)
  have alive : Live s.db y := ⟨t, row, by rw [outstanding_eq_not]; simpa using hfinished⟩
  by_cases hlive : Live db' y
  · right
    obtain ⟨-, hsame | ⟨hwoken, k, w, hk, hopen, hdead⟩⟩ := turn.change.spared y t row hacts hlive
    · exact .inl hsame
    · unfold Task.woken at hwoken
      split at hwoken
      · rename_i hw
        have pair := inv.waitPair idle hopen
        exact .inr ⟨hw, hwoken, k, w, hk, hopen, hk ▸ pair.owner, pair.child, hdead⟩
      · exact .inl hwoken
  · obtain ⟨p, hp, halive, hdead, hfall⟩ := turn.fallen y alive hlive
    exact .inl ⟨p, hp, hfall.imp_right fun hunder => ⟨halive, hdead, hunder⟩⟩

/-! ## Ancestors -/

def Rooted (db : Database) : Prop := ∀ y p, Live db y → OwnedBy db y p → Live db p

theorem Rooted.ancestors (h : Rooted db) (alive : Live db y) (above : TransGen (OwnedBy db) y p) : Live db p := by
  induction above with
  | single owner => exact h _ _ alive owner
  | tail _ owner ih => exact h _ _ ih owner

theorem Effect.rooted (effect : Effect e l s s') (hl : l.quiet = true) (hretry : ∀ id, l ≠ .retry id)
    (h : Rooted s.db) : Rooted s'.db := by
  rintro y p ⟨t', row', ho⟩ ⟨t'', hrow'', hp⟩
  cases row'.symm.trans hrow''
  have step := effect.row y
  rw [row'] at step
  rcases step.parent hp with ⟨t, row, hparent⟩ | hadopt
  · -- The parent was there before.
    rcases step.unfinished ho (hretry y) with ⟨u, hu, ho', -⟩ | ⟨hnone, -⟩
    · cases row.symm.trans hu
      exact effect.quiet_live hl (h y p ⟨t, row, ho'⟩ ⟨t, row, hparent⟩)
    · cases row.symm.trans hnone
  · refine effect.quiet_live hl ?_
    rcases hadopt with rfl | rfl
    · cases effect with
      | adopt _ _ owner running => exact ⟨_, owner, running_outstanding running⟩
    · cases effect with
      | adoptStored _ _ owner running => exact ⟨_, owner, running_outstanding running⟩

theorem step_rooted (hretry : ∀ id actor, r.call ≠ .adminRetryTask id actor)
    (h : Rooted (run server rs).db) : Rooted (step server (run server rs) r).2.db := by
  rcases step_turn server rs r with turn | ⟨ls, path, hls⟩
  · intro y p alive owner
    have alive0 := turn.change.live y alive
    have owner0 := (turn.change.owned y p).mp owner
    by_contra hdead
    exact turn.down y p alive0 owner0 (h y p alive0 owner0) hdead alive
  · refine path.keeps (P := fun s => Rooted s.db) (fun l s s' (hl : l.quiet = true ∧ r.call.effects l) effect =>
      effect.rooted hl.1 fun id heq => ?_) hls h
    obtain ⟨actor, hcall⟩ := effects_no_retry (heq ▸ hl.2)
    exact hretry id actor hcall

theorem run_rooted (hretry : ∀ r ∈ rs, ∀ id actor, r.call ≠ .adminRetryTask id actor) :
    Rooted (run server rs).db := by
  induction rs using List.reverseRecOn with
  | nil =>
    rintro y p ⟨t, row, -⟩
    cases row
  | append_singleton rs r ih =>
    rw [run_concat]
    exact step_rooted (hretry r (by simp)) (ih fun r' hr' => hretry r' (by simp [hr']))

/-! ## Parents -/

theorem RowKept.ownedBy {rs' : List Request} (kept : RowKept server rs rs' y) (owner : OwnedBy (run server rs).db y p) :
    OwnedBy (run server (rs ++ rs')).db y p := by
  refine kept.keeps (I := fun s => OwnedBy s.db y p) ?_ owner (List.append_nil rs').symm
  rintro e l s s' hl effect ⟨t, row, hp⟩
  have step := effect.row y
  rw [row] at step
  obtain ⟨t', row'⟩ := Option.isSome_iff_exists.mp (step.stays.resolve_right hl)
  rw [row'] at step
  exact ⟨t', row', step.keeps_parent hp⟩

/-! ## The cascade -/

/-- Whoever is under a task that finishes is finished in the same step, and nobody else changes but
a parent that waits. Unless an administrator retries a task, the ancestors of an unfinished task are
unfinished; and a task keeps its parent. -/
theorem family_finishes_together (server : Server) (rs : List Request) :
    (∀ r p, Live (run server rs).db p →
      (∃ t, (step server (run server rs) r).2.db.tasks.get? p = some t ∧ t.state.terminal = true) →
      (∀ y, Under (run server rs).db p y →
        Felled (server.envAt r.now) r.call (run server rs).db (step server (run server rs) r).2.db y) ∧
      ∀ y t, (run server rs).db.tasks.get? y = some t →
        (∃ q, r.call.targets (server.envAt r.now) (run server rs).db q ∧ (y = q ∨ Live (run server rs).db q ∧
          ¬ Live (step server (run server rs) r).2.db q ∧ Under (run server rs).db q y)) ∨
        (step server (run server rs) r).2.db.tasks.get? y = some t ∨
        Awakened r.now (run server rs).db (step server (run server rs) r).2.db y t) ∧
    ((∀ r ∈ rs, ∀ id actor, r.call ≠ .adminRetryTask id actor) → ∀ y p, Live (run server rs).db y →
      TransGen (OwnedBy (run server rs).db) y p → Live (run server rs).db p) ∧
    ∀ rs' y p, OwnedBy (run server rs).db y p → RowKept server rs rs' y → OwnedBy (run server (rs ++ rs')).db y p := by
  refine ⟨?_, fun hretry y p alive above => (run_rooted hretry).ancestors alive above,
    fun rs' y p owner kept => kept.ownedBy owner⟩
  rintro r p alive ⟨t, row, finished⟩
  have dead := not_live_of_terminal row finished
  have turn := turn_of_finished alive dead
  refine ⟨fun y hy => turn.felled (Spread.Doomed.alive hy) (turn.down.under alive dead hy), fun y c hc => ?_⟩
  exact turn.others (s := (run server rs).session) rfl (run_waits server rs) hc

def parentCompletes : Request := ⟨0, .completeTask ⟨Uuid.ofNat 1, 1, Uuid.ofNat 2⟩ (some .null)⟩

theorem completed_parent_fells_child :
    Felled (countingServer.envAt 0) parentCompletes.call (run countingServer (pairRun none)).db
      (step countingServer (run countingServer (pairRun none)) parentCompletes).2.db (Uuid.ofNat 3) := by
  have hparent : ((run countingServer (pairRun none)).db.tasks.get? (Uuid.ofNat 1)).any
      (fun t => t.state.outstanding) = true := by decide +kernel
  have hchild : ((run countingServer (pairRun none)).db.tasks.get? (Uuid.ofNat 3)).any
      (fun t => t.parentTaskId = some (Uuid.ofNat 1) && t.state.outstanding) = true := by decide +kernel
  have hdone : ((step countingServer (run countingServer (pairRun none)) parentCompletes).2.db.tasks.get? (Uuid.ofNat 1)).any
      (fun t => t.state.terminal) = true := by decide +kernel
  obtain ⟨c, hc, hlive⟩ := (Option.any_eq_true _ _).mp hchild
  rw [Bool.and_eq_true, decide_eq_true_eq] at hlive
  have family := (family_finishes_together countingServer (pairRun none)).1 parentCompletes (Uuid.ofNat 1)
    ((Option.any_eq_true _ _).mp hparent) ((Option.any_eq_true _ _).mp hdone)
  exact family.1 (Uuid.ofNat 3) (.child ⟨c, hc, hlive.1⟩ ⟨c, hc, hlive.2⟩ rfl)

def bothComplete : Request :=
  ⟨0, .completeTasks [⟨"child", childLease, some .null⟩, ⟨"parent", ⟨Uuid.ofNat 1, 1, Uuid.ofNat 2⟩, some .null⟩]⟩

theorem completed_child_not_cancelled :
    ((run countingServer (pairRun none)).db.tasks.get? (Uuid.ofNat 3)).map (fun t => (t.parentTaskId, t.state)) =
        some (some (Uuid.ofNat 1), .running) ∧
      ((run countingServer (pairRun none ++ [bothComplete])).db.tasks.get? (Uuid.ofNat 1)).map Task.state =
        some .succeeded ∧
      ((run countingServer (pairRun none ++ [bothComplete])).db.tasks.get? (Uuid.ofNat 3)).map Task.state =
        some .succeeded := by
  decide +kernel

end Pgtask
