import Pgtask.Lib.Machine
import Pgtask.Functions.Worker

/-!
# Leases in time

When the database grants leases and when the renewal loop of a worker finds
out. Instants and durations are in nanoseconds, on one clock for the worker and
the database.
-/

open Sql List Option

namespace Pgtask

variable {x : Execution} {done : Nat → ActiveLease → Prop}

namespace LeaseClock

/-! ## State -/

/-- `lease_duration`, as `Worker::new` accepts it. -/
structure Config where
  leaseDuration : Nat
  valid : 3000000 ≤ leaseDuration

namespace Config

def renewalInterval (c : Config) : Nat := c.leaseDuration / 3

/-- After this time without a renewal, `cancel_uncertain_leases` gives a lease up. -/
def uncertain (c : Config) : Nat := c.leaseDuration * 2 / 3

/-- The length of a lease. The store sends whole milliseconds to the database. -/
def granted (c : Config) : Nat := c.leaseDuration / 1000000 * 1000000

end Config

structure ActiveLease where
  renewal : Lease
  lastRenewed : Nat
  deriving DecidableEq

/-- A future in the `JoinSet`. `leaseEnd` is the last end that the database has granted, and `lost`
says whether the token is cancelled. -/
structure Execution where
  lease : Lease
  leaseEnd : Nat
  lost : Bool := false

/-- Where `renew_leases` is. `renewed` is what the database did with the call, if it has got it. -/
inductive Renewal
  | idle
  | asking (leases : List ActiveLease) (renewed : Option (List Uuid))
  deriving DecidableEq

/-- `claimed` are leases that the database has handed out and the worker has not spawned. -/
structure State where
  clock : Nat
  nextTick : Nat
  claimed : List (Lease × Nat) := []
  executions : List Execution := []
  active : Table Uuid ActiveLease := .empty
  renewal : Renewal := .idle

/-! ## Moves -/

def cancel (lease : Lease) (executions : List Execution) : List Execution :=
  executions.map fun x => if x.lease = lease then { x with lost := true } else x

def State.updateRenewed (renewed : List Uuid) (s : State) (lease : ActiveLease) : State :=
  match s.active.get? lease.renewal.taskId with
  | some current =>
    if current.renewal = lease.renewal then
      if renewed.contains lease.renewal.taskId then
        { s with active := s.active.put lease.renewal.taskId { current with lastRenewed := s.clock } }
      else { s with executions := cancel lease.renewal s.executions }
    else s
  | none => s

/-- One turn of the loop in `cancel_uncertain_leases`. -/
def State.cancelUncertain (c : Config) (s : State) (lease : ActiveLease) : State :=
  if c.uncertain ≤ s.clock - lease.lastRenewed then
    match s.active.get? lease.renewal.taskId with
    | some current =>
      if current.renewal = lease.renewal then
        { s with executions := cancel lease.renewal s.executions }
      else s
    | none => s
  else s

inductive Move
  /-- Time passes. A tick that is due is not passed by, unless the loop waits for an answer. -/
  | wait (instant : Nat)
  /-- The database gets a claim and hands out a lease. -/
  | claim (lease : Lease)
  /-- The answer to the claim is there, and the task is spawned. -/
  | spawn (i : Nat)
  /-- The answer to the claim does not come. -/
  | drop (i : Nat)
  | finish (i : Nat)
  | tick
  /-- The database gets the renewal and renews the leases of these tasks. -/
  | renew (renewed : List Uuid)
  | answer
  | fail

/-- The next tick, with `MissedTickBehavior::Delay` for one that is more than 5 ms late. -/
def State.tickAfter (c : Config) (s : State) : Nat :=
  if s.nextTick + 5000000 < s.clock then s.clock + c.renewalInterval else s.nextTick + c.renewalInterval

def Execution.renew (leaseEnd : Nat) (leases : List ActiveLease) (renewed : List Uuid) (x : Execution) :
    Execution :=
  if x.lease ∈ leases.map ActiveLease.renewal ∧ x.lease.taskId ∈ renewed then { x with leaseEnd } else x

def State.move (c : Config) (s : State) : Move → Option State
  | .wait instant =>
    match s.renewal with
    | .idle =>
      if s.clock ≤ instant ∧ (instant = s.clock ∨ instant ≤ s.nextTick) then
        some { s with clock := instant }
      else none
    | .asking .. => if s.clock ≤ instant then some { s with clock := instant } else none
  | .claim lease => some { s with claimed := s.claimed ++ [(lease, s.clock + c.granted)] }
  | .spawn i => do
    let (lease, leaseEnd) ← s.claimed[i]?
    some { s with
      claimed := s.claimed.eraseIdx i
      active := s.active.put lease.taskId ⟨lease, s.clock⟩
      executions := s.executions ++ [{ lease, leaseEnd }] }
  | .drop i => some { s with claimed := s.claimed.eraseIdx i }
  | .finish i => do
    let x ← s.executions[i]?
    some { s with
      executions := s.executions.eraseIdx i
      active := s.active.delete fun id _ => id = x.lease.taskId }
  | .tick =>
    match s.renewal with
    | .idle =>
      if s.nextTick ≤ s.clock then
        let leases := s.active.rows.map Prod.snd
        some { s with
          nextTick := s.tickAfter c
          renewal := if leases.isEmpty then .idle else .asking leases none }
      else none
    | .asking .. => none
  | .renew renewed =>
    match s.renewal with
    | .asking leases none => some { s with
        renewal := .asking leases (some renewed)
        executions := s.executions.map (Execution.renew (s.clock + c.granted) leases renewed) }
    | _ => none
  | .answer =>
    match s.renewal with
    | .asking leases (some renewed) =>
      some { leases.foldl (State.updateRenewed renewed) s with renewal := .idle }
    | _ => none
  | .fail =>
    match s.renewal with
    | .asking leases _ => some { leases.foldl (State.cancelUncertain c) s with renewal := .idle }
    | .idle => none

def State.start (c : Config) (now : Nat) : State where
  clock := now
  nextTick := now + c.renewalInterval

/-! ## Prompt answers -/

/-- No time passes while the answer to a claim or a renewal is due, and no task is spawned while
another execution of it has not ended. -/
def Prompt (s : State) : Move → Prop
  | .wait instant => instant = s.clock ∨ (s.claimed = [] ∧ s.renewal = .idle)
  | .spawn i => ∀ y ∈ s.claimed[i]?, ∀ x ∈ s.executions, x.lease.taskId ≠ y.1.taskId
  | _ => True

instance Prompt.decidable (s : State) : ∀ m, Decidable (Prompt s m)
  | .wait _ => inferInstanceAs (Decidable (_ ∨ _))
  | .spawn i => inferInstanceAs (Decidable (∀ y ∈ s.claimed[i]?, _))
  | .claim _ | .drop _ | .finish _ | .tick | .renew _ | .answer | .fail => isTrue trivial

/-- How old the entry of a running execution can be. -/
def State.Due (c : Config) (s : State) (x : Execution) (entry : ActiveLease) : Prop :=
  match s.renewal with
  | .idle => s.nextTick < entry.lastRenewed + c.uncertain + c.renewalInterval
  | .asking leases renewed =>
    s.clock < entry.lastRenewed + c.uncertain + c.renewalInterval ∧
      (entry.lastRenewed = s.clock ∨ entry ∈ leases) ∧
      ∀ ids ∈ renewed, entry ∈ leases → x.lease.taskId ∈ ids → s.clock + c.granted ≤ x.leaseEnd

/-- The worker tracks the execution, and its lease lasts for its full length from `last_renewed`. -/
def State.Held (c : Config) (s : State) (x : Execution) : Prop :=
  ∃ entry, s.active.get? x.lease.taskId = some entry ∧ entry.renewal = x.lease ∧
    entry.lastRenewed ≤ s.clock ∧ entry.lastRenewed + c.granted ≤ x.leaseEnd ∧ s.Due c x entry

def State.Timely (c : Config) (s : State) : Prop :=
  match s.renewal with
  | .idle => s.clock ≤ s.nextTick ∧ s.nextTick ≤ s.clock + c.renewalInterval
  | .asking .. => s.nextTick = s.clock + c.renewalInterval

structure Inv (c : Config) (s : State) : Prop where
  distinct : (s.executions.map fun x => x.lease.taskId).Nodup
  claimed : ∀ y ∈ s.claimed, y.2 = s.clock + c.granted
  timely : s.Timely c
  held : ∀ x ∈ s.executions, x.lost = false → s.Held c x

variable {c : Config} {s s' : State}

theorem Config.uncertain_pos (c : Config) : 0 < c.uncertain := by
  have := c.valid
  unfold uncertain
  omega

/-! ## The loops over leases -/

theorem mem_cancel {lease : Lease} {executions : List Execution}
    (hx : x ∈ cancel lease executions) (running : x.lost = false) : x ∈ executions ∧ x.lease ≠ lease := by
  obtain ⟨y, hy, rfl⟩ := List.mem_map.mp hx
  split at running
  · cases running
  · rename_i hne
    rw [if_neg hne]
    exact ⟨hy, hne⟩

structure Turns (s t : State) : Prop where
  clock : t.clock = s.clock
  nextTick : t.nextTick = s.nextTick
  claimed : t.claimed = s.claimed
  ids : (t.executions.map fun x => x.lease.taskId) = s.executions.map fun x => x.lease.taskId

theorem Turns.refl (s : State) : Turns s s := ⟨rfl, rfl, rfl, rfl⟩

theorem Turns.trans {t u : State} (h : Turns s t) (h' : Turns t u) : Turns s u :=
  ⟨h'.clock.trans h.clock, h'.nextTick.trans h.nextTick, h'.claimed.trans h.claimed, h'.ids.trans h.ids⟩

theorem Turns.cancel (lease : Lease) (s : State) :
    Turns s { s with executions := cancel lease s.executions } := by
  refine ⟨rfl, rfl, rfl, ?_⟩
  unfold LeaseClock.cancel
  rw [List.map_map]
  refine map_congr_left fun x _ => ?_
  rw [Function.comp_apply]
  split <;> rfl

/-- The entry of a running execution, while the loop still has leases to go through: it is one of
these, or the loop is done with it. -/
def Settled (c : Config) (done : Nat → ActiveLease → Prop) (renewed : List Uuid) (leases : List ActiveLease)
    (s : State) : Prop :=
  ∀ x ∈ s.executions, x.lost = false → ∃ entry, s.active.get? x.lease.taskId = some entry ∧
    entry.renewal = x.lease ∧ entry.lastRenewed ≤ s.clock ∧ entry.lastRenewed + c.granted ≤ x.leaseEnd ∧
    (done s.clock entry ∨ (entry ∈ leases ∧ (x.lease.taskId ∈ renewed → s.clock + c.granted ≤ x.leaseEnd)))

def RenewedAt (clock : Nat) (entry : ActiveLease) : Prop := entry.lastRenewed = clock

def CertainAt (c : Config) (clock : Nat) (entry : ActiveLease) : Prop :=
  clock < entry.lastRenewed + c.uncertain

variable {renewed : List Uuid} {lease : ActiveLease} {leases : List ActiveLease}

theorem Settled.skip (h : Settled c done renewed (lease :: leases) s)
    (other : s.active.get? lease.renewal.taskId = some lease → done s.clock lease) :
    Settled c done renewed leases s := by
  intro x hx running
  obtain ⟨entry, row, hlease, hle, hend, hdone⟩ := h x hx running
  refine ⟨entry, row, hlease, hle, hend, ?_⟩
  rcases hdone with hdone | ⟨hmem, hrenewed⟩
  · exact .inl hdone
  · rcases mem_cons.mp hmem with rfl | hmem
    · exact .inl (other (by rw [hlease]; exact row))
    · exact .inr ⟨hmem, hrenewed⟩

theorem Settled.cancel (h : Settled c done renewed (lease :: leases) s) :
    Settled c done renewed leases { s with executions := cancel lease.renewal s.executions } := by
  intro x hx running
  obtain ⟨hx, hne⟩ := mem_cancel hx running
  obtain ⟨entry, row, hlease, hle, hend, hdone⟩ := h x hx running
  refine ⟨entry, row, hlease, hle, hend, hdone.imp_right fun ⟨hmem, hrenewed⟩ => ⟨?_, hrenewed⟩⟩
  refine (mem_cons.mp hmem).resolve_left ?_
  rintro rfl
  exact hne hlease.symm

theorem updateRenewed_settled (h : Settled c RenewedAt renewed (lease :: leases) s) :
    Settled c RenewedAt renewed leases (s.updateRenewed renewed lease) ∧
      Turns s (s.updateRenewed renewed lease) := by
  unfold State.updateRenewed
  cases hrow : s.active.get? lease.renewal.taskId with
  | none =>
    refine ⟨h.skip fun row => ?_, .refl s⟩
    rw [hrow] at row
    cases row
  | some current =>
    dsimp only
    split
    · rename_i hcurrent
      split
      · rename_i hrenewed
        refine ⟨?_, ⟨rfl, rfl, rfl, rfl⟩⟩
        intro x hx running
        obtain ⟨entry, row, hlease, hle, hend, hdone⟩ := h x hx running
        by_cases hid : x.lease.taskId = lease.renewal.taskId
        · have hentry : entry = current := some.inj (row.symm.trans (hid ▸ hrow))
          subst hentry
          refine ⟨{ entry with lastRenewed := s.clock }, by simp [hid], hlease, Nat.le_refl _, ?_,
            .inl rfl⟩
          rcases hdone with hdone | ⟨-, hgranted⟩
          · exact hdone ▸ hend
          · exact hgranted (by rw [hid]; exact contains_iff_mem.mp hrenewed)
        · refine ⟨entry, by simp [hid, row], hlease, hle, hend, hdone.imp_right fun ⟨hmem, hgranted⟩ =>
            ⟨(mem_cons.mp hmem).resolve_left ?_, hgranted⟩⟩
          rintro rfl
          exact hid (congrArg Lease.taskId hlease.symm)
      · exact ⟨h.cancel, .cancel _ s⟩
    · rename_i hne
      refine ⟨h.skip fun row => absurd ?_ hne, .refl s⟩
      rw [some.inj (hrow.symm.trans row)]

theorem cancelUncertain_settled (h : Settled c (CertainAt c) renewed (lease :: leases) s) :
    Settled c (CertainAt c) renewed leases (s.cancelUncertain c lease) ∧
      Turns s (s.cancelUncertain c lease) := by
  unfold State.cancelUncertain
  split
  · cases hrow : s.active.get? lease.renewal.taskId with
    | none =>
      refine ⟨h.skip fun row => ?_, .refl s⟩
      rw [hrow] at row
      cases row
    | some current =>
      dsimp only
      split
      · exact ⟨h.cancel, .cancel _ s⟩
      · rename_i hne
        refine ⟨h.skip fun row => absurd ?_ hne, .refl s⟩
        rw [some.inj (hrow.symm.trans row)]
  · rename_i hyoung
    refine ⟨h.skip fun _ => ?_, .refl s⟩
    unfold CertainAt
    omega

theorem foldl_settled {turn : State → ActiveLease → State}
    (step : ∀ s lease leases, Settled c done renewed (lease :: leases) s →
      Settled c done renewed leases (turn s lease) ∧ Turns s (turn s lease))
    (h : Settled c done renewed leases s) :
    Settled c done renewed [] (leases.foldl turn s) ∧ Turns s (leases.foldl turn s) := by
  induction leases generalizing s with
  | nil => exact ⟨h, .refl s⟩
  | cons lease leases ih =>
    obtain ⟨hsettled, hturns⟩ := step s lease leases h
    obtain ⟨hsettled', hturns'⟩ := ih hsettled
    exact ⟨hsettled', hturns.trans hturns'⟩

theorem inv_of_settled {t : State} (inv : Inv c s)
    (asking : s.nextTick = s.clock + c.renewalInterval)
    (young : ∀ entry, done s.clock entry → s.clock < entry.lastRenewed + c.uncertain)
    (turns : Turns s t) (settled : Settled c done renewed [] t) : Inv c { t with renewal := .idle } := by
  refine ⟨?_, ?_, ?_, ?_⟩
  · rw [turns.ids]
    exact inv.distinct
  · rw [turns.claimed, turns.clock]
    exact inv.claimed
  · simp only [State.Timely, turns.clock, turns.nextTick, asking]
    exact ⟨Nat.le_add_right _ _, Nat.le_refl _⟩
  · intro x hx running
    obtain ⟨entry, row, hlease, hle, hend, hdone⟩ := settled x hx running
    refine ⟨entry, row, hlease, hle, hend, ?_⟩
    rcases hdone with hdone | ⟨hmem, -⟩
    · have := young entry (turns.clock ▸ hdone)
      simp only [State.Due, turns.nextTick, asking]
      omega
    · cases hmem

/-! ## Runs -/

theorem Inv.start (c : Config) (now : Nat) : Inv c (.start c now) :=
  ⟨.nil, by simp [State.start], ⟨Nat.le_add_right _ _, Nat.le_refl _⟩, by simp [State.start]⟩

theorem wait_inv {instant : Nat} (prompt : Prompt s (.wait instant))
    (h : s.move c (.wait instant) = some s') (inv : Inv c s) : Inv c s' := by
  rcases prompt with rfl | ⟨hclaimed, hidle⟩
  · have hs' : s' = s := by
      simp only [State.move] at h
      split at h <;> exact (some.inj (ite_none_right_eq_some.mp h).2).symm
    rw [hs']
    exact inv
  · have htimely := inv.timely
    simp only [State.move, hidle, State.Timely] at h htimely
    obtain ⟨⟨hle, hdue⟩, h⟩ := ite_none_right_eq_some.mp h
    cases h
    refine ⟨inv.distinct, by simp [hclaimed], ?_, ?_⟩
    · simp only [State.Timely]
      omega
    · intro x hx running
      obtain ⟨entry, row, hlease, hbefore, hend, hyoung⟩ := inv.held x hx running
      refine ⟨entry, row, hlease, Nat.le_trans hbefore hle, hend, ?_⟩
      simpa only [State.Due, hidle] using hyoung

theorem spawn_inv {i : Nat} (prompt : Prompt s (.spawn i)) (h : s.move c (.spawn i) = some s')
    (inv : Inv c s) : Inv c s' := by
  obtain ⟨⟨lease, leaseEnd⟩, hi, h⟩ := bind_eq_some_iff.mp h
  cases h
  have hfresh := prompt _ hi
  have hend : leaseEnd = s.clock + c.granted := inv.claimed _ (mem_of_getElem? hi)
  have hpositive := c.uncertain_pos
  refine ⟨?_, fun y hy => inv.claimed y (mem_of_mem_eraseIdx hy), inv.timely, ?_⟩
  · rw [map_append, nodup_append]
    refine ⟨inv.distinct, nodup_singleton _, ?_⟩
    rintro id hid _ hnew rfl
    obtain ⟨x, hx, rfl⟩ := List.mem_map.mp hid
    exact hfresh x hx (mem_singleton.mp hnew)
  · intro x hx running
    rcases mem_append.mp hx with hx | hx
    · obtain ⟨entry, row, hheld⟩ := inv.held x hx running
      exact ⟨entry, by rw [Table.get?_put_of_ne _ _ (hfresh x hx), row], hheld⟩
    · rw [mem_singleton] at hx
      subst hx
      refine ⟨⟨lease, s.clock⟩, Table.get?_put_self _ _ _, rfl, Nat.le_refl _, hend ▸ Nat.le_refl _, ?_⟩
      have htimely := inv.timely
      unfold State.Due State.Timely at *
      split at htimely <;> simp_all <;> omega

theorem finish_inv {i : Nat} (h : s.move c (.finish i) = some s') (inv : Inv c s) : Inv c s' := by
  obtain ⟨x, hi, h⟩ := bind_eq_some_iff.mp h
  cases h
  refine ⟨inv.distinct.sublist ((eraseIdx_sublist _ _).map _), inv.claimed, inv.timely, ?_⟩
  intro y hy running
  obtain ⟨j, hne, hj⟩ := List.mem_eraseIdx_iff_getElem?.mp hy
  obtain ⟨entry, row, hheld⟩ := inv.held y (mem_of_getElem? hj) running
  refine ⟨entry, ?_, hheld⟩
  rw [Table.get?_delete_of_false, row]
  intro r
  rw [decide_eq_false_iff_not]
  intro hid
  refine hne ((List.getElem?_inj ?_ inv.distinct).mp ?_)
  · rw [length_map]
    exact (List.getElem?_eq_some_iff.mp hj).1
  · rw [getElem?_map, getElem?_map, hi, hj, map_some, map_some, hid]

theorem tick_inv (h : s.move c .tick = some s') (inv : Inv c s) : Inv c s' := by
  have htimely := inv.timely
  unfold State.Timely at htimely
  simp only [State.move] at h
  split at h
  · rename_i hidle
    rw [hidle] at htimely
    obtain ⟨hdue, h⟩ := ite_none_right_eq_some.mp h
    have hnext : s.tickAfter c = s.clock + c.renewalInterval := by
      unfold State.tickAfter
      split <;> omega
    cases h
    refine ⟨inv.distinct, inv.claimed, ?_, ?_⟩
    · unfold State.Timely
      dsimp only
      rw [hnext]
      split <;> omega
    · intro x hx running
      obtain ⟨entry, row, hlease, hle, hend, hyoung⟩ := inv.held x hx running
      refine ⟨entry, row, hlease, hle, hend, ?_⟩
      have hmem : entry ∈ s.active.rows.map Prod.snd :=
        List.mem_map.mpr ⟨(_, entry), Table.mem_rows_iff.mpr row, rfl⟩
      simp only [State.Due, hidle] at hyoung
      unfold State.Due
      dsimp only
      rw [if_neg (by simpa using ne_nil_of_mem hmem)]
      exact ⟨by omega, .inr hmem, by simp⟩
  · cases h

theorem Execution.renew_lease {leaseEnd : Nat} :
    (x.renew leaseEnd leases renewed).lease = x.lease := by
  unfold Execution.renew
  split <;> rfl

theorem Execution.renew_lost {leaseEnd : Nat} :
    (x.renew leaseEnd leases renewed).lost = x.lost := by
  unfold Execution.renew
  split <;> rfl

theorem renew_inv {renewed : List Uuid} (h : s.move c (.renew renewed) = some s') (inv : Inv c s) :
    Inv c s' := by
  have htimely := inv.timely
  unfold State.Timely at htimely
  simp only [State.move] at h
  split at h
  · rename_i leases hasking
    rw [hasking] at htimely
    cases h
    refine ⟨?_, inv.claimed, htimely, ?_⟩
    · rw [List.map_map]
      convert inv.distinct using 1
      refine map_congr_left fun x _ => ?_
      rw [Function.comp_apply, Execution.renew_lease]
    · intro y hy running
      obtain ⟨x, hx, rfl⟩ := List.mem_map.mp hy
      rw [Execution.renew_lost] at running
      obtain ⟨entry, row, hlease, hle, hend, hdue⟩ := inv.held x hx running
      simp only [State.Due, hasking] at hdue
      have hasked : entry ∈ leases → x.lease ∈ leases.map ActiveLease.renewal :=
        fun hmem => List.mem_map.mpr ⟨entry, hmem, hlease⟩
      refine ⟨entry, by rw [Execution.renew_lease]; exact row, hlease.trans Execution.renew_lease.symm,
        hle, ?_, hdue.1, hdue.2.1, ?_⟩
      · unfold Execution.renew
        split
        · exact Nat.add_le_add_right hle _
        · exact hend
      · rintro ids hids hmem hrenewed
        cases hids
        rw [Execution.renew_lease] at hrenewed
        unfold Execution.renew
        rw [if_pos ⟨hasked hmem, hrenewed⟩]
  · cases h

theorem answer_inv (h : s.move c .answer = some s') (inv : Inv c s) : Inv c s' := by
  have htimely := inv.timely
  unfold State.Timely at htimely
  simp only [State.move] at h
  split at h
  · rename_i leases renewed hasking
    rw [hasking] at htimely
    cases h
    have hsettled : Settled c RenewedAt renewed leases s := by
      intro x hx running
      obtain ⟨entry, row, hlease, hle, hend, hdue⟩ := inv.held x hx running
      simp only [State.Due, hasking] at hdue
      refine ⟨entry, row, hlease, hle, hend, hdue.2.1.imp_right fun hmem => ⟨hmem, ?_⟩⟩
      exact hdue.2.2 renewed rfl hmem
    obtain ⟨settled, turns⟩ := foldl_settled (fun _ _ _ => updateRenewed_settled) hsettled
    refine inv_of_settled inv htimely (fun entry hdone => ?_) turns settled
    have := c.uncertain_pos
    unfold RenewedAt at hdone
    omega
  · cases h

theorem fail_inv (h : s.move c .fail = some s') (inv : Inv c s) : Inv c s' := by
  have htimely := inv.timely
  unfold State.Timely at htimely
  simp only [State.move] at h
  split at h
  · rename_i leases renewed hasking
    rw [hasking] at htimely
    cases h
    have hsettled : Settled c (CertainAt c) [] leases s := by
      intro x hx running
      obtain ⟨entry, row, hlease, hle, hend, hdue⟩ := inv.held x hx running
      simp only [State.Due, hasking] at hdue
      refine ⟨entry, row, hlease, hle, hend, hdue.2.1.imp (fun hnow => ?_) fun hmem => ⟨hmem, by simp⟩⟩
      have := c.uncertain_pos
      unfold CertainAt
      omega
    obtain ⟨settled, turns⟩ := foldl_settled (fun _ _ _ => cancelUncertain_settled) hsettled
    exact inv_of_settled inv htimely (fun _ hdone => hdone) turns settled
  · cases h

theorem move_inv (m : Move) (prompt : Prompt s m) (h : s.move c m = some s') (inv : Inv c s) :
    Inv c s' := by
  cases m with
  | wait instant => exact wait_inv prompt h inv
  | claim lease =>
    cases h
    refine ⟨inv.distinct, ?_, inv.timely, inv.held⟩
    intro y hy
    rcases mem_append.mp hy with hy | hy
    · exact inv.claimed y hy
    · rw [mem_singleton.mp hy]
  | spawn i => exact spawn_inv prompt h inv
  | drop i =>
    cases h
    exact ⟨inv.distinct, fun y hy => inv.claimed y (mem_of_mem_eraseIdx hy), inv.timely, inv.held⟩
  | finish i => exact finish_inv h inv
  | tick => exact tick_inv h inv
  | renew renewed => exact renew_inv h inv
  | answer => exact answer_inv h inv
  | fail => exact fail_inv h inv

theorem Inv.running (inv : Inv c s) (whole : 1000000 ∣ c.leaseDuration)
    (hx : x ∈ s.executions) (running : x.lost = false) : s.clock < x.leaseEnd := by
  obtain ⟨entry, -, -, -, hend, hdue⟩ := inv.held x hx running
  have htimely := inv.timely
  have hgranted : c.granted = c.leaseDuration := Nat.div_mul_cancel whole
  have hlength : c.uncertain + c.renewalInterval ≤ c.leaseDuration := by
    unfold Config.uncertain Config.renewalInterval
    omega
  unfold State.Timely at htimely
  unfold State.Due at hdue
  split at hdue
  · rename_i hidle
    rw [hidle] at htimely
    dsimp only at htimely
    omega
  · omega

end LeaseClock

open LeaseClock

/-- If the lease is a whole number of milliseconds and all moves are `Prompt`, every execution whose
token is not cancelled is still inside its lease. -/
theorem executions_stop_in_time (c : LeaseClock.Config) (now : Nat) (moves : List LeaseClock.Move)
    (s' : LeaseClock.State) (whole : 1000000 ∣ c.leaseDuration)
    (h : Machine.runs (State.move c) (.start c now) moves = some s')
    (prompt : Machine.EveryMove (State.move c) Prompt (.start c now) moves) :
    ∀ x ∈ s'.executions, x.lost = false → s'.clock < x.leaseEnd := by
  have inv := Machine.runs_rule (fun s m s' prompt h inv => move_inv m prompt h inv) prompt h
    (Inv.start c now)
  exact fun x hx running => inv.running whole hx running

namespace LeaseClock

/-- A lease of nine milliseconds, with a tick every three. -/
def shortLease : Config := ⟨9000000, Nat.le_of_ble_eq_true rfl⟩

def spawned : List Move := [.claim ⟨Uuid.ofNat 1, 1, Uuid.ofNat 2⟩, .spawn 0]

theorem failed_renewal_in_time :
    let moves := spawned ++ [.wait 3000000, .tick, .renew [Uuid.ofNat 1], .answer, .wait 6000000, .tick,
      .fail, .wait 9000000]
    ∃ s', Machine.runs (State.move shortLease) (.start shortLease 0) moves = some s' ∧
      (∃ x ∈ s'.executions, x.lost = false) ∧
      ∀ x ∈ s'.executions, x.lost = false → s'.clock < x.leaseEnd := by
  intro moves
  have hruns : (Machine.runs (State.move shortLease) (.start shortLease 0) moves).any (fun s' =>
      s'.executions.any fun x => !x.lost) = true := by decide
  obtain ⟨s', h, hrunning⟩ := (Option.any_eq_true _ _).mp hruns
  obtain ⟨x, hx, running⟩ := List.any_eq_true.mp hrunning
  refine ⟨s', h, ⟨x, hx, by simpa using running⟩, ?_⟩
  exact executions_stop_in_time shortLease 0 moves s' (by decide) h (by decide)

theorem unanswered_renewal_overruns : let moves := spawned ++ [.wait 3000000, .tick, .wait 10000000]
    ∃ s', Machine.runs (State.move shortLease) (.start shortLease 0) moves = some s' ∧
      ∃ x ∈ s'.executions, x.lost = false ∧ x.leaseEnd < s'.clock := by
  intro moves
  have hruns : (Machine.runs (State.move shortLease) (.start shortLease 0) moves).any (fun s' =>
      s'.executions.any fun x => !x.lost && decide (x.leaseEnd < s'.clock)) = true := by decide
  obtain ⟨s', h, hoverrun⟩ := (Option.any_eq_true _ _).mp hruns
  obtain ⟨x, hx, hoverrun⟩ := List.any_eq_true.mp hoverrun
  simp only [Bool.and_eq_true, Bool.not_eq_true', decide_eq_true_eq] at hoverrun
  exact ⟨s', h, x, hx, hoverrun⟩

end LeaseClock

end Pgtask
