import Pgtask.Lib.FirstBy
import Pgtask.Invariant.Checks
import Pgtask.Invariant.Policies
import Pgtask.Invariant.Sleep

/-!
# Which tasks a claim takes

Two subqueries share one limit: the task that has starved longest, and the others
by priority. The rows they fetch are updated and returned in that order.
-/

open Sql Checked List Table

namespace Pgtask

variable {db : Database} {e : Env} {id : Uuid} {t : Task} {rows : List (Uuid × Task)}

variable {e : Env} {s s' : Session}

/-! ## Orders -/

inductive Takes (starved : Uuid × Task → Prop) (limit : Int) (pool : List (Uuid × Task)) :
    List (Uuid × Task) → Prop
  | nothing (closed : limit ≤ 0) : Takes starved limit pool []
  | byPriority {rows : List (Uuid × Task)} (opened : 0 < limit) (fair : ∀ x ∈ pool, ¬ starved x)
      (rest : FirstBy byPriority limit.toNat pool rows) : Takes starved limit pool rows
  | starved {x : Uuid × Task} {rows : List (Uuid × Task)} (opened : 0 < limit) (mem : x ∈ pool)
      (late : starved x) (first : ∀ y ∈ pool, starved y → byRunAt x y = true)
      (rest : FirstBy byPriority (limit - 1).toNat (pool.filter fun y => y.1 ≠ x.1) rows) :
      Takes starved limit pool (x :: rows)

/-- Nothing in the row or beside it refuses the task's next attempt. -/
structure Startable (db : Database) (id : Uuid) (t : Task) : Prop where
  checked : Holds (t.checks id)
  free : db.attempts.get? (id, t.attempt + 1) = none
  counted : historicalFailures db id t ≤ t.attempt
  policy : (t.retry.coalesce (db.policyOf t)).wellFormed = true

theorem Startable.claimed (h : Startable db id t) (token worker : Uuid) (ms : Int) :
    Holds ((t.claimed e db id (t.attempt + 1) token worker ms).checks id) := by
  have hcounted : historicalFailures db id t ≤ t.attempt + 1 := h.counted.trans (Nat.le_succ _)
  have hpolicy := h.policy
  have hchecked := h.checked
  unfold Database.policyOf Task.handler at hpolicy
  unfold Holds Task.checks at hchecked ⊢
  simp only [forall_mem_cons, Task.claimed] at hchecked ⊢
  simp_all

def Session.start (e : Env) (worker : Uuid) (ms : Int) (id : Uuid) (t : Task) (s : Session) : Session :=
  { s with
    db := { s.db with
      tasks := s.db.tasks.put id (t.claimed e s.db id (t.attempt + 1) (e.uuid s.drawn) worker ms)
      attempts := s.db.attempts.put (id, t.attempt + 1) { leaseToken := e.uuid s.drawn, workerId := worker } }
    drawn := s.drawn + 1 }

def Picked (db : Database) (x : Uuid × Task) : Prop := x.2.state = .pending ∧ Startable db x.1 x.2

theorem Picked.other {x : Uuid × Task} (worker : Uuid) (ms : Int)
    (free : s.db.attempts.get? (id, t.attempt + 1) = none) (other : x.1 ≠ id) (h : Picked s.db x) :
    Picked (s.start e worker ms id t).db x := by
  have hcount : historicalFailures (s.start e worker ms id t).db x.1 x.2 = historicalFailures s.db x.1 x.2 := by
    refine historicalFailures_congr ?_
    unfold Session.start
    rw [count_put_new _ _ free]
    simp [Ne.symm other]
  refine ⟨h.1, h.2.checked, ?_, ?_, h.2.policy⟩
  · unfold Session.start
    rw [get?_put_of_ne _ _ (fun h => other (congrArg Prod.fst h))]
    exact h.2.free
  · rw [hcount]
    exact h.2.counted

theorem length_others {pool : List (Uuid × Task)} (nodup : (pool.map Prod.fst).Nodup) {x : Uuid × Task}
    (mem : x ∈ pool) : (pool.filter fun y => y.1 ≠ x.1).length = pool.length - 1 := by
  have hothers : (pool.filter fun y => y.1 ≠ x.1) = pool.erase x := by
    rw [(List.Nodup.of_map _ nodup).erase_eq_filter]
    refine filter_congr fun y hy => ?_
    have hinj := inj_on_of_nodup_map nodup hy mem
    by_cases hyx : y = x
    · simp [hyx]
    · simp [hyx, mt hinj hyx]
  rw [hothers, List.length_erase_of_mem mem]

theorem Takes.length {starved : Uuid × Task → Prop} {n : Int} {pool : List (Uuid × Task)}
    (h : Takes starved n pool rows) (nodup : (pool.map Prod.fst).Nodup) :
    rows.length = min n.toNat pool.length := by
  cases h with
  | nothing closed =>
    rw [length_nil]
    omega
  | byPriority opened fair rest => exact rest.length
  | starved opened mem late first rest =>
    have hpos := List.length_pos_of_mem mem
    rw [length_cons, rest.length, length_others nodup mem]
    omega

end Pgtask
