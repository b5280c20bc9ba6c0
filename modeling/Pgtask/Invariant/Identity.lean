import Pgtask.Effect.Task
import Pgtask.Run

/-!
# Identity

`gen_random_uuid` names the tasks. As long as it does not repeat itself, an id
that has been given to a task is never given to another one, whether the first
is still there or not.
-/

open Sql

namespace Pgtask

variable {e : Env} {server : Server} {l : Label} {ls : List Label} {s s' : Session} {id : Uuid}

/-! ## Draws -/

theorem Effect.drawn_le (effect : Effect e l s s') : s.drawn ≤ s'.drawn := by
  cases effect with
  | claim => exact Nat.le_succ _
  | insert => exact Nat.le_succ _
  | materialize => exact Nat.le_succ _
  | phantom => exact Nat.le_succ _
  | draw => exact Nat.le_succ _
  | _ => exact le_refl s.drawn

theorem Effect.drawn_insert (effect : Effect e l s s') (h : l = .insert id ∨ l = .materialize id) :
    id = e.uuid s.drawn ∧ s.drawn < s'.drawn := by
  rcases h with rfl | rfl
  · cases effect with
    | insert fresh => exact ⟨fresh, Nat.lt_succ_self _⟩
  · cases effect with
    | materialize fresh => exact ⟨fresh, Nat.lt_succ_self _⟩

theorem effects_drawn_le (path : Effects e ls s s') : s.drawn ≤ s'.drawn := by
  induction path with
  | nil => exact le_refl _
  | cons effect _ ih => exact effect.drawn_le.trans ih

theorem effects_drawn_insert (path : Effects e ls s s') (hl : l ∈ ls)
    (h : l = .insert id ∨ l = .materialize id) :
    ∃ n, s.drawn ≤ n ∧ n < s'.drawn ∧ id = e.uuid n := by
  induction path with
  | nil => cases hl
  | cons effect path ih =>
    rcases List.mem_cons.mp hl with rfl | hl
    · obtain ⟨hid, hlt⟩ := effect.drawn_insert h
      exact ⟨_, le_refl _, hlt.trans_le (effects_drawn_le path), hid⟩
    · obtain ⟨n, hle, hlt, hid⟩ := ih hl
      exact ⟨n, effect.drawn_le.trans hle, hlt, hid⟩

theorem step_drawn_le (w : World) (r : Request) : w.drawn ≤ (step server w r).2.drawn := by
  rcases step_spec server w r with ⟨-, -, -, -, -, ls, path, -⟩ | ⟨-, -, hw⟩
  · exact effects_drawn_le path
  · rw [hw]

theorem runFrom_drawn_le (w : World) (rs : List Request) : w.drawn ≤ (runFrom server w rs).drawn := by
  induction rs generalizing w with
  | nil => exact le_refl _
  | cons r rs ih => exact (step_drawn_le w r).trans (ih _)

theorem run_drawn_le (server : Server) (rs rs' : List Request) :
    (run server rs).drawn ≤ (run server (rs ++ rs')).drawn := by
  rw [run_append]
  exact runFrom_drawn_le _ rs'

theorem Server.Distinct.mono {n m : Nat} (h : server.Distinct n) (hle : m ≤ n) : server.Distinct m :=
  fun i j hi hj => h i j (hi.trans_le hle) (hj.trans_le hle)

/-! ## Ids -/

def Born (server : Server) (drawn : Nat) (id : Uuid) : Prop := ∃ n < drawn, id = server.uuid n

theorem Born.mono {n m : Nat} (h : Born server n id) (hle : n ≤ m) : Born server m id := by
  obtain ⟨i, hi, hid⟩ := h
  exact ⟨i, hi.trans_le hle, hid⟩

theorem run_born (server : Server) (rs : List Request) :
    ∀ id t, (run server rs).db.tasks.get? id = some t → Born server (run server rs).drawn id := by
  refine run_rule (I := fun w => ∀ id t, w.db.tasks.get? id = some t → Born server w.drawn id)
    (fun id t h => by simp at h) ?_ rs
  intro rs r ih
  refine step_keeps (I := fun s => ∀ id t, s.db.tasks.get? id = some t → Born server s.drawn id)
    ?_ ih
  intro l s s' _ effect ih id t row
  cases hrow : s.db.tasks.get? id with
  | some t' => exact (ih id t' hrow).mono effect.drawn_le
  | none =>
    -- The row is new, so its id has just been drawn.
    have step := effect.row id
    rw [hrow, row] at step
    cases step with
    | insert _ label =>
      obtain ⟨hid, hlt⟩ := effect.drawn_insert label
      exact ⟨s.drawn, hlt, hid⟩

theorem born_not_inserted {w : World} {r : Request} (born : Born server w.drawn id)
    (distinct : server.Distinct (step server w r).2.drawn)
    (path : Effects (server.envAt r.now) ls w.session (step server w r).2.session) :
    ∀ l ∈ ls, l ≠ .insert id ∧ l ≠ .materialize id := by
  have never : ∀ l ∈ ls, ¬ (l = .insert id ∨ l = .materialize id) := by
    intro l hl h
    obtain ⟨i, hi, hid⟩ := born
    obtain ⟨n, hle, hlt, hid'⟩ := effects_drawn_insert path hl h
    have : i = n := distinct i n (hi.trans_le (hle.trans hlt.le)) hlt (hid.symm.trans hid')
    exact absurd hle (by simp only [World.session_drawn]; omega)
  exact fun l hl => not_or.mp (never l hl)

end Pgtask
