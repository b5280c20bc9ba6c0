import Mathlib.Logic.Basic
import Mathlib.Order.Basic

/-!
# Spreading along links

A worklist goes from the nodes in its queue to the live nodes that are linked to
them. It ends each node it finds and puts it into the queue. The nodes it ends
are known from the start: the live nodes that live links lead to.
-/

namespace Spread

variable {κ : Type} {link link' : κ → κ → Prop} {live live' queued queued' : κ → Prop} {x y p : κ}

/-- A live node that is linked to a queued one, through live nodes only. -/
inductive Doomed (link : κ → κ → Prop) (live queued : κ → Prop) : κ → Prop
  | child {x p : κ} (owner : link x p) (alive : live x) (start : queued p) : Doomed link live queued x
  | under {x p : κ} (owner : link x p) (alive : live x) (up : Doomed link live queued p) :
      Doomed link live queued x

theorem Doomed.alive (h : Doomed link live queued x) : live x := by
  cases h <;> assumption

theorem Doomed.mono (hlink : ∀ x p, live x → link x p → link' x p) (hlive : ∀ x, live x → live' x)
    (hqueued : ∀ x p, live x → link x p → queued p → queued' p) (h : Doomed link live queued x) :
    Doomed link' live' queued' x := by
  induction h with
  | child owner alive start =>
    exact .child (hlink _ _ alive owner) (hlive _ alive) (hqueued _ _ alive owner start)
  | under owner alive _ ih => exact .under (hlink _ _ alive owner) (hlive _ alive) ih

theorem doomed_congr (hlink : ∀ x p, live x → (link x p ↔ link' x p)) (hlive : ∀ x, live x ↔ live' x)
    (hqueued : ∀ p, queued p ↔ queued' p) :
    Doomed link live queued x ↔ Doomed link' live' queued' x :=
  ⟨Doomed.mono (fun x p hx => (hlink x p hx).mp) (fun x => (hlive x).mp) fun _ p _ _ => (hqueued p).mp,
    Doomed.mono (fun x p hx => (hlink x p ((hlive x).mpr hx)).mpr) (fun x => (hlive x).mpr)
      fun _ p _ _ => (hqueued p).mpr⟩

theorem doomed_finish (hx : Doomed link live queued x) (hlink : ∀ y p, live' y → (link' y p ↔ link y p))
    (hlive : ∀ y, live' y ↔ live y ∧ y ≠ x) (hqueued : ∀ p, queued' p ↔ queued p ∨ p = x) :
    Doomed link live queued y ↔ y = x ∨ Doomed link' live' queued' y := by
  constructor
  · intro h
    induction h with
    | @child y p owner alive start =>
      by_cases hy : y = x
      · exact .inl hy
      · have alive' := (hlive y).mpr ⟨alive, hy⟩
        exact .inr (.child ((hlink y p alive').mpr owner) alive' ((hqueued p).mpr (.inl start)))
    | @under y p owner alive _ ih =>
      by_cases hy : y = x
      · exact .inl hy
      · have alive' := (hlive y).mpr ⟨alive, hy⟩
        have owner' := (hlink y p alive').mpr owner
        rcases ih with rfl | ih
        · exact .inr (.child owner' alive' ((hqueued p).mpr (.inr rfl)))
        · exact .inr (.under owner' alive' ih)
  · rintro (rfl | h)
    · exact hx
    · induction h with
      | @child y p owner alive start =>
        have owner' := (hlink y p alive).mp owner
        rcases (hqueued p).mp start with start | rfl
        · exact .child owner' ((hlive y).mp alive).1 start
        · exact .under owner' ((hlive y).mp alive).1 hx
      | @under y p owner alive _ ih => exact .under ((hlink y p alive).mp owner) ((hlive y).mp alive).1 ih

theorem doomed_start (hx : queued x) (hlink : ∀ y p, live' y → (link' y p ↔ link y p))
    (hlive : ∀ y, live' y ↔ live y ∧ y ≠ x) :
    Doomed link' live' queued y ↔ y ≠ x ∧ Doomed link live queued y := by
  constructor
  · intro h
    refine ⟨((hlive y).mp h.alive).2, ?_⟩
    exact h.mono (fun y p alive => (hlink y p alive).mp) (fun y alive => ((hlive y).mp alive).1) fun _ _ _ _ => id
  · rintro ⟨hne, h⟩
    induction h with
    | @child y p owner alive start =>
      have alive' := (hlive y).mpr ⟨alive, hne⟩
      exact .child ((hlink y p alive').mpr owner) alive' start
    | @under y p owner alive _ ih =>
      have alive' := (hlive y).mpr ⟨alive, hne⟩
      have owner' := (hlink y p alive').mpr owner
      by_cases hp : p = x
      · exact .child owner' alive' (hp ▸ hx)
      · exact .under owner' alive' (ih hp)

theorem doomed_rest {dead : κ → Prop} (hdead : ∀ y p, live y → link y p → dead p → dead y)
    (hlink : ∀ y p, live' y → (link' y p ↔ link y p)) (hlive : ∀ y, live' y ↔ live y ∧ ¬ dead y) :
    Doomed link' live' queued y ∨ dead y ↔ Doomed link live queued y ∨ dead y := by
  constructor
  · refine Or.imp_left fun h => ?_
    exact h.mono (fun y p alive => (hlink y p alive).mp) (fun y alive => ((hlive y).mp alive).1) fun _ _ _ _ => id
  · rintro (h | hy)
    · induction h with
      | @child y p owner alive start =>
        by_cases hy : dead y
        · exact .inr hy
        · have alive' := (hlive y).mpr ⟨alive, hy⟩
          exact .inl (.child ((hlink y p alive').mpr owner) alive' start)
      | @under y p owner alive _ ih =>
        by_cases hy : dead y
        · exact .inr hy
        · have alive' := (hlive y).mpr ⟨alive, hy⟩
          have hp : ¬ dead p := fun hp => hy (hdead y p alive owner hp)
          exact .inl (.under ((hlink y p alive').mpr owner) alive' (ih.resolve_right hp))
    · exact .inr hy

theorem doomed_drop (hless : ∀ p, queued' p → queued p)
    (hdone : ∀ y p, queued p → ¬ queued' p → link y p → ¬ live y) :
    Doomed link live queued x ↔ Doomed link live queued' x := by
  constructor
  · refine Doomed.mono (fun _ _ _ => id) (fun _ => id) ?_
    intro y p alive owner start
    exact Classical.byContradiction fun hn => hdone y p start hn owner alive
  · exact Doomed.mono (fun _ _ _ => id) (fun _ => id) fun _ p _ _ => hless p

theorem not_doomed (hnone : ∀ p, ¬ queued p) : ¬ Doomed link live queued x := by
  intro h
  induction h with
  | child _ _ start => exact hnone _ start
  | under _ _ _ ih => exact ih

end Spread
