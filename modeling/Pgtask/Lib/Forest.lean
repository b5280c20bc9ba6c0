import Mathlib.Logic.Relation
import Mathlib.Data.Finset.Card
import Mathlib.Data.Finset.Dedup

/-!
# Parent links

`parent` maps a node to its parent. A recursive query follows the links from a
node until a node has none. `walk n` is that query with at most `n` rounds, and
it returns `none` when the rounds run out.
-/

namespace Forest

open Relation

variable {κ : Type}

def walk (parent : κ → Option κ) : Nat → κ → Option (List κ)
  | 0, _ => none
  | n + 1, k => match parent k with
    | none => some [k]
    | some p => (walk parent n p).map (k :: ·)

def search [DecidableEq κ] (parent : κ → Option κ) (target : κ) : Nat → κ → Option Bool
  | 0, _ => none
  | n + 1, k =>
    if k = target then some true
    else match parent k with
      | none => some false
      | some p => search parent target n p

def Link (parent : κ → Option κ) (k p : κ) : Prop := parent k = some p

def Acyclic (parent : κ → Option κ) : Prop := ∀ k, ¬ TransGen (Link parent) k k

/-- The links from `k` lead into a cycle. -/
def CycleAbove (parent : κ → Option κ) (k : κ) : Prop :=
  ∃ j, ReflTransGen (Link parent) k j ∧ TransGen (Link parent) j j

def Within (parent : κ → Option κ) (nodes : Finset κ) : Prop := ∀ k p, parent k = some p → k ∈ nodes

variable {parent : κ → Option κ} {k p : κ}

theorem Acyclic.no_cycle (h : Acyclic parent) (k : κ) : ¬ CycleAbove parent k := by
  rintro ⟨j, -, hj⟩
  exact h j hj

theorem Acyclic.mono {parent' : κ → Option κ} (h : Acyclic parent)
    (sub : ∀ j q, parent' j = some q → parent j = some q) : Acyclic parent' :=
  fun j hj => h j (TransGen.mono sub j j hj)

theorem CycleAbove.link (h : CycleAbove parent p) (hp : parent k = some p) : CycleAbove parent k := by
  obtain ⟨j, hpj, hj⟩ := h
  exact ⟨j, hpj.head hp, hj⟩

theorem CycleAbove.up (h : CycleAbove parent k) : ∃ p, parent k = some p ∧ CycleAbove parent p := by
  obtain ⟨j, hkj, hj⟩ := h
  rcases hkj.cases_head with rfl | ⟨p, hkp, hpj⟩
  · obtain ⟨p, hjp, hpj⟩ := TransGen.head'_iff.mp hj
    exact ⟨p, hjp, k, hpj, hj⟩
  · exact ⟨p, hkp, j, hpj, hj⟩

/-! ## Walks -/

theorem walk_of_cycle (h : CycleAbove parent k) (n : Nat) : walk parent n k = none := by
  induction n generalizing k with
  | zero => rfl
  | succ n ih =>
    obtain ⟨p, hp, hcycle⟩ := h.up
    unfold walk
    simp only [hp, ih hcycle, Option.map_none]

theorem walk_unique {n m : Nat} {l l' : List κ} (h : walk parent n k = some l) (h' : walk parent m k = some l') :
    l = l' := by
  induction n generalizing m k l l' with
  | zero => cases h
  | succ n ih =>
    cases m with
    | zero => cases h'
    | succ m =>
      unfold walk at h h'
      cases hp : parent k with
      | none =>
        simp only [hp] at h h'
        cases h
        cases h'
        rfl
      | some p =>
        simp only [hp] at h h'
        obtain ⟨rest, hrest, rfl⟩ := Option.map_eq_some_iff.mp h
        obtain ⟨rest', hrest', rfl⟩ := Option.map_eq_some_iff.mp h'
        rw [ih hrest hrest']

theorem walk_parent {n m : Nat} {l l' : List κ} (hp : parent k = some p) (h : walk parent n k = some l)
    (h' : walk parent m p = some l') : l = k :: l' := by
  refine walk_unique h (m := m + 1) ?_
  unfold walk
  simp only [hp, h', Option.map_some]

theorem walk_ne_nil {n : Nat} {l : List κ} (h : walk parent n k = some l) : l ≠ [] := by
  cases n with
  | zero => cases h
  | succ n =>
    unfold walk at h
    split at h
    · cases h
      exact List.cons_ne_nil _ _
    · obtain ⟨rest, -, rfl⟩ := Option.map_eq_some_iff.mp h
      exact List.cons_ne_nil _ _

variable [DecidableEq κ] {nodes : Finset κ}

theorem walk_ends_aux (within : Within parent nodes) {n : Nat} {seen : Finset κ}
    (room : (nodes \ seen).card < n) (below : ∀ j ∈ seen, TransGen (Link parent) j k)
    (free : ¬ CycleAbove parent k) : (walk parent n k).isSome = true := by
  induction n generalizing k seen with
  | zero => omega
  | succ n ih =>
    unfold walk
    cases hp : parent k with
    | none => rfl
    | some p =>
      have hk : k ∈ nodes \ seen := by
        refine Finset.mem_sdiff.mpr ⟨within k p hp, fun hs => ?_⟩
        exact free ⟨k, .refl, below k hs⟩
      have hroom : (nodes \ insert k seen).card < n := by
        rw [Finset.sdiff_insert, Finset.card_erase_of_mem hk]
        have := Finset.card_pos.mpr ⟨k, hk⟩
        omega
      have hbelow : ∀ j ∈ insert k seen, TransGen (Link parent) j p := by
        intro j hj
        rcases Finset.mem_insert.mp hj with rfl | hj
        · exact .single hp
        · exact (below j hj).tail hp
      simpa using ih hroom hbelow fun hc => free (hc.link hp)

theorem walk_ends (within : Within parent nodes) {n : Nat} (room : nodes.card < n)
    (free : ¬ CycleAbove parent k) : (walk parent n k).isSome = true :=
  walk_ends_aux within (by rwa [Finset.sdiff_empty]) (fun _ h => absurd h (Finset.notMem_empty _)) free

theorem walk_isSome_iff (within : Within parent nodes) {n : Nat} (room : nodes.card < n) :
    (walk parent n k).isSome = true ↔ ¬ CycleAbove parent k := by
  refine ⟨fun h hc => ?_, walk_ends within room⟩
  rw [walk_of_cycle hc] at h
  cases h

/-! ## Searches -/

theorem search_ends (target : κ) {n : Nat} (h : (walk parent n k).isSome = true) :
    (search parent target n k).isSome = true := by
  induction n generalizing k with
  | zero => cases h
  | succ n ih =>
    unfold walk at h
    unfold search
    split
    · rfl
    · cases hp : parent k with
      | none => rfl
      | some p =>
        rw [hp] at h
        exact ih (by simpa using h)

theorem search_none {target : κ} {n : Nat} (h : search parent target n k = some false) :
    ¬ ReflTransGen (Link parent) k target := by
  induction n generalizing k with
  | zero => cases h
  | succ n ih =>
    unfold search at h
    split at h
    · cases h
    rename_i hne
    intro hr
    rcases hr.cases_head with rfl | ⟨p, hp, hr⟩
    · exact hne rfl
    · rw [show parent k = some p from hp] at h
      exact ih h hr

/-! ## Changes of the links -/

theorem transGen_adopt {parent' : κ → Option κ}
    (new : ∀ j, parent' j = if j = k then some p else parent j) {a b : κ}
    (h : TransGen (Link parent') a b) :
    TransGen (Link parent) a b ∨ ReflTransGen (Link parent) a k ∧ ReflTransGen (Link parent) p b := by
  induction h with
  | single hb =>
    unfold Link at hb
    rw [new] at hb
    split at hb
    · rename_i ha
      cases hb
      exact .inr ⟨ha ▸ .refl, .refl⟩
    · exact .inl (.single hb)
  | @tail b c hab hc ih =>
    unfold Link at hc
    rw [new] at hc
    split at hc
    · rename_i hb
      subst hb
      cases hc
      refine .inr ⟨?_, .refl⟩
      rcases ih with ih | ⟨ih, -⟩
      · exact ih.to_reflTransGen
      · exact ih
    · exact ih.imp (·.tail hc) fun h => ⟨h.1, h.2.tail hc⟩

theorem Acyclic.adopt {parent' : κ → Option κ} (h : Acyclic parent)
    (new : ∀ j, parent' j = if j = k then some p else parent j)
    (apart : ¬ ReflTransGen (Link parent) p k) : Acyclic parent' := by
  intro j hj
  rcases transGen_adopt new hj with hold | ⟨hjk, hpj⟩
  · exact h j hold
  · exact apart (hpj.trans hjk)

end Forest
