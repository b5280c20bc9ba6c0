import Mathlib.Algebra.GroupWithZero.Nat
import Mathlib.Data.List.Lookmap
import Mathlib.Data.List.Nodup
import Mathlib.Data.List.Perm.Subperm

/-!
# Keyed tables

A table is a list of rows under distinct keys. `get?` reads the row of a key,
`put` replaces or appends it, and `update` and `delete` are the bulk forms.
Every lemma below says what `get?` or `count` is after an operation, so that
proofs about tables never look at the list.
-/

namespace Sql

/-- Rows under distinct keys. The key is the primary key of its row. -/
structure Table (κ ρ : Type) where
  rows : List (κ × ρ)
  nodup : (rows.map Prod.fst).Nodup

namespace Table

variable {κ ρ : Type}

section Keyed

variable [DecidableEq κ]

def putRows (k : κ) (r : ρ) : List (κ × ρ) → List (κ × ρ)
  | [] => [(k, r)]
  | x :: xs => if x.1 = k then (k, r) :: xs else x :: putRows k r xs

theorem mem_keys_putRows (k j : κ) (r : ρ) (l : List (κ × ρ)) :
    j ∈ (putRows k r l).map Prod.fst ↔ j = k ∨ j ∈ l.map Prod.fst := by
  induction l with
  | nil => simp [putRows]
  | cons x xs ih =>
    unfold putRows
    split
    · rename_i hx
      simp only [List.map_cons, List.mem_cons, hx]
      tauto
    · simp only [List.map_cons, List.mem_cons, ih]
      tauto

theorem nodup_putRows (k : κ) (r : ρ) (l : List (κ × ρ)) (h : (l.map Prod.fst).Nodup) :
    ((putRows k r l).map Prod.fst).Nodup := by
  induction l with
  | nil => simp [putRows]
  | cons x xs ih =>
    rw [List.map_cons, List.nodup_cons] at h
    unfold putRows
    split
    · rename_i hx
      rw [List.map_cons, List.nodup_cons]
      exact ⟨hx ▸ h.1, h.2⟩
    · rename_i hx
      rw [List.map_cons, List.nodup_cons, mem_keys_putRows]
      exact ⟨fun hm => hm.elim hx h.1, ih h.2⟩

/-! ## Operations -/

def get? (t : Table κ ρ) (k : κ) : Option ρ := t.rows.lookup k

def put (t : Table κ ρ) (k : κ) (r : ρ) : Table κ ρ :=
  ⟨putRows k r t.rows, nodup_putRows k r t.rows t.nodup⟩

def adjust (t : Table κ ρ) (k : κ) (f : ρ → ρ) : Table κ ρ :=
  match t.get? k with
  | some r => t.put k (f r)
  | none => t

def putNew (t : Table κ ρ) (k : κ) (r : ρ) : Table κ ρ :=
  match t.get? k with
  | some _ => t
  | none => t.put k r

end Keyed

def empty : Table κ ρ := ⟨[], List.nodup_nil⟩

def select (t : Table κ ρ) (p : κ → ρ → Bool) : List (κ × ρ) :=
  t.rows.filter fun x => p x.1 x.2

def update (t : Table κ ρ) (f : κ → ρ → ρ) : Table κ ρ :=
  ⟨t.rows.map fun x => (x.1, f x.1 x.2), by
    rw [List.map_map]; exact t.nodup⟩

def delete (t : Table κ ρ) (p : κ → ρ → Bool) : Table κ ρ :=
  ⟨t.rows.filter fun x => !p x.1 x.2, t.nodup.sublist (List.filter_sublist.map _)⟩

def set [DecidableEq κ] (t : Table κ ρ) (k : κ) : Option ρ → Table κ ρ
  | some r => t.put k r
  | none => t.delete fun j _ => j = k

def count (t : Table κ ρ) (p : κ → ρ → Bool) : Nat := t.rows.countP fun x => p x.1 x.2

theorem nodup_select (t : Table κ ρ) (p : κ → ρ → Bool) : ((t.select p).map Prod.fst).Nodup :=
  t.nodup.sublist (List.filter_sublist.map _)

theorem count_delete (t : Table κ ρ) (p q : κ → ρ → Bool) :
    (t.delete q).count p = t.count fun k r => p k r && !q k r := by
  unfold count delete
  rw [List.countP_filter]

theorem count_update (t : Table κ ρ) (f : κ → ρ → ρ) (p : κ → ρ → Bool) :
    (t.update f).count p = t.count fun k r => p k (f k r) := by
  unfold count update
  rw [List.countP_map]
  rfl

/-! ## Reading -/

variable [DecidableEq κ]

theorem lookup_eq_some_iff {l : List (κ × ρ)} (h : (l.map Prod.fst).Nodup) {k : κ} {r : ρ} :
    l.lookup k = some r ↔ (k, r) ∈ l := by
  induction l with
  | nil => simp
  | cons x xs ih =>
    obtain ⟨j, q⟩ := x
    rw [List.map_cons, List.nodup_cons] at h
    rw [List.lookup_cons]
    by_cases hk : k = j
    · subst hk
      simp only [beq_self_eq_true, Option.some.injEq, List.mem_cons, Prod.mk.injEq, true_and]
      refine ⟨fun e => .inl e.symm, fun e => ?_⟩
      rcases e with e | e
      · exact e.symm
      · exact absurd (List.mem_map_of_mem e) h.1
    · simp only [beq_eq_false_iff_ne.mpr hk, ih h.2, List.mem_cons, Prod.mk.injEq, hk,
        false_and, false_or]

theorem mem_rows_iff {t : Table κ ρ} {k : κ} {r : ρ} : (k, r) ∈ t.rows ↔ t.get? k = some r :=
  (lookup_eq_some_iff t.nodup).symm

@[simp] theorem get?_empty (k : κ) : (empty : Table κ ρ).get? k = none := rfl

theorem mem_select {t : Table κ ρ} {p : κ → ρ → Bool} {k : κ} {r : ρ} :
    (k, r) ∈ t.select p ↔ t.get? k = some r ∧ p k r = true := by
  rw [select, List.mem_filter, mem_rows_iff]

theorem lookup_putRows (k j : κ) (r : ρ) (l : List (κ × ρ)) :
    (putRows k r l).lookup j = if j = k then some r else l.lookup j := by
  induction l with
  | nil =>
    by_cases h : j = k
    · simp [putRows, h]
    · simp [putRows, List.lookup_cons, h, beq_eq_false_iff_ne.mpr h]
  | cons x xs ih =>
    obtain ⟨i, q⟩ := x
    by_cases hi : i = k
    · subst hi
      by_cases h : j = i
      · simp [putRows, h]
      · simp [putRows, List.lookup_cons, h, beq_eq_false_iff_ne.mpr h]
    · rw [putRows, if_neg hi, List.lookup_cons, List.lookup_cons, ih]
      by_cases h : j = k
      · subst h
        simp [beq_eq_false_iff_ne.mpr (Ne.symm hi)]
      · simp [h]

@[simp] theorem get?_put (t : Table κ ρ) (k j : κ) (r : ρ) :
    (t.put k r).get? j = if j = k then some r else t.get? j :=
  lookup_putRows k j r t.rows

theorem get?_put_self (t : Table κ ρ) (k : κ) (r : ρ) : (t.put k r).get? k = some r := by simp

theorem get?_put_of_ne (t : Table κ ρ) {k j : κ} (r : ρ) (h : j ≠ k) :
    (t.put k r).get? j = t.get? j := by simp [h]

theorem get?_eq_none_iff {t : Table κ ρ} {k : κ} : t.get? k = none ↔ ∀ r, (k, r) ∉ t.rows := by
  constructor
  · intro h r hm
    rw [mem_rows_iff, h] at hm
    cases hm
  · intro h
    cases hg : t.get? k with
    | none => rfl
    | some r => exact absurd (mem_rows_iff.mpr hg) (h r)

@[simp] theorem get?_update (t : Table κ ρ) (f : κ → ρ → ρ) (k : κ) :
    (t.update f).get? k = (t.get? k).map (f k) := by
  cases hg : t.get? k with
  | none =>
    rw [get?_eq_none_iff] at hg
    rw [Option.map_none, get?_eq_none_iff]
    intro r hm
    obtain ⟨x, hx, he⟩ := List.mem_map.mp hm
    obtain ⟨rfl, -⟩ := Prod.mk.inj he
    exact hg x.2 hx
  | some r =>
    rw [Option.map_some, ← mem_rows_iff]
    exact List.mem_map.mpr ⟨(k, r), mem_rows_iff.mpr hg, rfl⟩

theorem get?_delete (t : Table κ ρ) (p : κ → ρ → Bool) (k : κ) :
    (t.delete p).get? k = (t.get? k).filter fun r => !p k r := by
  cases hg : t.get? k with
  | none =>
    rw [get?_eq_none_iff] at hg
    rw [Option.filter_none, get?_eq_none_iff]
    exact fun r hm => hg r (List.mem_of_mem_filter hm)
  | some r =>
    have hm := mem_rows_iff.mpr hg
    by_cases hp : p k r = true
    · rw [Option.filter_some, if_neg (by simp [hp]), get?_eq_none_iff]
      intro q hq
      obtain ⟨hq, hk⟩ := List.mem_filter.mp hq
      rw [mem_rows_iff, hg, Option.some.injEq] at hq
      subst hq
      simp [hp] at hk
    · rw [Option.filter_some, if_pos (by simpa using hp), ← mem_rows_iff]
      exact List.mem_filter.mpr ⟨hm, by simpa using hp⟩

theorem get?_delete_eq_some {t : Table κ ρ} {p : κ → ρ → Bool} {k : κ} {r : ρ} :
    (t.delete p).get? k = some r ↔ t.get? k = some r ∧ p k r = false := by
  rw [get?_delete, Option.filter_eq_some_iff]
  simp

theorem get?_delete_of_false {t : Table κ ρ} {p : κ → ρ → Bool} {k : κ} (h : ∀ r, p k r = false) :
    (t.delete p).get? k = t.get? k := by
  ext r
  rw [get?_delete_eq_some]
  exact and_iff_left (h r)

theorem get?_set (t : Table κ ρ) (k j : κ) (v : Option ρ) :
    (t.set k v).get? j = if j = k then v else t.get? j := by
  cases v with
  | some r => exact get?_put t k j r
  | none =>
    ext r
    unfold set
    rw [get?_delete_eq_some, decide_eq_false_iff_not]
    split
    · rename_i hj
      simp [hj]
    · rename_i hj
      simp [hj]

theorem putRows_self {k : κ} {r : ρ} {l : List (κ × ρ)} (h : l.lookup k = some r) :
    putRows k r l = l := by
  induction l with
  | nil => simp at h
  | cons x xs ih =>
    obtain ⟨j, q⟩ := x
    by_cases hj : j = k
    · subst hj
      simp only [List.lookup_cons, beq_self_eq_true, Option.some.injEq] at h
      rw [putRows, if_pos rfl, h]
    · rw [List.lookup_cons, beq_eq_false_iff_ne.mpr (Ne.symm hj)] at h
      rw [putRows, if_neg hj, ih h]

theorem put_self {t : Table κ ρ} {k : κ} {r : ρ} (h : t.get? k = some r) : t.put k r = t := by
  unfold put
  congr 1
  exact putRows_self h

theorem adjust_of_some {t : Table κ ρ} {k : κ} {r : ρ} (f : ρ → ρ) (h : t.get? k = some r) :
    t.adjust k f = t.put k (f r) := by
  unfold adjust
  rw [h]

theorem adjust_of_none {t : Table κ ρ} {k : κ} (f : ρ → ρ) (h : t.get? k = none) :
    t.adjust k f = t := by
  unfold adjust
  rw [h]

@[simp] theorem get?_adjust (t : Table κ ρ) (k j : κ) (f : ρ → ρ) :
    (t.adjust k f).get? j = if j = k then (t.get? k).map f else t.get? j := by
  cases h : t.get? k with
  | none =>
    rw [adjust_of_none f h]
    split
    · rename_i hj
      rw [hj, h, Option.map_none]
    · rfl
  | some r => rw [adjust_of_some f h, get?_put, Option.map_some]

theorem isSome_adjust (t : Table κ ρ) (k j : κ) (f : ρ → ρ) :
    ((t.adjust k f).get? j).isSome = (t.get? j).isSome := by
  rw [get?_adjust]
  split
  · rename_i hj
    rw [hj, Option.isSome_map]
  · rfl

theorem putNew_of_none {t : Table κ ρ} {k : κ} (r : ρ) (h : t.get? k = none) :
    t.putNew k r = t.put k r := by
  unfold putNew
  rw [h]

theorem putNew_of_some {t : Table κ ρ} {k : κ} {q : ρ} (r : ρ) (h : t.get? k = some q) :
    t.putNew k r = t := by
  unfold putNew
  rw [h]

@[simp] theorem get?_putNew (t : Table κ ρ) (k j : κ) (r : ρ) :
    (t.putNew k r).get? j = if j = k then some ((t.get? k).getD r) else t.get? j := by
  cases h : t.get? k with
  | none => rw [putNew_of_none r h, get?_put, Option.getD_none]
  | some q =>
    rw [putNew_of_some r h, Option.getD_some]
    split
    · rename_i hj
      rw [hj, h]
    · rfl

/-! ## Counting -/

theorem count_congr {t : Table κ ρ} {p q : κ → ρ → Bool}
    (h : ∀ k r, t.get? k = some r → p k r = q k r) : t.count p = t.count q := by
  apply List.countP_congr
  rintro ⟨k, r⟩ hm
  rw [h k r (mem_rows_iff.mp hm)]

theorem countP_putRows_new (p : κ × ρ → Bool) (k : κ) (r : ρ) (l : List (κ × ρ))
    (h : k ∉ l.map Prod.fst) :
    (putRows k r l).countP p = l.countP p + if p (k, r) then 1 else 0 := by
  induction l with
  | nil => simp [putRows, List.countP_cons]
  | cons x xs ih =>
    rw [List.map_cons, List.mem_cons, not_or] at h
    rw [putRows, if_neg (Ne.symm h.1), List.countP_cons, List.countP_cons, ih h.2]
    omega

theorem countP_putRows_old (p : κ × ρ → Bool) (k : κ) (r q : ρ) (l : List (κ × ρ))
    (hn : (l.map Prod.fst).Nodup) (h : (k, q) ∈ l) :
    ((putRows k r l).countP p + if p (k, q) then 1 else 0) =
      l.countP p + if p (k, r) then 1 else 0 := by
  induction l with
  | nil => simp at h
  | cons x xs ih =>
    rw [List.map_cons, List.nodup_cons] at hn
    by_cases hx : x.1 = k
    · have hq : x = (k, q) := by
        rcases List.mem_cons.mp h with h | h
        · exact h.symm
        · exact absurd (List.mem_map_of_mem h) (hx ▸ hn.1)
      subst hq
      rw [putRows, if_pos rfl, List.countP_cons, List.countP_cons]
      omega
    · have hm : (k, q) ∈ xs := by
        rcases List.mem_cons.mp h with h | h
        · exact absurd (congrArg Prod.fst h).symm hx
        · exact h
      have := ih hn.2 hm
      rw [putRows, if_neg hx, List.countP_cons, List.countP_cons]
      omega

theorem count_put_new {t : Table κ ρ} {k : κ} (p : κ → ρ → Bool) (r : ρ) (h : t.get? k = none) :
    (t.put k r).count p = t.count p + if p k r then 1 else 0 := by
  apply countP_putRows_new
  rw [get?_eq_none_iff] at h
  intro hm
  obtain ⟨⟨j, q⟩, hx, rfl⟩ := List.mem_map.mp hm
  exact h q hx

theorem count_put_old {t : Table κ ρ} {k : κ} {q : ρ} (p : κ → ρ → Bool) (r : ρ)
    (h : t.get? k = some q) :
    ((t.put k r).count p + if p k q then 1 else 0) = t.count p + if p k r then 1 else 0 :=
  countP_putRows_old _ k r q t.rows t.nodup (mem_rows_iff.mpr h)

theorem count_eq_zero {t : Table κ ρ} {p : κ → ρ → Bool}
    (h : ∀ k r, t.get? k = some r → p k r = false) : t.count p = 0 := by
  unfold count
  rw [List.countP_eq_zero]
  rintro ⟨k, r⟩ hm
  simp [h k r (mem_rows_iff.mp hm)]

theorem count_pos_iff {t : Table κ ρ} {p : κ → ρ → Bool} :
    0 < t.count p ↔ ∃ k r, t.get? k = some r ∧ p k r = true := by
  unfold count
  rw [List.countP_pos_iff]
  constructor
  · rintro ⟨⟨k, r⟩, hm, hp⟩
    exact ⟨k, r, mem_rows_iff.mp hm, hp⟩
  · rintro ⟨k, r, hk, hp⟩
    exact ⟨(k, r), mem_rows_iff.mpr hk, hp⟩

theorem count_le_one {t : Table κ ρ} {p : κ → ρ → Bool}
    (h : ∀ k k' r r', t.get? k = some r → p k r = true → t.get? k' = some r' → p k' r' = true →
      k = k') : t.count p ≤ 1 := by
  have hn := t.nodup_select p
  have hmem := fun k r => (mem_select (t := t) (p := p) (k := k) (r := r)).mp
  have hlen : t.count p = (t.select p).length := List.countP_eq_length_filter
  rcases hl : t.select p with - | ⟨x, - | ⟨y, l⟩⟩
  · rw [hlen, hl]
    exact Nat.zero_le 1
  · rw [hlen, hl]
    exact Nat.le_refl 1
  · rw [hl] at hn hmem
    have hx := hmem x.1 x.2 (by simp)
    have hy := hmem y.1 y.2 (by simp)
    simp [h x.1 y.1 x.2 y.2 hx.1 hx.2 hy.1 hy.2] at hn

theorem count_adjust {t : Table κ ρ} {k : κ} {f : ρ → ρ} {p : κ → ρ → Bool}
    (h : ∀ r, t.get? k = some r → p k (f r) = p k r) : (t.adjust k f).count p = t.count p := by
  cases hk : t.get? k with
  | none => rw [adjust_of_none f hk]
  | some r =>
    have := count_put_old p (f r) hk
    rw [adjust_of_some f hk]
    rw [h r hk] at this
    omega

def sum (t : Table κ ρ) (f : κ → ρ → Nat) : Nat := (t.rows.map fun x => f x.1 x.2).sum

theorem sum_putRows_old (f : κ × ρ → Nat) (k : κ) (r q : ρ) (l : List (κ × ρ))
    (hn : (l.map Prod.fst).Nodup) (h : (k, q) ∈ l) :
    ((putRows k r l).map f).sum + f (k, q) = (l.map f).sum + f (k, r) := by
  induction l with
  | nil => simp at h
  | cons x xs ih =>
    rw [List.map_cons, List.nodup_cons] at hn
    by_cases hx : x.1 = k
    · have hq : x = (k, q) := by
        rcases List.mem_cons.mp h with h | h
        · exact h.symm
        · exact absurd (List.mem_map_of_mem h) (hx ▸ hn.1)
      subst hq
      rw [putRows, if_pos rfl, List.map_cons, List.map_cons, List.sum_cons, List.sum_cons]
      omega
    · have hm : (k, q) ∈ xs := by
        rcases List.mem_cons.mp h with h | h
        · exact absurd (congrArg Prod.fst h).symm hx
        · exact h
      have := ih hn.2 hm
      rw [putRows, if_neg hx, List.map_cons, List.map_cons, List.sum_cons, List.sum_cons]
      omega

theorem sum_put_old {t : Table κ ρ} {k : κ} {q : ρ} (f : κ → ρ → Nat) (r : ρ) (h : t.get? k = some q) :
    (t.put k r).sum f + f k q = t.sum f + f k r :=
  sum_putRows_old _ k r q t.rows t.nodup (mem_rows_iff.mpr h)

end Table

end Sql
