import Mathlib.Data.List.Induction
import Mathlib.Data.List.Nodup
import Mathlib.Order.Lattice

/-!
# Maps as lists in the order of their keys

A map is a list of entries whose keys increase. `insert` replaces the value of a
key or puts the key in its place, and in `ofList` the last entry of a key wins.
-/

open List

namespace SortedMap

variable {κ ν μ : Type} [LinearOrder κ] {k l : κ} {v w : ν} {m : List (κ × ν)} {e : κ × ν}

def insert (k : κ) (v : ν) : List (κ × ν) → List (κ × ν)
  | [] => [(k, v)]
  | (l, w) :: rest =>
    if k < l then (k, v) :: (l, w) :: rest
    else if k = l then (k, v) :: rest
    else (l, w) :: insert k v rest

def ofList (entries : List (κ × ν)) : List (κ × ν) :=
  entries.foldl (fun m e => insert e.1 e.2 m) []

def Sorted (m : List (κ × ν)) : Prop := m.Pairwise fun a b => a.1 < b.1

theorem mem_insert (h : e ∈ insert k v m) : e = (k, v) ∨ e ∈ m := by
  induction m with
  | nil => exact .inl (mem_singleton.mp h)
  | cons a rest ih =>
    unfold insert at h
    split at h
    · exact mem_cons.mp h
    · split at h
      · exact (mem_cons.mp h).imp_right (mem_cons_of_mem _)
      · rcases mem_cons.mp h with rfl | h
        · exact .inr mem_cons_self
        · exact (ih h).imp_right (mem_cons_of_mem _)

theorem sorted_insert (h : Sorted m) (k : κ) (v : ν) : Sorted (insert k v m) := by
  induction m with
  | nil => exact pairwise_singleton _ _
  | cons a rest ih =>
    obtain ⟨hhead, hrest⟩ := pairwise_cons.mp h
    unfold insert
    split
    · rename_i hlt
      refine pairwise_cons.mpr ⟨forall_mem_cons.mpr ⟨hlt, fun b hb => ?_⟩, h⟩
      exact lt_trans hlt (hhead b hb)
    · split
      · rename_i heq
        exact pairwise_cons.mpr ⟨fun b hb => heq ▸ hhead b hb, hrest⟩
      · rename_i hle hne
        refine pairwise_cons.mpr ⟨fun b hb => ?_, ih hrest⟩
        rcases mem_insert hb with rfl | hb
        · exact lt_of_le_of_ne (not_lt.mp hle) (Ne.symm hne)
        · exact hhead b hb

theorem lookup_entry (e : κ × ν) (m : List (κ × ν)) (l : κ) :
    (e :: m).lookup l = if l = e.1 then some e.2 else m.lookup l := by
  rw [lookup_cons]
  split
  · rw [if_pos (eq_of_beq ‹_›)]
  · rw [if_neg (beq_eq_false_iff_ne.mp ‹_›)]

theorem lookup_insert (k : κ) (v : ν) (m : List (κ × ν)) (l : κ) :
    (insert k v m).lookup l = if l = k then some v else m.lookup l := by
  induction m with
  | nil => exact lookup_entry (k, v) [] l
  | cons a rest ih =>
    unfold insert
    split
    · exact lookup_entry (k, v) _ l
    · split
      · rename_i heq
        rw [lookup_entry, lookup_entry]
        split
        · rfl
        · rw [if_neg (heq ▸ ‹_›)]
      · rename_i hne
        rw [lookup_entry, lookup_entry, ih]
        by_cases hk : l = k
        · subst hk
          rw [if_neg hne]
          simp
        · simp [hk]

theorem insert_map (f : ν → μ) (k : κ) (v : ν) (m : List (κ × ν)) :
    (insert k v m).map (fun e => (e.1, f e.2)) = insert k (f v) (m.map fun e => (e.1, f e.2)) := by
  induction m with
  | nil => rfl
  | cons a rest ih =>
    simp only [insert, map_cons]
    split
    · rfl
    · split
      · rfl
      · rw [map_cons, ih]

theorem lookup_of_mem (h : Sorted m) (he : e ∈ m) : m.lookup e.1 = some e.2 := by
  induction m with
  | nil => cases he
  | cons a rest ih =>
    obtain ⟨hhead, hrest⟩ := pairwise_cons.mp h
    rcases mem_cons.mp he with rfl | he
    · rw [lookup_entry, if_pos rfl]
    · rw [lookup_entry, if_neg (ne_of_gt (hhead e he))]
      exact ih hrest he

theorem mem_of_lookup (h : m.lookup k = some v) : (k, v) ∈ m := by
  induction m with
  | nil => cases h
  | cons a rest ih =>
    rw [lookup_entry] at h
    split at h
    · rename_i heq
      subst heq
      cases h
      exact mem_cons_self
    · exact mem_cons_of_mem _ (ih h)

theorem ofList_concat (entries : List (κ × ν)) (e : κ × ν) :
    ofList (entries ++ [e]) = insert e.1 e.2 (ofList entries) := by
  unfold ofList
  rw [foldl_append]
  rfl

theorem sorted_ofList (entries : List (κ × ν)) : Sorted (ofList entries) := by
  induction entries using List.reverseRecOn with
  | nil => exact .nil
  | append_singleton entries e ih =>
    rw [ofList_concat]
    exact sorted_insert ih e.1 e.2

theorem mem_ofList {entries : List (κ × ν)} (h : e ∈ ofList entries) : e ∈ entries := by
  induction entries using List.reverseRecOn with
  | nil => cases h
  | append_singleton entries a ih =>
    rw [ofList_concat] at h
    rcases mem_insert h with rfl | h
    · exact mem_append_right _ mem_cons_self
    · exact mem_append_left _ (ih h)

theorem lookup_ofList {entries : List (κ × ν)} (he : (k, v) ∈ entries)
    (unique : ∀ w, (k, w) ∈ entries → w = v) : (ofList entries).lookup k = some v := by
  induction entries using List.reverseRecOn with
  | nil => cases he
  | append_singleton entries a ih =>
    rw [ofList_concat, lookup_insert]
    split
    · rename_i heq
      subst heq
      rw [unique a.2 (mem_append_right _ mem_cons_self)]
    · rename_i hne
      have he : (k, v) ∈ entries := by
        rcases mem_append.mp he with he | he
        · exact he
        · cases mem_singleton.mp he
          exact absurd rfl hne
      exact ih he fun w hw => unique w (mem_append_left _ hw)

/-! ## Collisions -/

theorem mem_keys_insert : l ∈ (insert k v m).map Prod.fst ↔ l = k ∨ l ∈ m.map Prod.fst := by
  induction m with
  | nil => simp [insert]
  | cons a rest ih =>
    unfold insert
    split
    · simp
    · split
      · rename_i heq
        simp [heq]
      · rw [map_cons, mem_cons, ih, map_cons, mem_cons]
        tauto

theorem mem_keys_ofList {entries : List (κ × ν)} :
    l ∈ (ofList entries).map Prod.fst ↔ l ∈ entries.map Prod.fst := by
  induction entries using List.reverseRecOn with
  | nil => rfl
  | append_singleton entries e ih =>
    rw [ofList_concat, mem_keys_insert, ih]
    simp [or_comm]

theorem length_insert (h : Sorted m) (k : κ) (v : ν) :
    (insert k v m).length = if k ∈ m.map Prod.fst then m.length else m.length + 1 := by
  induction m with
  | nil => rfl
  | cons a rest ih =>
    obtain ⟨hhead, hrest⟩ := pairwise_cons.mp h
    unfold insert
    split
    · rename_i hlt
      have habsent : k ∉ (a :: rest).map Prod.fst := by
        simp only [map_cons, mem_cons, List.mem_map, not_or, not_exists, not_and]
        refine ⟨ne_of_lt hlt, ?_⟩
        intro b hb
        exact ne_of_gt (lt_trans hlt (hhead b hb))
      rw [if_neg habsent]
      rfl
    · split
      · rename_i heq
        simp [heq]
      · rename_i hne
        rw [length_cons, ih hrest]
        simp only [map_cons, mem_cons, hne, false_or, length_cons]
        split <;> rfl

theorem length_ofList_le (entries : List (κ × ν)) : (ofList entries).length ≤ entries.length := by
  induction entries using List.reverseRecOn with
  | nil => exact Nat.le_refl _
  | append_singleton entries e ih =>
    rw [ofList_concat, length_insert (sorted_ofList entries), length_append]
    split
    · exact Nat.le_succ_of_le ih
    · exact Nat.succ_le_succ ih

theorem length_ofList_iff (entries : List (κ × ν)) :
    (ofList entries).length = entries.length ↔ (entries.map Prod.fst).Nodup := by
  induction entries using List.reverseRecOn with
  | nil => simp [ofList]
  | append_singleton entries e ih =>
    have hle := length_ofList_le entries
    have hlength : (entries ++ [e]).length = entries.length + 1 := length_append
    rw [ofList_concat, length_insert (sorted_ofList entries), hlength, map_append,
      List.map_singleton, ← concat_eq_append, List.nodup_concat, ← ih]
    split
    · rename_i hmem
      simp only [mem_keys_ofList.mp hmem, not_true_eq_false, false_and, iff_false]
      omega
    · rename_i hmem
      simp only [mt mem_keys_ofList.mpr hmem, not_false_eq_true, true_and]
      omega

theorem insert_last (h : ∀ a ∈ m, a.1 < k) (v : ν) : insert k v m = m ++ [(k, v)] := by
  induction m with
  | nil => rfl
  | cons a rest ih =>
    rw [forall_mem_cons] at h
    unfold insert
    rw [if_neg (not_lt.mpr (le_of_lt h.1)), if_neg (ne_of_gt h.1), ih h.2]
    rfl

theorem ofList_of_sorted (h : Sorted m) : ofList m = m := by
  induction m using List.reverseRecOn with
  | nil => rfl
  | append_singleton m e ih =>
    obtain ⟨hm, -, hlast⟩ := pairwise_append.mp h
    rw [ofList_concat, ih hm]
    exact insert_last (fun a ha => hlast a ha e mem_cons_self) e.2

end SortedMap
