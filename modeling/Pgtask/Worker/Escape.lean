import Pgtask.Worker.Outcome

/-!
# What escaping keeps

`escape_nul` rebuilds an object with a NUL in one of its keys. Every value is found again in the
rebuilt tree unless two keys of one object become the same.
-/

open List

namespace Pgtask.Outcome

variable {map : List (String × Value)} {v x : Value}

/-! ## Paths -/

inductive Step
  | item (index : Nat)
  | field (key : String)

def Step.escape : Step → Step
  | .item index => .item index
  | .field key => .field (replaceNul key)

def Value.child : Value → Step → Option Value
  | .array items, .item index => items[index]?
  | .object map, .field key => map.lookup key
  | _, _ => none

def Value.find (v : Value) (path : List Step) : Option Value := path.foldlM Value.child v

theorem Value.find_cons (v : Value) (step : Step) (path : List Step) :
    v.find (step :: path) = (v.child step).bind fun x => x.find path := rfl

/-- A node and the one that takes its place: as many children, or the same leaf up to its NULs. -/
def Kept : Value → Value → Prop
  | .null, .null => True
  | .bool b, .bool b' => b' = b
  | .number rendered, .number rendered' => rendered' = rendered
  | .string text, .string text' => text' = replaceNul text
  | .array items, .array items' => items'.length = items.length
  | .object map, .object map' => map'.length = map.length
  | _, _ => False

/-- Every node of the value is found in the escaped one, at the escaped path. -/
def Lossless (v : Value) : Prop :=
  ∀ path x, v.find path = some x →
    ∃ y, (escapeNul v).find (path.map Step.escape) = some y ∧ Kept x y

def escapedKeys (map : List (String × Value)) : List String := map.map fun e => replaceNul e.1

/-! ## One node -/

theorem escapeNul_object (sorted : SortedMap.Sorted map) : escapeNul (.object map) =
      .object (SortedMap.ofList (map.map fun e => (replaceNul e.1, escapeNul e.2))) := by
  rw [escapeNul, escapeNulFields_eq]
  split
  · rw [List.map_map]
    rfl
  · rename_i hkeys
    have hsame : (map.map fun e => (replaceNul e.1, escapeNul e.2)) =
        map.map fun e => (e.1, escapeNul e.2) := by
      refine map_congr_left ?_
      intro e he
      simp only [List.any_eq_true, not_exists, not_and] at hkeys
      rw [replaceNul_eq (Bool.eq_false_of_not_eq_true (hkeys e he))]
    rw [hsame, SortedMap.ofList_of_sorted (sorted_map_values sorted escapeNul)]

theorem kept_object (sorted : SortedMap.Sorted map) :
    Kept (.object map) (escapeNul (.object map)) ↔ (escapedKeys map).Nodup := by
  have hiff := SortedMap.length_ofList_iff (map.map fun e => (replaceNul e.1, escapeNul e.2))
  rw [length_map, List.map_map] at hiff
  rw [escapeNul_object sorted]
  exact hiff

theorem kept_escapeNul (h : v.WellFormed)
    (distinct : ∀ map, v = .object map → (escapedKeys map).Nodup) : Kept v (escapeNul v) := by
  cases h with
  | null | bool | number =>
    simp [escapeNul, Kept]
  | string text =>
    rw [escapeNul]
    split
    · rfl
    · exact (replaceNul_eq (Bool.eq_false_of_not_eq_true ‹_›)).symm
  | array =>
    rw [escapeNul, escapeNuls_eq]
    exact length_map _
  | object sorted _ => exact (kept_object sorted).mpr (distinct _ rfl)

theorem Value.WellFormed.child {step : Step} (h : v.WellFormed)
    (hx : v.child step = some x) : x.WellFormed := by
  cases h with
  | array items =>
    cases step with
    | item index => exact items x (mem_of_getElem? hx)
    | field key => cases hx
  | object sorted values =>
    cases step with
    | item index => cases hx
    | field key => exact values _ (SortedMap.mem_of_lookup hx)
  | _ => cases step <;> cases hx

theorem child_escapeNul {step : Step} (h : v.WellFormed)
    (distinct : ∀ map, v = .object map → (escapedKeys map).Nodup) (hx : v.child step = some x) :
    (escapeNul v).child step.escape = some (escapeNul x) := by
  cases h with
  | array =>
    cases step with
    | item index =>
      rw [escapeNul, escapeNuls_eq]
      simp only [Value.child, Step.escape, getElem?_map] at hx ⊢
      rw [hx]
      rfl
    | field key => cases hx
  | @object map sorted values =>
    cases step with
    | item index => cases hx
    | field key =>
      have hmem := SortedMap.mem_of_lookup hx
      rw [escapeNul_object sorted]
      refine SortedMap.lookup_ofList (List.mem_map.mpr ⟨(key, x), hmem, rfl⟩) ?_
      intro w hw
      obtain ⟨e, he, heq⟩ := List.mem_map.mp hw
      obtain ⟨hkey, rfl⟩ := Prod.mk.inj heq
      rw [inj_on_of_nodup_map (distinct map rfl) he hmem hkey]
  | _ => cases step <;> cases hx

/-! ## Whole values -/

theorem find_escapeNul {path : List Step} (h : v.WellFormed)
    (distinct : ∀ path map, v.find path = some (.object map) → (escapedKeys map).Nodup)
    (hx : v.find path = some x) :
    (escapeNul v).find (path.map Step.escape) = some (escapeNul x) ∧ Kept x (escapeNul x) := by
  induction path generalizing v with
  | nil =>
    cases hx
    refine ⟨rfl, kept_escapeNul h ?_⟩
    rintro map rfl
    exact distinct [] map rfl
  | cons step path ih =>
    rw [Value.find_cons] at hx
    obtain ⟨y, hy, hx⟩ := Option.bind_eq_some_iff.mp hx
    have hchild := child_escapeNul h (by rintro map rfl; exact distinct [] map rfl) hy
    rw [map_cons, Value.find_cons, hchild]
    refine ih (h.child hy) ?_ hx
    intro path map hmap
    refine distinct (step :: path) map ?_
    rw [Value.find_cons, hy]
    exact hmap

theorem Lossless.root (sorted : SortedMap.Sorted map)
    (h : Lossless (.object map)) : (escapedKeys map).Nodup := by
  obtain ⟨y, hy, kept⟩ := h [] _ rfl
  cases hy
  exact (kept_object sorted).mp kept

theorem Lossless.distinct {path : List Step} (h : v.WellFormed)
    (lossless : Lossless v) (hmap : v.find path = some (.object map)) : (escapedKeys map).Nodup := by
  induction path generalizing v with
  | nil =>
    cases hmap
    cases h with
    | object sorted _ => exact lossless.root sorted
  | cons step path ih =>
    rw [Value.find_cons] at hmap
    obtain ⟨y, hy, hmap⟩ := Option.bind_eq_some_iff.mp hmap
    have hchild : (escapeNul v).child step.escape = some (escapeNul y) := by
      refine child_escapeNul h ?_ hy
      rintro map rfl
      cases h with
      | object sorted _ => exact lossless.root sorted
    refine ih (h.child hy) ?_ hmap
    intro path x hx
    have hfound := lossless (step :: path) x (by rw [Value.find_cons, hy]; exact hx)
    rw [map_cons, Value.find_cons, hchild] at hfound
    exact hfound

/-- Escaping loses nothing exactly if it keeps the keys of every object apart. -/
theorem escape_lossless_iff (v : Value) (h : v.WellFormed) :
    Lossless v ↔ ∀ path map, v.find path = some (.object map) → (escapedKeys map).Nodup := by
  constructor
  · intro lossless path map hmap
    exact lossless.distinct h hmap
  · intro distinct path x hx
    exact ⟨escapeNul x, find_escapeNul h distinct hx⟩

def nulKey : Value := .object [("\x00", .null), ("a", .string "\x00")]

theorem nulKey_wellFormed : nulKey.WellFormed := by
  refine .object (pairwise_pair.mpr (by decide)) ?_
  simp only [forall_mem_cons, not_mem_nil, false_implies, implies_true, and_true]
  exact ⟨.null, .string _⟩

theorem nulKey_kept : Lossless nulKey := by
  refine (escape_lossless_iff nulKey nulKey_wellFormed).mpr ?_
  intro path map hmap
  cases path with
  | nil =>
    cases hmap
    decide
  | cons step path =>
    -- Below the root there are leaves only.
    rw [Value.find_cons] at hmap
    obtain ⟨y, hy, hmap⟩ := Option.bind_eq_some_iff.mp hmap
    cases step with
    | item index => cases hy
    | field key =>
      have hmem := SortedMap.mem_of_lookup hy
      simp only [mem_cons, Prod.mk.injEq, not_mem_nil, or_false] at hmem
      obtain ⟨-, rfl⟩ | ⟨-, rfl⟩ := hmem
      all_goals
        cases path with
        | nil => cases hmap
        | cons step path => simp [Value.find_cons, Value.child] at hmap

/-- One key is a NUL and the other one its replacement. -/
def collidingKeys : List (String × Value) := [("\x00", .bool true), ("\\u0000", .bool false)]

theorem colliding_keys_lost : (Value.object collidingKeys).WellFormed ∧
    escapeNul (.object collidingKeys) = .object [("\\u0000", .bool false)] ∧
      ¬ Lossless (.object collidingKeys) := by
  have sorted : SortedMap.Sorted collidingKeys := pairwise_pair.mpr (by decide)
  refine ⟨.object sorted ?_, rfl, ?_⟩
  · simp only [collidingKeys, forall_mem_cons, not_mem_nil, false_implies, implies_true, and_true]
    exact ⟨.bool true, .bool false⟩
  · intro lossless
    exact absurd (lossless.root sorted) (by decide)

end Pgtask.Outcome
