import Mathlib.Data.List.Induction
import Mathlib.Data.Nat.Digits.Defs
import Mathlib.Data.String.Basic

/-! # Decimal texts of numbers -/

open List

namespace Decimal

def value (cs : List Char) : Nat := Nat.ofDigits 10 (cs.reverse.map fun c => c.toNat - 48)

theorem value_concat (cs : List Char) (c : Char) : value (cs ++ [c]) = c.toNat - 48 + 10 * value cs := by
  simp [value, Nat.ofDigits_cons]

theorem digitChar_toNat {d : Nat} (h : d < 10) : d.digitChar.toNat - 48 = d := by
  have all : ∀ d : Fin 10, (d : Nat).digitChar.toNat - 48 = d := by decide
  exact all ⟨d, h⟩

theorem value_toDigits (n : Nat) : value (Nat.toDigits 10 n) = n := by
  induction n using Nat.strongRecOn with
  | _ n ih =>
    rw [Nat.toDigits_eq_if (by decide)]
    split
    · rename_i h
      simp [value, digitChar_toNat h]
    · rw [value_concat, ih (n / 10) (by omega), digitChar_toNat (Nat.mod_lt n (by decide))]
      omega

theorem value_append (cs ds : List Char) : value (cs ++ ds) = value cs * 10 ^ ds.length + value ds := by
  simp [value, Nat.ofDigits_append]
  ring

theorem value_lt {cs : List Char} (h : ∀ c ∈ cs, c.isDigit = true) : value cs < 10 ^ cs.length := by
  induction cs using List.reverseRecOn with
  | nil => simp [value]
  | append_singleton cs c ih =>
    simp only [mem_append, mem_singleton] at h
    have hcs := ih fun c hc => h c (.inl hc)
    have hc := h c (.inr rfl)
    simp only [Char.isDigit, Bool.and_eq_true, decide_eq_true_eq, UInt32.le_iff_toNat_le] at hc
    have hle : c.toNat ≤ 57 := hc.2
    rw [value_concat, length_append, length_singleton, Nat.pow_succ]
    omega

theorem le_value {c : Char} (cs : List Char) (hc : c.isDigit = true) (hzero : c ≠ '0') :
    10 ^ cs.length ≤ value (c :: cs) := by
  have hpositive : 1 ≤ value [c] := by
    simp only [Char.isDigit, Bool.and_eq_true, decide_eq_true_eq, UInt32.le_iff_toNat_le] at hc
    have hle : 48 ≤ c.toNat := hc.1
    have hne : c.toNat ≠ 48 := by
      intro h
      exact hzero (Char.toNat_inj.mp h)
    simp [value]
    omega
  have happend := value_append [c] cs
  rw [singleton_append] at happend
  rw [happend]
  exact Nat.le_add_right_of_le (Nat.le_mul_of_pos_left _ hpositive)

theorem length_toDigits {n k : Nat} (hle : 10 ^ k ≤ n) (hlt : n < 10 ^ (k + 1)) :
    (Nat.toDigits 10 n).length = k + 1 := by
  have hupper := (Nat.length_toDigits_le_iff (b := 10) (by decide) (Nat.succ_pos k)).mpr hlt
  refine Nat.le_antisymm hupper ?_
  by_contra hshort
  cases k with
  | zero =>
    exact hshort (length_pos_iff.mpr Nat.toDigits_ne_nil)
  | succ k =>
    have hsmall := (Nat.length_toDigits_le_iff (b := 10) (by decide) (Nat.succ_pos k)).mp
      (Nat.le_of_lt_succ (Nat.lt_of_not_le hshort))
    omega

theorem length_toDigits_div {n k s : Nat} (hle : 10 ^ k ≤ n) (hlt : n < 10 ^ (k + 1)) :
    (Nat.toDigits 10 (n / 10 ^ s)).length = max (k + 1 - s) 1 := by
  by_cases hs : s ≤ k
  · have hsplit : 10 ^ k = 10 ^ (k - s) * 10 ^ s := by
      rw [← Nat.pow_add, Nat.sub_add_cancel hs]
    have hsplit' : 10 ^ (k + 1) = 10 ^ (k - s + 1) * 10 ^ s := by
      rw [← Nat.pow_add]
      congr 1
      omega
    have hpos : 0 < 10 ^ s := Nat.pow_pos (by decide)
    rw [length_toDigits ((Nat.le_div_iff_mul_le hpos).mpr (hsplit ▸ hle))
      ((Nat.div_lt_iff_lt_mul hpos).mpr (hsplit' ▸ hlt))]
    omega
  · have hzero : n / 10 ^ s = 0 :=
      Nat.div_eq_of_lt (hlt.trans_le (Nat.pow_le_pow_right (by decide) (by omega)))
    rw [hzero, Nat.max_eq_right (by omega)]
    rfl

theorem length_toDigits_shift {n k : Nat} (hle : 10 ^ k ≤ n) (hlt : n < 10 ^ (k + 1)) (shift : Int) :
    (Nat.toDigits 10 (n * 10 ^ shift.toNat / 10 ^ (-shift).toNat)).length =
      (max (k + 1 + shift) 1).toNat := by
  by_cases hshift : 0 ≤ shift
  · have hpos : 0 < 10 ^ shift.toNat := Nat.pow_pos (by decide)
    rw [Int.toNat_of_nonpos (by omega : -shift ≤ 0), Nat.pow_zero, Nat.div_one,
      @length_toDigits _ (k + shift.toNat)]
    · omega
    · rw [Nat.pow_add]
      exact Nat.mul_le_mul_right _ hle
    · rw [Nat.add_right_comm, Nat.pow_add]
      exact Nat.mul_lt_mul_of_pos_right hlt hpos
  · rw [Int.toNat_of_nonpos (by omega : shift ≤ 0), Nat.pow_zero, Nat.mul_one, length_toDigits_div hle hlt]
    omega

theorem repr_toList (n : Nat) : n.repr.toList = Nat.toDigits 10 n := by
  rw [Nat.repr_eq_ofList_toDigits, String.toList_ofList]

theorem isDigit_of_mem_repr {n : Nat} {c : Char} (h : c ∈ n.repr.toList) : c.isDigit = true := by
  rw [repr_toList] at h
  exact Nat.isDigit_of_mem_toDigits (by decide) (by decide) h

theorem repr_inj {n m : Nat} (h : n.repr.toList = m.repr.toList) : n = m := by
  rw [repr_toList, repr_toList] at h
  rw [← value_toDigits n, h, value_toDigits]

theorem int_toList (n : Int) : (toString n).toList = (if n < 0 then ['-'] else []) ++ n.natAbs.repr.toList := by
  cases n with
  | ofNat m => rfl
  | negSucc m =>
    show ("-" ++ (m + 1).repr).toList = _
    rw [String.toList_append, if_pos (Int.negSucc_lt_zero m)]
    rfl

theorem int_inj {n m : Int} (h : (toString n).toList = (toString m).toList) : n = m := by
  have unsigned : ∀ (k : Nat) cs, k.repr.toList ≠ '-' :: cs := by
    intro k cs hk
    exact absurd (isDigit_of_mem_repr (c := '-') (hk ▸ mem_cons_self)) (by decide)
  rw [int_toList, int_toList] at h
  split at h <;> split at h
  · have := repr_inj (List.append_cancel_left h)
    omega
  · exact absurd h.symm (unsigned _ _)
  · exact absurd h (unsigned _ _)
  · have := repr_inj h
    omega

end Decimal
