import Mathlib.Tactic.Ring
import Pgtask.Lib.Json

/-! # The `uuid` type, its text and its cast from text -/

namespace Sql

structure Uuid where
  bits : BitVec 128
  deriving DecidableEq, Repr

namespace Uuid

def ofNat (n : Nat) : Uuid := ⟨BitVec.ofNat 128 n⟩

/-- `uuid` values compare by their bytes, so by the number they spell. -/
instance : LE Uuid := ⟨fun a b => a.bits.toNat ≤ b.bits.toNat⟩

instance (a b : Uuid) : Decidable (a ≤ b) := inferInstanceAs (Decidable (a.bits.toNat ≤ b.bits.toNat))

def hexDigits (u : Uuid) : List Char :=
  (List.range 32).map fun i => hexDigit (u.bits.toNat / 16 ^ (31 - i) % 16)

/-- The canonical text: lower-case digits in groups of 8, 4, 4, 4 and 12. -/
def text (u : Uuid) : String :=
  let d := u.hexDigits
  String.ofList <| d.take 8 ++ '-' :: (d.drop 8).take 4 ++ '-' :: (d.drop 12).take 4 ++
    '-' :: (d.drop 16).take 4 ++ '-' :: d.drop 20

theorem text_length (u : Uuid) : u.text.toList.length = 36 := by
  have : u.hexDigits.length = 32 := by simp [hexDigits]
  unfold text
  simp [this]

def hexValue? (c : Char) : Option Nat :=
  if '0' ≤ c ∧ c ≤ '9' then some (c.toNat - 48)
  else if 'a' ≤ c ∧ c ≤ 'f' then some (c.toNat - 87)
  else if 'A' ≤ c ∧ c ≤ 'F' then some (c.toNat - 55)
  else none

/-- Reads the bytes still to come. A hyphen may follow every second byte but the last. -/
def readBytes : Nat → Nat → List Char → Option (Nat × List Char)
  | 0, acc, rest => some (acc, rest)
  | left + 1, acc, hi :: lo :: rest => do
    let h ← hexValue? hi
    let l ← hexValue? lo
    let rest := match rest with
      | '-' :: rest' => if left % 2 = 0 ∧ left ≠ 0 then rest' else rest
      | _ => rest
    readBytes left (acc * 256 + h * 16 + l) rest
  | _ + 1, _, _ => none

/-- The cast from text, braces allowed. `none` is an invalid text. -/
def ofText? (s : String) : Option Uuid :=
  match s.toList with
  | '\x7b' :: rest => match readBytes 16 0 rest with
    | some (n, ['\x7d']) => some (ofNat n)
    | _ => none
  | cs => match readBytes 16 0 cs with
    | some (n, []) => some (ofNat n)
    | _ => none

/-! ## Reading the canonical text -/

theorem hexValue?_hexDigit {d : Nat} (h : d < 16) : hexValue? (hexDigit d) = some d := by
  have all : ∀ d : Fin 16, hexValue? (hexDigit d) = some d.val := by decide
  exact all ⟨d, h⟩

theorem hexDigit_ne {d : Nat} (h : d < 16) : hexDigit d ≠ '-' ∧ hexDigit d ≠ '\x7b' := by
  have all : ∀ d : Fin 16, hexDigit d ≠ '-' ∧ hexDigit d ≠ '\x7b' := by decide
  exact all ⟨d, h⟩

def groupEnd (left : Nat) : Bool := left = 12 || left = 10 || left = 8 || left = 6

def spell (n : Nat) : Nat → List Char
  | 0 => []
  | left + 1 =>
    hexDigit (n / 256 ^ left % 256 / 16) :: hexDigit (n / 256 ^ left % 256 % 16) ::
      (if groupEnd left then '-' :: spell n left else spell n left)

theorem readBytes_step {left acc byte : Nat} (hbyte : byte < 256) (rest : List Char)
    (hrest : rest.head? ≠ some '-') :
    readBytes (left + 1) acc (hexDigit (byte / 16) :: hexDigit (byte % 16) ::
        (if groupEnd left then '-' :: rest else rest)) =
      readBytes left (acc * 256 + byte) rest := by
  have hhi := hexValue?_hexDigit (show byte / 16 < 16 by omega)
  have hlo := hexValue?_hexDigit (show byte % 16 < 16 by omega)
  have hsum : acc * 256 + byte / 16 * 16 + byte % 16 = acc * 256 + byte := by omega
  cases hg : groupEnd left with
  | true =>
    have heven : left % 2 = 0 ∧ left ≠ 0 := by
      simp only [groupEnd, Bool.or_eq_true, decide_eq_true_eq] at hg
      omega
    conv_lhs => unfold readBytes
    simp [hhi, hlo, hsum, heven]
  | false =>
    conv_lhs => unfold readBytes
    cases rest with
    | nil => simp [hhi, hlo, hsum]
    | cons c rest =>
      have hc : c ≠ '-' := by simpa using hrest
      simp [hhi, hlo, hsum, hc]

theorem spell_head (n left : Nat) : (spell n left).head? ≠ some '-' := by
  cases left with
  | zero => simp [spell]
  | succ left =>
    have := (hexDigit_ne (show n / 256 ^ left % 256 / 16 < 16 by omega)).1
    simpa [spell] using this

theorem readBytes_spell (n left acc : Nat) :
    readBytes left acc (spell n left) = some (acc * 256 ^ left + n % 256 ^ left, []) := by
  induction left generalizing acc with
  | zero => simp [readBytes, spell, Nat.mod_one]
  | succ left ih =>
    have hbyte : n / 256 ^ left % 256 < 256 := Nat.mod_lt _ (by decide)
    have hsplit : n % 256 ^ (left + 1) = n % 256 ^ left + 256 ^ left * (n / 256 ^ left % 256) := by
      rw [pow_succ, Nat.mod_mul]
    rw [spell, readBytes_step hbyte _ (spell_head n left), ih, hsplit]
    congr 2
    ring

theorem text_toList (u : Uuid) : u.text.toList = spell u.bits.toNat 16 := by
  have hhigh : ∀ k, u.bits.toNat / 16 ^ (2 * k + 1) % 16 = u.bits.toNat / 256 ^ k % 256 / 16 := by
    intro k
    have h : 16 ^ (2 * k + 1) = 256 ^ k * 16 := by rw [pow_succ, pow_mul]; norm_num
    rw [h, ← Nat.div_div_eq_div_mul]
    omega
  have hlow : ∀ k, u.bits.toNat / 16 ^ (2 * k) % 16 = u.bits.toNat / 256 ^ k % 256 % 16 := by
    intro k
    have h : 16 ^ (2 * k) = 256 ^ k := by rw [pow_mul]; norm_num
    rw [h]
    omega
  unfold text
  rw [String.toList_ofList]
  simp only [spell, ← hhigh, ← hlow]
  rfl

theorem ofText?_text (u : Uuid) : ofText? u.text = some u := by
  unfold ofText?
  rw [text_toList]
  have hread := readBytes_spell u.bits.toNat 16 0
  have hlt : u.bits.toNat < 256 ^ 16 := u.bits.isLt
  rw [Nat.mod_eq_of_lt hlt] at hread
  split
  · rename_i rest heq
    have := (hexDigit_ne (show u.bits.toNat / 256 ^ 15 % 256 / 16 < 16 by omega)).2
    rw [spell] at heq
    exact absurd (List.cons.inj heq).1 this
  · rw [hread]
    simp [ofNat]

example : ofText? (ofNat 0x1234567890abcdef).text = some (ofNat 0x1234567890abcdef) := by decide

end Uuid

end Sql
