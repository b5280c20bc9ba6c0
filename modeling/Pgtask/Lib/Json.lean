import Mathlib.Data.List.Basic
import Mathlib.Data.String.Basic

/-!
# `jsonb` values

The text of a value is what `value::text` prints: `", "` and `": "` as
separators, plain decimals, and escapes only where JSON needs one. An object
lists its fields in storage order, each key once.
-/

namespace Sql

/-- The decimal `unscaled / 10 ^ scale`, with `scale` digits after the point. -/
structure Numeric where
  unscaled : Int
  scale : Nat
  deriving DecidableEq, Repr

inductive Json
  | null
  | bool (b : Bool)
  | num (n : Numeric)
  | str (s : String)
  | arr (xs : List Json)
  | obj (fields : List (String × Json))

/-! ## Equality -/

mutual
def Json.decEq (a b : Json) : Decidable (a = b) :=
  match a with
  | .null => match b with
    | .null => isTrue rfl
    | .bool _ | .num _ | .str _ | .arr _ | .obj _ => isFalse nofun
  | .bool x => match b with
    | .bool y => decidable_of_iff (x = y) (by simp)
    | .null | .num _ | .str _ | .arr _ | .obj _ => isFalse nofun
  | .num x => match b with
    | .num y => decidable_of_iff (x = y) (by simp)
    | .null | .bool _ | .str _ | .arr _ | .obj _ => isFalse nofun
  | .str x => match b with
    | .str y => decidable_of_iff (x = y) (by simp)
    | .null | .bool _ | .num _ | .arr _ | .obj _ => isFalse nofun
  | .arr xs => match b with
    | .arr ys => match Json.decEqList xs ys with
      | isTrue h => isTrue (h ▸ rfl)
      | isFalse h => isFalse fun e => h (Json.arr.inj e)
    | .null | .bool _ | .num _ | .str _ | .obj _ => isFalse nofun
  | .obj fs => match b with
    | .obj gs => match Json.decEqFields fs gs with
      | isTrue h => isTrue (h ▸ rfl)
      | isFalse h => isFalse fun e => h (Json.obj.inj e)
    | .null | .bool _ | .num _ | .str _ | .arr _ => isFalse nofun

def Json.decEqList (xs ys : List Json) : Decidable (xs = ys) :=
  match xs with
  | [] => match ys with
    | [] => isTrue rfl
    | _ :: _ => isFalse nofun
  | x :: xs => match ys with
    | [] => isFalse nofun
    | y :: ys => match Json.decEq x y with
      | isFalse h => isFalse fun e => h (List.cons.inj e).1
      | isTrue h => match Json.decEqList xs ys with
        | isFalse h' => isFalse fun e => h' (List.cons.inj e).2
        | isTrue h' => isTrue (h ▸ h' ▸ rfl)

def Json.decEqFields (fs gs : List (String × Json)) : Decidable (fs = gs) :=
  match fs with
  | [] => match gs with
    | [] => isTrue rfl
    | _ :: _ => isFalse nofun
  | (k, x) :: fs => match gs with
    | [] => isFalse nofun
    | (l, y) :: gs => match Json.decEq x y with
      | isFalse h => isFalse fun e => h (Prod.mk.inj (List.cons.inj e).1).2
      | isTrue h => match Json.decEqFields fs gs with
        | isFalse h' => isFalse fun e => h' (List.cons.inj e).2
        | isTrue h' => decidable_of_iff (k = l) (by simp [h, h'])
end

instance : DecidableEq Json := Json.decEq

/-! ## Text -/

def hexDigit (n : Nat) : Char :=
  if n < 10 then Char.ofNat (48 + n) else Char.ofNat (87 + n)

/-- A control character becomes a short escape or `\u` and four hex digits. -/
def escapeChar (c : Char) : List Char :=
  if c = '"' then ['\\', '"']
  else if c = '\\' then ['\\', '\\']
  else if c.toNat = 8 then ['\\', 'b']
  else if c.toNat = 12 then ['\\', 'f']
  else if c = '\n' then ['\\', 'n']
  else if c = '\r' then ['\\', 'r']
  else if c = '\t' then ['\\', 't']
  else if c.toNat < 32 then ['\\', 'u', '0', '0', hexDigit (c.toNat / 16), hexDigit (c.toNat % 16)]
  else [c]

def quoted (s : String) : String :=
  "\"" ++ String.ofList (s.toList.flatMap escapeChar) ++ "\""

def padLeft (n : Nat) (s : List Char) : List Char := List.replicate (n - s.length) '0' ++ s

/-- The integer part, then `scale` digits after the point if there are any. -/
def Numeric.text (n : Numeric) : String :=
  let digits := padLeft (n.scale + 1) (Nat.toDigits 10 n.unscaled.natAbs)
  let whole := digits.take (digits.length - n.scale)
  let fraction := digits.drop (digits.length - n.scale)
  String.ofList <| (if n.unscaled < 0 then ['-'] else []) ++ whole ++
    (if n.scale = 0 then [] else '.' :: fraction)

mutual
def Json.text : Json → String
  | .null => "null"
  | .bool b => if b then "true" else "false"
  | .num n => n.text
  | .str s => quoted s
  | .arr xs => "[" ++ ", ".intercalate (Json.texts xs) ++ "]"
  | .obj fields => "\x7b" ++ ", ".intercalate (Json.fieldTexts fields) ++ "\x7d"

def Json.texts : List Json → List String
  | [] => []
  | x :: xs => x.text :: Json.texts xs

def Json.fieldTexts : List (String × Json) → List String
  | [] => []
  | (k, v) :: fields => (quoted k ++ ": " ++ v.text) :: Json.fieldTexts fields
end

def Json.octetLength (j : Json) : Nat := j.text.utf8ByteSize

example : (Json.obj [("a", .str "x\n"), ("b", .num ⟨-105, 2⟩)]).text =
    "\x7b\"a\": \"x\\n\", \"b\": -1.05\x7d" := by decide

def Json.isObject : Json → Bool
  | .obj _ => true
  | _ => false

/-- `value ->> field`: `none` is SQL's NULL. -/
def Json.fieldText (j : Json) (field : String) : Option String :=
  match j with
  | .obj fields => match fields.lookup field with
    | some .null => none
    | some (.str s) => some s
    | some v => some v.text
    | none => none
  | _ => none

def Json.ofOption : Option Json → Json
  | some j => j
  | none => .null

/-! ## Sizes -/

theorem escapeChar_length (c : Char) : (escapeChar c).length ≤ 6 := by
  unfold escapeChar
  repeat' split
  all_goals simp

theorem utf8Len_le (cs : List Char) : String.utf8Len cs ≤ 4 * cs.length := by
  induction cs with
  | nil => simp
  | cons c cs ih =>
    have := c.utf8Size_le_four
    rw [String.utf8Len_cons, List.length_cons]
    omega

theorem quoted_size_le (s : String) : (quoted s).utf8ByteSize ≤ 24 * s.toList.length + 2 := by
  have hescaped : (s.toList.flatMap escapeChar).length ≤ 6 * s.toList.length := by
    induction s.toList with
    | nil => simp
    | cons c cs ih =>
      have := escapeChar_length c
      rw [List.flatMap_cons, List.length_append, List.length_cons]
      omega
  have hsize := utf8Len_le (s.toList.flatMap escapeChar)
  have hbody := String.utf8ByteSize_ofList (s.toList.flatMap escapeChar)
  have hquote : "\"".utf8ByteSize = 1 := by decide +kernel
  unfold quoted
  rw [String.utf8ByteSize_append, String.utf8ByteSize_append]
  omega

end Sql
