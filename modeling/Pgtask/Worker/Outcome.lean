import Mathlib.Data.Nat.Digits.Defs
import Mathlib.Data.String.Basic
import Pgtask.Lib.SortedMap

/-!
# Outcomes of handlers

What a handler returns may hold characters that `jsonb` rejects or be too large
for its column. `outcome.rs` escapes the characters, measures the value as
PostgreSQL would print it, and shortens or replaces what does not fit.
-/

open List

namespace Pgtask.Outcome

variable {P : Value → Prop} {v error : Value} {text key : String} {cs : List Char}

/-! ## Values -/

/-- A value of `serde_json`. A number stands for what `Display` prints of it, and the entries of an
object are in the order of their keys. -/
inductive Value
  | null
  | bool (b : Bool)
  | number (rendered : String)
  | string (text : String)
  | array (items : List Value)
  | object (map : List (String × Value))

def Value.get (v : Value) (key : String) : Option Value :=
  match v with
  | .object map => map.lookup key
  | _ => none

/-- `json!(n)` of a `usize`. -/
def ofUsize (n : Nat) : Value := .number (Nat.repr (n % 2 ^ 64))

def json (entries : List (String × Value)) : Value := .object (SortedMap.ofList entries)

/-! ## Sizes -/

def splitOnce (p : Char → Bool) : List Char → Option (List Char × List Char)
  | [] => none
  | c :: cs => if p c then some ([], cs) else (splitOnce p cs).map fun (before, after) => (c :: before, after)

def toI64 (n : Int) : Option Int :=
  if -9223372036854775808 ≤ n ∧ n ≤ 9223372036854775807 then some n else none

def saturate (n : Int) : Int := max (-9223372036854775808) (min n 9223372036854775807)

def parseDigits (cs : List Char) : Option Nat :=
  if cs ≠ [] && cs.all Char.isDigit then
    some (Nat.ofDigits 10 (cs.reverse.map fun c => c.toNat - 48))
  else none

def parseI64 : List Char → Option Int
  | '-' :: cs => (parseDigits cs).bind fun n => toI64 (-n)
  | '+' :: cs => (parseDigits cs).bind fun n => toI64 n
  | cs => (parseDigits cs).bind fun n => toI64 n

/-- `numeric_out` never prints an exponent. -/
def numericTextLen (rendered : String) : Nat :=
  match splitOnce (fun c => c = 'e' || c = 'E') rendered.toList with
  | none => rendered.utf8ByteSize
  | some (mantissa, exponent) => match parseI64 exponent with
    | none => rendered.utf8ByteSize
    | some exponent =>
      let sign := if mantissa.head? = some '-' then 1 else 0
      let mantissa := mantissa.dropWhile fun c => c = '-' || c = '+'
      let (integer, fraction) := (splitOnce (· = '.') mantissa).getD (mantissa, [])
      let scale := max (saturate (String.utf8Len fraction - exponent)) 0
      let integerDigits := max (saturate (String.utf8Len integer + exponent)) 1
      let digits := saturate (integerDigits + if 0 < scale then scale + 1 else 0)
      sign + digits.toNat

def charLen (c : Char) : Nat :=
  if ['"', '\\', '\x08', '\x0c', '\n', '\r', '\t'].contains c then 2
  else if c.toNat < 32 then 6
  else c.utf8Size

def jsonbStringLen (text : String) : Nat := 2 + (text.toList.map charLen).sum

mutual
def jsonbTextLen : Value → Nat
  | .null | .bool true => 4
  | .bool false => 5
  | .number rendered => numericTextLen rendered
  | .string text => jsonbStringLen text
  | .array items => 2 + jsonbTextLens items + 2 * (items.length - 1)
  | .object map => 2 + jsonbFieldLens map + 2 * (map.length - 1)

def jsonbTextLens : List Value → Nat
  | [] => 0
  | v :: vs => jsonbTextLen v + jsonbTextLens vs

def jsonbFieldLens : List (String × Value) → Nat
  | [] => 0
  | (key, item) :: fields => jsonbStringLen key + 2 + jsonbTextLen item + jsonbFieldLens fields
end

mutual
def longestString : Value → Nat
  | .null | .bool _ | .number _ => 0
  | .string text => text.utf8ByteSize
  | .array items => longestOf items
  | .object map => longestField map

def longestOf : List Value → Nat
  | [] => 0
  | v :: vs => max (longestString v) (longestOf vs)

def longestField : List (String × Value) → Nat
  | [] => 0
  | (_, v) :: fields => max (longestString v) (longestField fields)
end

/-! ## NUL characters -/

def replaceNul (text : String) : String :=
  String.ofList (text.toList.flatMap fun c => if c = '\x00' then "\\u0000".toList else [c])

def hasNul (text : String) : Bool := text.toList.contains '\x00'

mutual
/-- The new keys of an object depend on its keys only, so its values may come first. -/
def escapeNul : Value → Value
  | .string text => .string (if hasNul text then replaceNul text else text)
  | .array items => .array (escapeNuls items)
  | .object map =>
    let escaped := escapeNulFields map
    if map.any fun e => hasNul e.1 then
      .object (SortedMap.ofList (escaped.map fun e => (replaceNul e.1, e.2)))
    else .object escaped
  | .null => .null
  | .bool b => .bool b
  | .number rendered => .number rendered

def escapeNuls : List Value → List Value
  | [] => []
  | v :: vs => escapeNul v :: escapeNuls vs

def escapeNulFields : List (String × Value) → List (String × Value)
  | [] => []
  | (key, v) :: fields => (key, escapeNul v) :: escapeNulFields fields
end

/-! ## Shorter strings -/

def isCharBoundary : List Char → Nat → Bool
  | _, 0 => true
  | [], _ + 1 => false
  | c :: cs, n + 1 => c.utf8Size ≤ n + 1 && isCharBoundary cs (n + 1 - c.utf8Size)

/-- The loop of `truncate_string`: the last boundary up to `n`. -/
def lastBoundary (cs : List Char) : Nat → Nat
  | 0 => 0
  | n + 1 => if isCharBoundary cs (n + 1) then n + 1 else lastBoundary cs n

def truncate : List Char → Nat → List Char
  | [], _ => []
  | c :: cs, n => if c.utf8Size ≤ n then c :: truncate cs (n - c.utf8Size) else []

def ellipsis : String := "…"

/-- At most `cap` bytes of the text, and a mark if anything was cut. -/
def truncateString (text : String) (cap : Nat) : String :=
  if text.utf8ByteSize ≤ cap then text
  else String.ofList (truncate text.toList (lastBoundary text.toList cap)) ++ ellipsis

mutual
/-- Applies `f` to every string, but to no key. -/
def mapStrings (f : String → String) : Value → Value
  | .string text => .string (f text)
  | .array items => .array (mapStringsOf f items)
  | .object map => .object (mapStringsFields f map)
  | .null => .null
  | .bool b => .bool b
  | .number rendered => .number rendered

def mapStringsOf (f : String → String) : List Value → List Value
  | [] => []
  | v :: vs => mapStrings f v :: mapStringsOf f vs

def mapStringsFields (f : String → String) : List (String × Value) → List (String × Value)
  | [] => []
  | (key, v) :: fields => (key, mapStrings f v) :: mapStringsFields f fields
end

def capStrings (v : Value) (cap : Nat) : Value := mapStrings (truncateString · cap) v

/-! ## Outcomes -/

def resultLimitBytes : Nat := 1048576

def errorLimitBytes : Nat := 262144

inductive PreparedResult
  | result (v : Value)
  | tooLarge (error : Value)

def prepareResult (result : Value) : PreparedResult :=
  let result := escapeNul result
  let bytes := jsonbTextLen result
  if bytes ≤ resultLimitBytes then .result result
  else .tooLarge (json [("type", .string "result_too_large"), ("bytes", ofUsize bytes),
    ("limit", ofUsize resultLimitBytes)])

/-- The entries of an object, and of anything else under the key `value`. -/
def entries : Value → List (String × Value)
  | .object map => map
  | other => [("value", other)]

def marked (bytes : Nat) (v : Value) : Value :=
  .object (SortedMap.insert "original_bytes" (ofUsize bytes)
    (SortedMap.insert "truncated" (.bool true) (entries v)))

def candidate (error : Value) (bytes cap : Nat) : Value := marked bytes (capStrings error cap)

def fits (error : Value) (bytes cap : Nat) : Option Value :=
  if jsonbTextLen (candidate error bytes cap) ≤ errorLimitBytes then some (candidate error bytes cap)
  else none

/-- The loop of `truncate_error`, once a first candidate fits. -/
def searchCap (fits : Nat → Option Value) (low high : Nat) (best : Value) : Value :=
  if low < high then
    let middle := low + (high - low + 1) / 2
    match fits middle with
    | some candidate => searchCap fits middle high candidate
    | none => searchCap fits low (middle - 1) best
  else best
termination_by high - low

/-- `Value::as_str` of the field `type`, if it is short. -/
def errorType (error : Value) : Option String :=
  match error.get "type" with
  | some (.string kind) => if kind.utf8ByteSize ≤ 255 then some kind else none
  | _ => none

def retryable (error : Value) : Option Bool :=
  match error.get "retryable" with
  | some (.bool b) => some b
  | _ => none

def summaryFields (error : Value) (bytes : Nat) : List (String × Value) :=
  SortedMap.ofList [("type", .string ((errorType error).getD "handler_error")),
    ("truncated", .bool true), ("original_bytes", ofUsize bytes)]

/-- What is left of an error that no shorter strings make fit. -/
def summary (error : Value) (bytes : Nat) : Value :=
  match retryable error with
  | some b => .object (SortedMap.insert "retryable" (.bool b) (summaryFields error bytes))
  | none => .object (summaryFields error bytes)

def truncateError (error : Value) (bytes : Nat) : Value :=
  match fits error bytes 0 with
  | some best => searchCap (fits error bytes) 0 (longestString error) best
  | none => summary error bytes

def prepareError (error : Value) : Value :=
  let error := escapeNul error
  let bytes := jsonbTextLen error
  if bytes ≤ errorLimitBytes then error else truncateError error bytes

/-- The error for a value that PostgreSQL rejects all the same. -/
def rejectedValueError (kind message : String) : Value :=
  json [("type", .string kind), ("message", .string (truncateString (replaceNul message) 4096))]

/-! ## Induction -/

@[elab_as_elim]
theorem Value.induct (null : P .null) (bool : ∀ b, P (.bool b))
    (number : ∀ rendered, P (.number rendered)) (string : ∀ text, P (.string text))
    (array : ∀ items, (∀ x ∈ items, P x) → P (.array items))
    (object : ∀ map : List (String × Value), (∀ e ∈ map, P e.2) → P (.object map)) (v : Value) : P v :=
  @Value.rec P (fun items => ∀ x ∈ items, P x) (fun map => ∀ e ∈ map, P e.2) (fun e => P e.2)
    null bool number string array object
    (fun _ h => absurd h not_mem_nil)
    (fun _ _ hv hvs => forall_mem_cons.mpr ⟨hv, hvs⟩)
    (fun _ h => absurd h not_mem_nil)
    (fun _ _ he hes => forall_mem_cons.mpr ⟨he, hes⟩)
    (fun _ _ h => h) v

theorem escapeNuls_eq (items : List Value) : escapeNuls items = items.map escapeNul := by
  induction items with
  | nil => rfl
  | cons v vs ih => rw [escapeNuls, ih, map_cons]

theorem escapeNulFields_eq (map : List (String × Value)) :
    escapeNulFields map = map.map fun e => (e.1, escapeNul e.2) := by
  induction map with
  | nil => rfl
  | cons e fields ih => rw [escapeNulFields, ih, map_cons]

theorem mapStringsOf_eq (f : String → String) (items : List Value) :
    mapStringsOf f items = items.map (mapStrings f) := by
  induction items with
  | nil => rfl
  | cons v vs ih => rw [mapStringsOf, ih, map_cons]

theorem mapStringsFields_eq (f : String → String) (map : List (String × Value)) :
    mapStringsFields f map = map.map fun e => (e.1, mapStrings f e.2) := by
  induction map with
  | nil => rfl
  | cons e fields ih => rw [mapStringsFields, ih, map_cons]

theorem jsonbTextLens_eq (items : List Value) : jsonbTextLens items = (items.map jsonbTextLen).sum := by
  induction items with
  | nil => rfl
  | cons v vs ih => rw [jsonbTextLens, ih, map_cons, sum_cons]

theorem jsonbFieldLens_eq (map : List (String × Value)) :
    jsonbFieldLens map = (map.map fun e => jsonbStringLen e.1 + 2 + jsonbTextLen e.2).sum := by
  induction map with
  | nil => rfl
  | cons e fields ih => rw [jsonbFieldLens, ih, map_cons, sum_cons]

/-! ## Values without NUL -/

inductive Value.NulFree : Value → Prop
  | null : NulFree .null
  | bool (b : Bool) : NulFree (.bool b)
  | number (rendered : String) : NulFree (.number rendered)
  | string {text : String} (h : hasNul text = false) : NulFree (.string text)
  | array {items : List Value} (h : ∀ x ∈ items, x.NulFree) : NulFree (.array items)
  | object {map : List (String × Value)} (keys : ∀ e ∈ map, hasNul e.1 = false)
      (values : ∀ e ∈ map, e.2.NulFree) : NulFree (.object map)

theorem hasNul_replaceNul (text : String) : hasNul (replaceNul text) = false := by
  unfold hasNul replaceNul
  rw [String.toList_ofList, contains_eq_mem, decide_eq_false_iff_not]
  simp only [mem_flatMap, not_exists, not_and]
  intro c _ h
  split at h
  · revert h
    decide
  · rename_i hc
    exact hc (mem_singleton.mp h).symm

theorem escapeNul_nulFree (v : Value) : (escapeNul v).NulFree := by
  induction v using Value.induct with
  | null => exact .null
  | bool b => exact .bool b
  | number rendered => exact .number rendered
  | string text =>
    rw [escapeNul]
    refine .string ?_
    split
    · exact hasNul_replaceNul text
    · exact Bool.eq_false_of_not_eq_true ‹_›
  | array items ih =>
    rw [escapeNul, escapeNuls_eq]
    exact .array (List.forall_mem_map.mpr ih)
  | object map ih =>
    rw [escapeNul, escapeNulFields_eq]
    have hvalues : ∀ e ∈ map.map fun e => (e.1, escapeNul e.2), e.2.NulFree := List.forall_mem_map.mpr ih
    split
    · refine .object (fun e he => ?_) fun e he => ?_
      · obtain ⟨a, -, rfl⟩ := List.mem_map.mp (SortedMap.mem_ofList he)
        exact hasNul_replaceNul a.1
      · obtain ⟨a, ha, rfl⟩ := List.mem_map.mp (SortedMap.mem_ofList he)
        exact hvalues a ha
    · rename_i hkeys
      refine .object (List.forall_mem_map.mpr fun e he => ?_) hvalues
      simp only [List.any_eq_true, not_exists, not_and] at hkeys
      exact Bool.eq_false_of_not_eq_true (hkeys e he)

theorem escapeNul_eq (h : v.NulFree) : escapeNul v = v := by
  induction h with
  | null | bool | number => rfl
  | string h => rw [escapeNul, h]; rfl
  | array _ ih => rw [escapeNul, escapeNuls_eq, map_congr_left ih, List.map_id']
  | @object map keys _ ih =>
    have hkeys : (map.any fun e => hasNul e.1) = false := by
      rw [List.any_eq_false]
      exact fun e he => by rw [keys e he]; decide
    have hvalues : (map.map fun e => (e.1, escapeNul e.2)) = map := by
      rw [map_congr_left (g := id) fun e he => by rw [ih e he]; rfl, List.map_id]
    rw [escapeNul, escapeNulFields_eq, hvalues, hkeys]
    rfl

theorem mapStrings_nulFree {f : String → String} (hf : ∀ text, hasNul text = false → hasNul (f text) = false) (h : v.NulFree) : (mapStrings f v).NulFree := by
  induction h with
  | null => exact .null
  | bool b => exact .bool b
  | number rendered => exact .number rendered
  | string h => exact .string (hf _ h)
  | array _ ih =>
    rw [mapStrings, mapStringsOf_eq]
    exact .array (List.forall_mem_map.mpr ih)
  | object keys _ ih =>
    rw [mapStrings, mapStringsFields_eq]
    exact .object (List.forall_mem_map.mpr keys) (List.forall_mem_map.mpr ih)

theorem truncate_sublist (cs : List Char) (n : Nat) : (truncate cs n).Sublist cs := by
  induction cs generalizing n with
  | nil => exact .slnil
  | cons c cs ih =>
    unfold truncate
    split
    · exact (ih _).cons_cons c
    · exact List.nil_sublist _

theorem truncateString_nul (h : hasNul text = false) (cap : Nat) :
    hasNul (truncateString text cap) = false := by
  unfold truncateString
  split
  · exact h
  · unfold hasNul at h ⊢
    simp only [contains_eq_mem, decide_eq_false_iff_not] at h ⊢
    rw [String.toList_append, String.toList_ofList, mem_append, not_or]
    exact ⟨fun hmem => h ((truncate_sublist _ _).subset hmem), by decide⟩

theorem ownKeys_nul : ∀ key ∈ ["bytes", "limit", "message", "original_bytes", "retryable", "truncated",
    "type", "value"], hasNul key = false := by
  decide

theorem marked_nulFree (h : v.NulFree) (bytes : Nat) : (marked bytes v).NulFree := by
  have hentries : (∀ e ∈ entries v, hasNul e.1 = false) ∧ ∀ e ∈ entries v, e.2.NulFree := by
    cases h with
    | object keys values => exact ⟨keys, values⟩
    | _ =>
      refine ⟨forall_mem_singleton.mpr (ownKeys_nul "value" (by decide)), forall_mem_singleton.mpr ?_⟩
      constructor <;> assumption
  have hcases : ∀ e, e ∈ SortedMap.insert "original_bytes" (ofUsize bytes)
      (SortedMap.insert "truncated" (.bool true) (entries v)) →
      e = ("original_bytes", ofUsize bytes) ∨ e = ("truncated", .bool true) ∨ e ∈ entries v :=
    fun e he => (SortedMap.mem_insert he).imp_right SortedMap.mem_insert
  refine .object (fun e he => ?_) fun e he => ?_
  · rcases hcases e he with rfl | rfl | he
    · exact ownKeys_nul "original_bytes" (by decide)
    · exact ownKeys_nul "truncated" (by decide)
    · exact hentries.1 e he
  · rcases hcases e he with rfl | rfl | he
    · exact .number _
    · exact .bool true
    · exact hentries.2 e he

theorem candidate_nulFree (h : error.NulFree) (bytes cap : Nat) :
    (candidate error bytes cap).NulFree :=
  marked_nulFree (mapStrings_nulFree (fun _ htext => truncateString_nul htext cap) h) bytes

/-! ## Objects with distinct keys -/

/-- Every object lists its keys in order. -/
inductive Value.WellFormed : Value → Prop
  | null : WellFormed .null
  | bool (b : Bool) : WellFormed (.bool b)
  | number (rendered : String) : WellFormed (.number rendered)
  | string (text : String) : WellFormed (.string text)
  | array {items : List Value} (h : ∀ x ∈ items, x.WellFormed) : WellFormed (.array items)
  | object {map : List (String × Value)} (sorted : SortedMap.Sorted map)
      (values : ∀ e ∈ map, e.2.WellFormed) : WellFormed (.object map)

theorem sorted_map_values {ν μ : Type} {map : List (String × ν)} (h : SortedMap.Sorted map) (f : ν → μ) :
    SortedMap.Sorted (map.map fun e => (e.1, f e.2)) :=
  pairwise_map.mpr h

/-! ## The field `retryable` -/

theorem lookup_map_values {ν μ : Type} (f : ν → μ) (map : List (String × ν)) (key : String) :
    (map.map fun e => (e.1, f e.2)).lookup key = (map.lookup key).map f := by
  induction map with
  | nil => rfl
  | cons e rest ih =>
    rw [map_cons, SortedMap.lookup_entry, SortedMap.lookup_entry, ih]
    split <;> rfl

theorem replaceNul_eq (h : hasNul text = false) : replaceNul text = text := by
  unfold hasNul at h
  simp only [contains_eq_mem, decide_eq_false_iff_not] at h
  have hsame : (text.toList.flatMap fun c => if c = '\x00' then "\\u0000".toList else [c]) = text.toList := by
    have hchar : ∀ c ∈ text.toList, (if c = '\x00' then "\\u0000".toList else [c]) = [c] := by
      intro c hc
      rw [if_neg]
      rintro rfl
      exact h hc
    rw [List.flatMap_congr hchar, List.flatMap_singleton']
  unfold replaceNul
  rw [hsame, String.ofList_toList]

theorem backslash_of_replaceNul (h : hasNul text = true) : '\\' ∈ (replaceNul text).toList := by
  unfold hasNul at h
  rw [contains_eq_mem, decide_eq_true_eq] at h
  unfold replaceNul
  rw [String.toList_ofList, mem_flatMap]
  exact ⟨_, h, by decide⟩

theorem escapeNul_get {w : Value} (h : v.WellFormed) (hkey : '\\' ∉ key.toList)
    (hnul : hasNul key = false) (hget : v.get key = some w) : (escapeNul v).get key = some (escapeNul w) := by
  cases h with
  | @object map sorted values =>
    have hlookup : map.lookup key = some w := hget
    have hescaped : (map.map fun e => (e.1, escapeNul e.2)).lookup key = some (escapeNul w) := by
      rw [lookup_map_values, hlookup]
      rfl
    rw [escapeNul, escapeNulFields_eq]
    split
    · refine SortedMap.lookup_ofList (List.mem_map.mpr ⟨_, SortedMap.mem_of_lookup hescaped, ?_⟩) fun u hu => ?_
      · rw [replaceNul_eq hnul]
      · obtain ⟨a, ha, hu⟩ := List.mem_map.mp hu
        obtain ⟨e, he, rfl⟩ := List.mem_map.mp ha
        obtain ⟨hkey', rfl⟩ := Prod.mk.inj hu
        -- The key of the entry had no NUL, so it is the key.
        have hfree : hasNul e.1 = false := by
          rw [← Bool.not_eq_true]
          intro h
          exact hkey (hkey' ▸ backslash_of_replaceNul h)
        rw [replaceNul_eq hfree] at hkey'
        have := SortedMap.lookup_of_mem sorted he
        rw [hkey', hlookup] at this
        rw [Option.some.inj this]
    · exact hescaped
  | _ => cases hget

/-! ## Sizes -/

theorem splitOnce_eq_none {p : Char → Bool} (h : ∀ c ∈ cs, p c = false) :
    splitOnce p cs = none := by
  induction cs with
  | nil => rfl
  | cons c cs ih =>
    obtain ⟨hc, hcs⟩ := forall_mem_cons.mp h
    rw [splitOnce, hc, ih hcs]
    rfl

theorem isDigit_ne {c : Char} (h : c.isDigit = true) : c ≠ 'e' ∧ c ≠ 'E' := by
  constructor <;> (rintro rfl; exact absurd h (by decide))

theorem isDigit_size {c : Char} (h : c.isDigit = true) : c.utf8Size = 1 := by
  unfold Char.isDigit at h
  rw [Bool.and_eq_true, decide_eq_true_eq, decide_eq_true_eq] at h
  unfold Char.utf8Size
  exact if_pos (UInt32.le_trans h.2 (by decide))

theorem utf8Len_of_size (h : ∀ c ∈ cs, c.utf8Size = 1) : String.utf8Len cs = cs.length := by
  induction cs with
  | nil => rfl
  | cons c cs ih =>
    obtain ⟨hc, hcs⟩ := forall_mem_cons.mp h
    rw [String.utf8Len_cons, ih hcs, hc, length_cons]

theorem utf8Len_digits (h : ∀ c ∈ cs, c.isDigit = true) : String.utf8Len cs = cs.length :=
  utf8Len_of_size fun c hc => isDigit_size (h c hc)

theorem ofUsize_len (n : Nat) : jsonbTextLen (ofUsize n) ≤ 20 := by
  have hlt : n % 2 ^ 64 < 10 ^ 20 := lt_trans (Nat.mod_lt n (by decide)) (by decide)
  have hlength := (Nat.length_toDigits_le_iff (b := 10) (by decide) (by decide)).mpr hlt
  have hdigit : ∀ c ∈ Nat.toDigits 10 (n % 2 ^ 64), c.isDigit = true :=
    fun c hc => Nat.isDigit_of_mem_toDigits (by decide) (by decide) hc
  have hsplit : splitOnce (fun c => c = 'e' || c = 'E') (Nat.repr (n % 2 ^ 64)).toList = none := by
    refine splitOnce_eq_none fun c hc => ?_
    rw [Nat.repr_eq_ofList_toDigits, String.toList_ofList] at hc
    simp [isDigit_ne (hdigit c hc)]
  unfold ofUsize jsonbTextLen numericTextLen
  rw [hsplit]
  dsimp only
  rw [Nat.repr_eq_ofList_toDigits, String.utf8ByteSize_ofList, utf8Len_digits hdigit]
  exact hlength

theorem charLen_le (c : Char) : charLen c ≤ 6 * c.utf8Size := by
  have := c.utf8Size_pos
  unfold charLen
  split
  · omega
  · split <;> omega

theorem utf8Len_toList (text : String) : String.utf8Len text.toList = text.utf8ByteSize := by
  have := String.utf8ByteSize_ofList text.toList
  rw [String.ofList_toList] at this
  exact this.symm

theorem jsonbStringLen_le (text : String) : jsonbStringLen text ≤ 2 + 6 * text.utf8ByteSize := by
  have hsum : (text.toList.map charLen).sum ≤ 6 * String.utf8Len text.toList := by
    induction text.toList with
    | nil => exact Nat.le_refl _
    | cons c cs ih =>
      have := charLen_le c
      rw [map_cons, sum_cons, String.utf8Len_cons]
      omega
  rw [utf8Len_toList] at hsum
  unfold jsonbStringLen
  omega

theorem errorType_len (error : Value) :
    jsonbStringLen ((errorType error).getD "handler_error") ≤ 2 + 6 * 255 := by
  have hsize : ((errorType error).getD "handler_error").utf8ByteSize ≤ 255 := by
    unfold errorType
    split
    · split
      · assumption
      · decide
    · decide
  have := jsonbStringLen_le ((errorType error).getD "handler_error")
  omega

theorem object_len_insert (key : String) (v : Value) (map : List (String × Value)) :
    jsonbTextLen (.object (SortedMap.insert key v map)) ≤
      jsonbTextLen (.object map) + (jsonbStringLen key + jsonbTextLen v + 4) := by
  have hfields : jsonbFieldLens (SortedMap.insert key v map) ≤
        jsonbFieldLens map + (jsonbStringLen key + 2 + jsonbTextLen v) ∧
      (SortedMap.insert key v map).length ≤ map.length + 1 := by
    induction map with
    | nil => simp [SortedMap.insert, jsonbFieldLens]
    | cons e rest ih =>
      unfold SortedMap.insert
      split
      · simp only [jsonbFieldLens, length_cons]
        omega
      · split
        · simp only [jsonbFieldLens, length_cons]
          omega
        · simp only [jsonbFieldLens, length_cons]
          omega
  simp only [jsonbTextLen]
  omega

theorem json_len (fields : List (String × Value)) :
    jsonbTextLen (json fields) ≤ 2 + (fields.map fun e => jsonbStringLen e.1 + jsonbTextLen e.2 + 4).sum := by
  unfold json
  induction fields using List.reverseRecOn with
  | nil => exact Nat.le_refl _
  | append_singleton fields e ih =>
    have := object_len_insert e.1 e.2 (SortedMap.ofList fields)
    rw [SortedMap.ofList_concat, map_append, List.sum_append]
    simp only [map_cons, map_nil, sum_cons, sum_nil]
    omega

theorem summaryFields_len (error : Value) (bytes : Nat) :
    jsonbTextLen (.object (summaryFields error bytes)) ≤ 1700 := by
  have hbytes := ofUsize_len bytes
  have htype := errorType_len error
  have hkeys : jsonbStringLen "type" = 6 ∧ jsonbStringLen "truncated" = 11 ∧
      jsonbStringLen "original_bytes" = 16 := by decide
  have htrue : jsonbTextLen (.bool true) = 4 := rfl
  have hstring : jsonbTextLen (.string ((errorType error).getD "handler_error")) =
      jsonbStringLen ((errorType error).getD "handler_error") := rfl
  have hfields := json_len [("type", .string ((errorType error).getD "handler_error")),
    ("truncated", .bool true), ("original_bytes", ofUsize bytes)]
  simp only [map_cons, map_nil, sum_cons, sum_nil] at hfields
  unfold json at hfields
  unfold summaryFields
  omega

theorem summary_len (error : Value) (bytes : Nat) : jsonbTextLen (summary error bytes) ≤ 2000 := by
  have hfields := summaryFields_len error bytes
  unfold summary
  split
  · rename_i b _
    have hinsert := object_len_insert "retryable" (.bool b) (summaryFields error bytes)
    have hkey : jsonbStringLen "retryable" = 11 := by decide
    have hbool : jsonbTextLen (.bool b) ≤ 5 := by cases b <;> decide
    omega
  · omega

theorem get_nulFree {w : Value} (h : v.NulFree) (hget : v.get key = some w) : w.NulFree := by
  cases h with
  | object keys values => exact values _ (SortedMap.mem_of_lookup hget)
  | _ => cases hget

theorem errorType_nul (h : error.NulFree) :
    hasNul ((errorType error).getD "handler_error") = false := by
  unfold errorType
  split
  · rename_i kind hget
    split
    · cases get_nulFree h hget
      assumption
    · decide
  · decide

theorem summary_nulFree (h : error.NulFree) (bytes : Nat) : (summary error bytes).NulFree := by
  have hfields : ∀ e ∈ summaryFields error bytes, hasNul e.1 = false ∧ e.2.NulFree := by
    intro e he
    have hmem := SortedMap.mem_ofList he
    simp only [mem_cons, not_mem_nil, or_false] at hmem
    rcases hmem with rfl | rfl | rfl
    · exact ⟨ownKeys_nul "type" (by decide), .string (errorType_nul h)⟩
    · exact ⟨ownKeys_nul "truncated" (by decide), .bool true⟩
    · exact ⟨ownKeys_nul "original_bytes" (by decide), .number _⟩
  unfold summary
  split
  · rename_i b _
    have hall : ∀ e ∈ SortedMap.insert "retryable" (.bool b) (summaryFields error bytes),
        hasNul e.1 = false ∧ e.2.NulFree := by
      intro e he
      rcases SortedMap.mem_insert he with rfl | he
      · exact ⟨ownKeys_nul "retryable" (by decide), .bool b⟩
      · exact hfields e he
    exact .object (fun e he => (hall e he).1) fun e he => (hall e he).2
  · exact .object (fun e he => (hfields e he).1) fun e he => (hfields e he).2

/-! ## The search for a cap -/

theorem searchCap_rule {fits : Nat → Option Value} {low high : Nat} {best : Value}
    (first : P best) (step : ∀ cap v, fits cap = some v → P v) : P (searchCap fits low high best) := by
  fun_induction searchCap fits low high best with
  | case1 low high best _ middle v hfits ih => exact ih (step middle v hfits)
  | case2 low high best _ middle _ ih => exact ih first
  | case3 => exact first

theorem truncateError_rule {bytes : Nat}
    (shortened : ∀ cap, jsonbTextLen (candidate error bytes cap) ≤ errorLimitBytes →
      P (candidate error bytes cap))
    (summarized : P (summary error bytes)) : P (truncateError error bytes) := by
  have hfits : ∀ cap v, fits error bytes cap = some v → P v := by
    intro cap v h
    unfold fits at h
    split at h
    · cases h
      exact shortened cap ‹_›
    · cases h
  unfold truncateError
  split
  · exact searchCap_rule (hfits 0 _ ‹_›) hfits
  · exact summarized

theorem candidate_get (h : error.get key = some v)
    (htruncated : key ≠ "truncated") (hbytes : key ≠ "original_bytes") (bytes cap : Nat) :
    (candidate error bytes cap).get key = some (capStrings v cap) := by
  cases error with
  | object map =>
    have hlookup : map.lookup key = some v := h
    show (SortedMap.insert _ _ (SortedMap.insert _ _ (mapStringsFields _ map))).lookup key = _
    rw [SortedMap.lookup_insert, if_neg hbytes, SortedMap.lookup_insert, if_neg htruncated,
      mapStringsFields_eq, lookup_map_values, hlookup]
    rfl
  | _ => cases h

theorem summary_get {bytes : Nat} {b : Bool} (h : error.get "retryable" = some (.bool b)) :
    (summary error bytes).get "retryable" = some (.bool b) := by
  have hretryable : retryable error = some b := by
    unfold retryable
    rw [h]
  unfold summary
  rw [hretryable]
  exact (SortedMap.lookup_insert _ _ _ _).trans (if_pos rfl)

theorem prepareError_rule (kept : jsonbTextLen (escapeNul v) ≤ errorLimitBytes → P (escapeNul v))
    (cut : P (truncateError (escapeNul v) (jsonbTextLen (escapeNul v)))) : P (prepareError v) := by
  unfold prepareError
  dsimp only
  split
  · exact kept ‹_›
  · exact cut

theorem tooLarge_len (bytes : Nat) : jsonbTextLen (json [("type", .string "result_too_large"),
    ("bytes", ofUsize bytes), ("limit", ofUsize resultLimitBytes)]) ≤ 100 := by
  have hbytes := ofUsize_len bytes
  have hlimit := ofUsize_len resultLimitBytes
  have hkeys : jsonbStringLen "type" = 6 ∧ jsonbStringLen "bytes" = 7 ∧ jsonbStringLen "limit" = 7 ∧
      jsonbTextLen (.string "result_too_large") = 18 := by decide
  have hlen := json_len [("type", .string "result_too_large"), ("bytes", ofUsize bytes),
    ("limit", ofUsize resultLimitBytes)]
  simp only [map_cons, map_nil, sum_cons, sum_nil] at hlen
  omega

theorem truncate_length (cs : List Char) (n : Nat) : String.utf8Len (truncate cs n) ≤ n := by
  induction cs generalizing n with
  | nil => exact Nat.zero_le n
  | cons c cs ih =>
    unfold truncate
    split
    · have := ih (n - c.utf8Size)
      rw [String.utf8Len_cons]
      omega
    · exact Nat.zero_le n

theorem lastBoundary_le (cs : List Char) (n : Nat) : lastBoundary cs n ≤ n := by
  induction n with
  | zero => exact Nat.le_refl 0
  | succ n ih =>
    unfold lastBoundary
    split
    · exact Nat.le_refl _
    · exact Nat.le_succ_of_le ih

theorem truncateString_size (text : String) (cap : Nat) : (truncateString text cap).utf8ByteSize ≤ cap + 3 := by
  have hkept := truncate_length text.toList (lastBoundary text.toList cap)
  have hcap := lastBoundary_le text.toList cap
  have hmark : ellipsis.utf8ByteSize = 3 := by decide
  unfold truncateString
  split
  · omega
  · rw [String.utf8ByteSize_append, String.utf8ByteSize_ofList]
    omega

theorem rejectedValueError_storable {kind : String} (hkind : hasNul kind = false)
    (hsize : kind.utf8ByteSize ≤ 255) (message : String) :
    (rejectedValueError kind message).NulFree ∧
      jsonbTextLen (rejectedValueError kind message) ≤ errorLimitBytes := by
  constructor
  · have hfields : ∀ e ∈ SortedMap.ofList [("type", Value.string kind),
        ("message", .string (truncateString (replaceNul message) 4096))],
        hasNul e.1 = false ∧ e.2.NulFree := by
      intro e he
      have hmem := SortedMap.mem_ofList he
      simp only [mem_cons, not_mem_nil, or_false] at hmem
      rcases hmem with rfl | rfl
      · exact ⟨ownKeys_nul "type" (by decide), .string hkind⟩
      · exact ⟨ownKeys_nul "message" (by decide),
          .string (truncateString_nul (hasNul_replaceNul message) 4096)⟩
    exact .object (fun e he => (hfields e he).1) fun e he => (hfields e he).2
  · have htype := jsonbStringLen_le kind
    have hmessage := jsonbStringLen_le (truncateString (replaceNul message) 4096)
    have hcut := truncateString_size (replaceNul message) 4096
    have hkeys : jsonbStringLen "type" = 6 ∧ jsonbStringLen "message" = 9 := by decide
    have hlen := json_len [("type", .string kind), ("message", .string (truncateString (replaceNul message) 4096))]
    simp only [map_cons, map_nil, sum_cons, sum_nil, jsonbTextLen] at hlen
    unfold rejectedValueError errorLimitBytes
    omega

theorem result_rejected_storable : (rejectedValueError "result_rejected" "\x00").NulFree ∧
    jsonbTextLen (rejectedValueError "result_rejected" "\x00") ≤ errorLimitBytes :=
  rejectedValueError_storable (by decide) (by decide) _

/-- What a handler returns or fails with is stored: without NUL, within the limits of the columns,
unchanged if it was so before, and with the decision whether to try again. -/
theorem outcomes_storable (v : Value) (h : v.WellFormed) :
    ((prepareError v).NulFree ∧ jsonbTextLen (prepareError v) ≤ 262144) ∧
      (v.NulFree → jsonbTextLen v ≤ 262144 → prepareError v = v) ∧
      (∀ b, v.get "retryable" = some (.bool b) → (prepareError v).get "retryable" = some (.bool b)) ∧
      ((∃ w, prepareResult v = .result w ∧ w.NulFree ∧ jsonbTextLen w ≤ 1048576 ∧ (v.NulFree → w = v)) ∨
        ∃ map, prepareResult v = .tooLarge (.object map) ∧ jsonbTextLen (.object map) ≤ 262144) := by
  have hfree := escapeNul_nulFree v
  refine ⟨?_, fun hnul hlen => ?_, fun b hb => ?_, ?_⟩
  · refine prepareError_rule (P := fun w => w.NulFree ∧ jsonbTextLen w ≤ 262144) (fun hlen => ⟨hfree, hlen⟩) ?_
    exact truncateError_rule (P := fun w => w.NulFree ∧ jsonbTextLen w ≤ 262144)
      (fun cap hlen => ⟨candidate_nulFree hfree _ cap, hlen⟩)
      ⟨summary_nulFree hfree _, (summary_len _ _).trans (by decide)⟩
  · unfold prepareError
    rw [escapeNul_eq hnul]
    exact if_pos hlen
  · have hescaped : (escapeNul v).get "retryable" = some (.bool b) :=
      escapeNul_get h (by decide) (by decide) hb
    refine prepareError_rule (P := fun w => w.get "retryable" = some (.bool b)) (fun _ => hescaped) ?_
    exact truncateError_rule (P := fun w => w.get "retryable" = some (.bool b))
      (fun cap _ => candidate_get hescaped (by decide) (by decide) _ cap) (summary_get hescaped)
  · by_cases hlen : jsonbTextLen (escapeNul v) ≤ resultLimitBytes
    · exact Or.inl ⟨escapeNul v, if_pos hlen, hfree, hlen, escapeNul_eq⟩
    · exact Or.inr ⟨_, if_neg hlen, (tooLarge_len _).trans (by decide)⟩

theorem outcomes_storable_nul :
    let v : Value := .object [("message", .string "\x00"), ("retryable", .bool false)]
    (prepareError v).NulFree ∧ (prepareError v).get "retryable" = some (.bool false) := by
  intro v
  have hwell : v.WellFormed := by
    refine .object (pairwise_pair.mpr (by decide)) ?_
    exact forall_mem_cons.mpr ⟨.string _, forall_mem_singleton.mpr (.bool false)⟩
  obtain ⟨⟨hfree, -⟩, -, hretryable, -⟩ := outcomes_storable v hwell
  exact ⟨hfree, hretryable false rfl⟩

end Pgtask.Outcome
