import Mathlib.Algebra.Order.BigOperators.Group.List
import Pgtask.Lib.Decimal
import Pgtask.Worker.Outcome

/-!
# The text of a `jsonb` value

How PostgreSQL prints a `jsonb` value, and that `outcome.rs` knows the length of the text without
printing it.
-/

open List Option

namespace Pgtask.Outcome

/-! ## Numbers -/

structure Reading where
  negative : Bool
  integer : List Char
  fraction : List Char
  exponent : Int

def readNumber (rendered : String) : Reading :=
  let (mantissa, exponent) := (splitOnce (fun c => c = 'e' || c = 'E') rendered.toList).getD
    (rendered.toList, ['0'])
  let unsigned := mantissa.dropWhile fun c => c = '-' || c = '+'
  let (integer, fraction) := (splitOnce (· = '.') unsigned).getD (unsigned, [])
  { negative := mantissa.head? = some '-', integer, fraction, exponent := (parseI64 exponent).getD 0 }

namespace Reading

def scale (r : Reading) : Nat := (r.fraction.length - r.exponent).toNat

def unscaled (r : Reading) : Nat :=
  Decimal.value (r.integer ++ r.fraction) * 10 ^ (r.exponent - r.fraction.length).toNat

def padded (width n : Nat) : List Char :=
  List.replicate (width - (Nat.toDigits 10 n).length) '0' ++ Nat.toDigits 10 n

/-- The decimal expansion. `numeric` has no negative zero. -/
def plain (r : Reading) : List Char :=
  (if r.negative && r.unscaled ≠ 0 then ['-'] else []) ++
    Nat.toDigits 10 (r.unscaled / 10 ^ r.scale) ++
    if r.scale = 0 then [] else '.' :: padded r.scale (r.unscaled % 10 ^ r.scale)

end Reading

/-- A number as `serde_json` prints it: no zeros in front, and an exponent only after a mantissa
that starts with another digit. The exponent of a double is small. -/
structure NumberText where
  negative : Bool
  first : Char
  integer : List Char
  fraction : List Char
  exponent : Option (List Char × Int)
  digits : ∀ c ∈ first :: integer ++ fraction, c.isDigit = true
  canonical : first = '0' → integer = [] ∧ exponent = none
  parsed : ∀ e ∈ exponent, parseI64 e.1 = some e.2
  small : ∀ e ∈ exponent, -1000 ≤ e.2 ∧ e.2 ≤ 1000 ∧ integer.length + fraction.length ≤ 1000

namespace NumberText

def mantissa (t : NumberText) : List Char :=
  (if t.negative then ['-'] else []) ++
    (t.first :: t.integer ++ if t.fraction = [] then [] else '.' :: t.fraction)

def text (t : NumberText) : List Char :=
  t.mantissa ++ match t.exponent with
    | none => []
    | some e => 'e' :: e.1

def reading (t : NumberText) : Reading where
  negative := t.negative
  integer := t.first :: t.integer
  fraction := t.fraction
  exponent := (t.exponent.map Prod.snd).getD 0

end NumberText

/-! ## Texts -/

def escapeChar (c : Char) : List Char :=
  if c = '"' then "\\\"".toList
  else if c = '\\' then "\\\\".toList
  else if c = '\x08' then "\\b".toList
  else if c = '\x0c' then "\\f".toList
  else if c = '\n' then "\\n".toList
  else if c = '\r' then "\\r".toList
  else if c = '\t' then "\\t".toList
  else if c.toNat < 32 then
    "\\u00".toList ++ [(c.toNat / 16).digitChar, (c.toNat % 16).digitChar]
  else [c]

def quoted (text : String) : List Char := '"' :: text.toList.flatMap escapeChar ++ ['"']

def separated (texts : List (List Char)) : List Char := ", ".toList.intercalate texts

mutual
def jsonbText : Value → List Char
  | .null => "null".toList
  | .bool true => "true".toList
  | .bool false => "false".toList
  | .number rendered => (readNumber rendered).plain
  | .string text => quoted text
  | .array items => '[' :: separated (jsonbTexts items) ++ [']']
  | .object map => '\x7b' :: separated (jsonbFields map) ++ ['\x7d']

def jsonbTexts : List Value → List (List Char)
  | [] => []
  | v :: vs => jsonbText v :: jsonbTexts vs

def jsonbFields : List (String × Value) → List (List Char)
  | [] => []
  | (key, item) :: fields => (quoted key ++ ": ".toList ++ jsonbText item) :: jsonbFields fields
end

theorem jsonbTexts_eq (items : List Value) : jsonbTexts items = items.map jsonbText := by
  induction items with
  | nil => rfl
  | cons v vs ih => rw [jsonbTexts, ih, map_cons]

theorem jsonbFields_eq (map : List (String × Value)) :
    jsonbFields map = map.map fun e => quoted e.1 ++ ": ".toList ++ jsonbText e.2 := by
  induction map with
  | nil => rfl
  | cons e fields ih => rw [jsonbFields, ih, map_cons]

/-! ## Lengths of strings -/

theorem utf8Len_digitChar {d : Nat} (h : d < 16) : d.digitChar.utf8Size = 1 := by
  have all : ∀ d : Fin 16, (d : Nat).digitChar.utf8Size = 1 := by decide
  exact all ⟨d, h⟩

theorem utf8Len_escapeChar (c : Char) : String.utf8Len (escapeChar c) = charLen c := by
  unfold escapeChar charLen
  by_cases hspecial : ['"', '\\', '\x08', '\x0c', '\n', '\r', '\t'].contains c = true
  · rw [if_pos hspecial]
    simp only [contains_iff_mem, mem_cons, not_mem_nil, or_false] at hspecial
    obtain rfl | rfl | rfl | rfl | rfl | rfl | rfl := hspecial <;> rfl
  · rw [if_neg hspecial]
    simp only [contains_iff_mem, mem_cons, not_mem_nil, or_false, not_or] at hspecial
    obtain ⟨h1, h2, h3, h4, h5, h6, h7⟩ := hspecial
    rw [if_neg h1, if_neg h2, if_neg h3, if_neg h4, if_neg h5, if_neg h6, if_neg h7]
    split
    · rename_i hcontrol
      rw [String.utf8Len_append, String.utf8Len_cons, String.utf8Len_cons, utf8Len_digitChar (by omega),
        utf8Len_digitChar (by omega)]
      rfl
    · simp

theorem utf8Len_quoted (text : String) : String.utf8Len (quoted text) = jsonbStringLen text := by
  have hchars : ∀ cs : List Char, String.utf8Len (cs.flatMap escapeChar) = (cs.map charLen).sum := by
    intro cs
    induction cs with
    | nil => rfl
    | cons c cs ih =>
      rw [flatMap_cons, String.utf8Len_append, ih, utf8Len_escapeChar, map_cons, sum_cons]
  unfold quoted jsonbStringLen
  rw [String.utf8Len_append, String.utf8Len_cons, hchars]
  have : String.utf8Len ['"'] = 1 := by decide
  have : Char.utf8Size '"' = 1 := by decide
  omega

theorem utf8Len_separated (texts : List (List Char)) :
    String.utf8Len (separated texts) = (texts.map String.utf8Len).sum + 2 * (texts.length - 1) := by
  unfold separated
  induction texts with
  | nil => rfl
  | cons text texts ih =>
    cases texts with
    | nil => simp [List.intercalate]
    | cons next texts =>
      have hcons : ", ".toList.intercalate (text :: next :: texts) =
          text ++ ", ".toList ++ ", ".toList.intercalate (next :: texts) := by
        simp [List.intercalate, List.intersperse]
      have hcomma : String.utf8Len ", ".toList = 2 := by decide
      rw [hcons, String.utf8Len_append, String.utf8Len_append, ih, hcomma]
      simp only [map_cons, sum_cons, length_cons]
      omega

/-! ## Lengths of numbers -/

theorem splitOnce_append {p : Char → Bool} {before after : List Char} {c : Char}
    (h : ∀ d ∈ before, p d = false) (hc : p c = true) :
    splitOnce p (before ++ c :: after) = some (before, after) := by
  induction before with
  | nil => simp [splitOnce, hc]
  | cons d before ih =>
    rw [forall_mem_cons] at h
    rw [cons_append, splitOnce, h.1, ih h.2]
    rfl

theorem saturate_eq {n : Int} (h : -10000 ≤ n) (h' : n ≤ 10000) : saturate n = n := by
  unfold saturate
  omega

namespace NumberText

variable (t : NumberText)

theorem digit_integer : ∀ c ∈ t.first :: t.integer, c.isDigit = true := by
  intro c hc
  exact t.digits c (mem_append_left _ hc)

theorem digit_fraction : ∀ c ∈ t.fraction, c.isDigit = true := by
  intro c hc
  exact t.digits c (mem_append_right _ hc)

theorem mantissa_chars {c : Char} (hc : c ∈ t.mantissa) : c = '-' ∨ c = '.' ∨ c.isDigit = true := by
  simp only [mantissa, mem_append] at hc
  obtain hc | hc | hc := hc
  · split at hc
    · exact .inl (mem_singleton.mp hc)
    · cases hc
  · exact .inr (.inr (t.digit_integer c hc))
  · split at hc
    · cases hc
    · obtain rfl | hc := mem_cons.mp hc
      · exact .inr (.inl rfl)
      · exact .inr (.inr (t.digit_fraction c hc))

theorem mantissa_no_exponent : ∀ c ∈ t.mantissa, (c = 'e' || c = 'E') = false := by
  intro c hc
  obtain rfl | rfl | hdigit := t.mantissa_chars hc
  · rfl
  · rfl
  · simp [isDigit_ne hdigit]

theorem utf8Len_mantissa : String.utf8Len t.mantissa = t.mantissa.length := by
  refine utf8Len_of_size ?_
  intro c hc
  obtain rfl | rfl | hdigit := t.mantissa_chars hc
  · rfl
  · rfl
  · exact isDigit_size hdigit

theorem splitOnce_text : splitOnce (fun c => c = 'e' || c = 'E') t.text = t.exponent.map fun e => (t.mantissa, e.1) := by
  unfold text
  cases t.exponent with
  | none =>
    rw [append_nil]
    exact splitOnce_eq_none t.mantissa_no_exponent
  | some e => exact splitOnce_append t.mantissa_no_exponent rfl

theorem dropWhile_mantissa : t.mantissa.dropWhile (fun c => c = '-' || c = '+') =
    t.first :: t.integer ++ if t.fraction = [] then [] else '.' :: t.fraction := by
  have hfirst : (t.first = '-' || t.first = '+') = false := by
    have hdigit := t.digit_integer t.first mem_cons_self
    simp only [Bool.or_eq_false_iff, decide_eq_false_iff_not]
    constructor <;> (intro h; rw [h] at hdigit; exact absurd hdigit (by decide))
  unfold mantissa
  split <;> simp [hfirst]

theorem head_mantissa : t.mantissa.head? = some '-' ↔ t.negative = true := by
  have hdigit := t.digit_integer t.first mem_cons_self
  unfold mantissa
  split
  · simp [*]
  · simp only [nil_append, cons_append, head?_cons, Option.some.injEq, *]
    simp only [Bool.false_eq_true, iff_false]
    intro h
    rw [h] at hdigit
    exact absurd hdigit (by decide)

theorem splitOnce_point :
    (splitOnce (· = '.') (t.first :: t.integer ++ if t.fraction = [] then [] else '.' :: t.fraction)).getD
      (t.first :: t.integer ++ (if t.fraction = [] then [] else '.' :: t.fraction), []) =
      (t.first :: t.integer, t.fraction) := by
  have hno : ∀ c ∈ t.first :: t.integer, decide (c = '.') = false := by
    intro c hc
    rw [decide_eq_false_iff_not]
    rintro rfl
    exact absurd (t.digit_integer _ hc) (by decide)
  split
  · rename_i hfraction
    rw [append_nil, splitOnce_eq_none hno, hfraction]
    rfl
  · rw [splitOnce_append hno rfl]
    rfl

theorem readNumber_text : readNumber (String.ofList t.text) = t.reading := by
  have hparsed := t.parsed
  unfold readNumber reading
  rw [String.toList_ofList, t.splitOnce_text]
  have hhead := t.head_mantissa
  cases hexponent : t.exponent with
  | none =>
    have htext : t.text = t.mantissa := by simp [text, hexponent]
    simp only [map_none, getD_none, htext, t.dropWhile_mantissa, t.splitOnce_point, hhead,
      Bool.decide_eq_true]
    rfl
  | some e =>
    simp only [map_some, getD_some, t.dropWhile_mantissa, t.splitOnce_point, hhead,
      hparsed e hexponent, Bool.decide_eq_true]

def width : Nat := max (t.integer.length + 1 + t.reading.exponent) 1 |>.toNat

theorem toDigits_width :
    (Nat.toDigits 10 (t.reading.unscaled / 10 ^ t.reading.scale)).length = t.width := by
  have hlt := Decimal.value_lt t.digits
  have hdigit := t.digits t.first mem_cons_self
  unfold width Reading.unscaled Reading.scale
  by_cases hzero : t.first = '0'
  · -- A zero before the point is alone there, and there is no exponent.
    obtain ⟨hinteger, hexponent⟩ := t.canonical hzero
    have hfraction := Decimal.value_lt t.digit_fraction
    have hreading : t.reading = ⟨t.negative, ['0'], t.fraction, 0⟩ := by
      simp [reading, hzero, hinteger, hexponent]
    have hvalue : Decimal.value (['0'] ++ t.fraction) = Decimal.value t.fraction := by
      rw [Decimal.value_append]
      simp [Decimal.value]
    rw [hreading]
    simp only [hvalue, Int.sub_zero, Int.toNat_natCast, hinteger]
    rw [Nat.div_eq_of_lt (by simpa using hfraction)]
    rfl
  · have hle := Decimal.le_value (t.integer ++ t.fraction) hdigit hzero
    have hlength : (t.first :: t.integer ++ t.fraction).length =
        (t.integer ++ t.fraction).length + 1 := rfl
    rw [hlength] at hlt
    have hscale : ((t.reading.fraction.length : Int) - t.reading.exponent) =
        -(t.reading.exponent - t.reading.fraction.length) := by omega
    rw [hscale]
    refine (Decimal.length_toDigits_shift hle hlt _).trans ?_
    rw [length_append]
    simp only [reading]
    omega

theorem scale_none (h : t.exponent = none) : t.reading.scale = t.fraction.length := by
  simp [Reading.scale, reading, h]

theorem numericTextLen_text : numericTextLen (String.ofList t.text) =
    (if t.negative then 1 else 0) + t.width + if t.reading.scale = 0 then 0 else t.reading.scale + 1 := by
  have hparsed := t.parsed
  have hsmall := t.small
  have hhead := t.head_mantissa
  unfold numericTextLen
  rw [String.toList_ofList, t.splitOnce_text]
  cases hexponent : t.exponent with
  | none =>
    have htext : t.text = t.mantissa := by simp [text, hexponent]
    simp only [map_none, String.utf8ByteSize_ofList, htext, t.utf8Len_mantissa,
      t.scale_none hexponent, length_eq_zero_iff]
    have hwidth : t.width = t.integer.length + 1 := by
      simp only [width, reading, hexponent, map_none, getD_none]
      omega
    rw [hwidth]
    unfold mantissa
    split <;> split <;> simp <;> omega
  | some e =>
    obtain ⟨hlow, hhigh, hlength⟩ := hsmall e hexponent
    have hinteger := utf8Len_digits t.digit_integer
    have hfraction := utf8Len_digits t.digit_fraction
    have hvalue : t.reading.exponent = e.2 := by simp [reading, hexponent]
    simp only [map_some, hparsed e hexponent, t.dropWhile_mantissa, t.splitOnce_point, hinteger,
      hfraction, length_cons, hhead]
    have hscale : t.reading.scale = (t.fraction.length - e.2 : Int).toNat := by
      rw [Reading.scale, hvalue]
      rfl
    have hinner := @saturate_eq ((t.integer.length + 1 : Nat) + e.2) (by omega) (by omega)
    have hscaled := @saturate_eq (t.fraction.length - e.2) (by omega) (by omega)
    rw [hscale, width, hvalue, hinner, hscaled]
    by_cases hpoint : (0 : Int) < t.fraction.length - e.2
    · rw [if_pos (by omega : 0 < max ((t.fraction.length : Int) - e.2) 0), saturate_eq (by omega) (by omega),
        if_neg (by omega : (t.fraction.length - e.2 : Int).toNat ≠ 0)]
      omega
    · rw [if_neg (by omega : ¬ 0 < max ((t.fraction.length : Int) - e.2) 0),
        saturate_eq (by omega) (by omega), if_pos (by omega : (t.fraction.length - e.2 : Int).toNat = 0)]
      omega

theorem utf8Len_toDigits (n : Nat) : String.utf8Len (Nat.toDigits 10 n) = (Nat.toDigits 10 n).length := by
  refine utf8Len_digits ?_
  intro c hc
  exact Nat.isDigit_of_mem_toDigits (by decide) (by decide) hc

theorem utf8Len_padded {width n : Nat} (hwidth : 0 < width) (hn : n < 10 ^ width) :
    String.utf8Len (Reading.padded width n) = width := by
  have hle := (Nat.length_toDigits_le_iff (b := 10) (by decide) hwidth).mpr hn
  have hzeros : String.utf8Len (List.replicate (width - (Nat.toDigits 10 n).length) '0') =
      width - (Nat.toDigits 10 n).length := by
    rw [utf8Len_digits, length_replicate]
    intro c hc
    rw [(List.mem_replicate.mp hc).2]
    rfl
  unfold Reading.padded
  rw [String.utf8Len_append, hzeros, utf8Len_toDigits]
  omega

theorem utf8Len_plain : String.utf8Len t.reading.plain =
    (if t.negative && t.reading.unscaled ≠ 0 then 1 else 0) + t.width +
      if t.reading.scale = 0 then 0 else t.reading.scale + 1 := by
  have hsign : String.utf8Len (if t.reading.negative && t.reading.unscaled ≠ 0 then ['-'] else []) =
      if t.negative && t.reading.unscaled ≠ 0 then 1 else 0 := by
    rw [apply_ite String.utf8Len]
    rfl
  have hpoint : String.utf8Len (if t.reading.scale = 0 then []
        else '.' :: Reading.padded t.reading.scale (t.reading.unscaled % 10 ^ t.reading.scale)) =
      if t.reading.scale = 0 then 0 else t.reading.scale + 1 := by
    split
    · rfl
    · rename_i hscale
      rw [String.utf8Len_cons, utf8Len_padded (Nat.pos_of_ne_zero hscale)
        (Nat.mod_lt _ (Nat.pow_pos (by decide)))]
      rfl
  unfold Reading.plain
  rw [String.utf8Len_append, String.utf8Len_append, hsign, hpoint, utf8Len_toDigits, t.toDigits_width]

end NumberText

/-! ## Lengths of values -/

inductive Value.Numbers (P : String → Prop) : Value → Prop
  | null : Numbers P .null
  | bool (b : Bool) : Numbers P (.bool b)
  | number {rendered : String} (h : P rendered) : Numbers P (.number rendered)
  | string (text : String) : Numbers P (.string text)
  | array {items : List Value} (h : ∀ x ∈ items, x.Numbers P) : Numbers P (.array items)
  | object {map : List (String × Value)} (h : ∀ e ∈ map, e.2.Numbers P) : Numbers P (.object map)

def Printed (rendered : String) : Prop := ∃ t : NumberText, rendered = String.ofList t.text

def NegativeZero (rendered : String) : Prop :=
  (readNumber rendered).negative = true ∧ (readNumber rendered).unscaled = 0

theorem number_len {rendered : String} (h : Printed rendered) :
    String.utf8Len (readNumber rendered).plain ≤ numericTextLen rendered ∧
      (¬ NegativeZero rendered → numericTextLen rendered = String.utf8Len (readNumber rendered).plain) := by
  obtain ⟨t, rfl⟩ := h
  unfold NegativeZero
  rw [t.readNumber_text, t.utf8Len_plain, t.numericTextLen_text]
  have hnegative : t.reading.negative = t.negative := rfl
  rw [hnegative]
  cases t.negative <;> by_cases hzero : t.reading.unscaled = 0 <;> simp [hzero]

theorem utf8Len_enclosed {l r : Char} (hl : l.utf8Size = 1) (hr : r.utf8Size = 1)
    (texts : List (List Char)) : String.utf8Len (l :: separated texts ++ [r]) =
      2 + (texts.map String.utf8Len).sum + 2 * (texts.length - 1) := by
  rw [String.utf8Len_append, String.utf8Len_cons, utf8Len_separated, hl, String.utf8Len_cons, hr]
  simp only [String.utf8Len_nil]
  omega

theorem utf8Len_field (key : String) (text : List Char) :
    String.utf8Len (quoted key ++ ": ".toList ++ text) = jsonbStringLen key + 2 + String.utf8Len text := by
  have hcolon : String.utf8Len ": ".toList = 2 := by decide
  rw [String.utf8Len_append, String.utf8Len_append, utf8Len_quoted, hcolon]

theorem jsonbText_le {v : Value} (h : v.Numbers Printed) : String.utf8Len (jsonbText v) ≤ jsonbTextLen v := by
  induction h with
  | null => decide
  | bool b => cases b <;> decide
  | number h => simpa only [jsonbText, jsonbTextLen] using (number_len h).1
  | string text => simp only [jsonbText, jsonbTextLen, utf8Len_quoted, Nat.le_refl]
  | @array items _ ih =>
    rw [jsonbText, jsonbTextLen, utf8Len_enclosed rfl rfl, jsonbTexts_eq, jsonbTextLens_eq, List.map_map,
      length_map]
    have hsum := sum_le_sum (f := String.utf8Len ∘ jsonbText) ih
    omega
  | @object map _ ih =>
    rw [jsonbText, jsonbTextLen, utf8Len_enclosed rfl rfl, jsonbFields_eq, jsonbFieldLens_eq, List.map_map,
      length_map]
    have hsum := sum_le_sum (l := map)
      (f := String.utf8Len ∘ fun e => quoted e.1 ++ ": ".toList ++ jsonbText e.2)
      (g := fun e => jsonbStringLen e.1 + 2 + jsonbTextLen e.2) (by
        intro e he
        rw [Function.comp_apply, utf8Len_field]
        exact Nat.add_le_add_left (ih e he) _)
    omega

theorem jsonbText_eq {v : Value} (h : v.Numbers fun rendered => Printed rendered ∧ ¬ NegativeZero rendered) :
    jsonbTextLen v = String.utf8Len (jsonbText v) := by
  induction h with
  | null => rfl
  | bool b => cases b <;> rfl
  | number h => simpa only [jsonbText, jsonbTextLen] using (number_len h.1).2 h.2
  | string text => simp only [jsonbText, jsonbTextLen, utf8Len_quoted]
  | @array items _ ih =>
    rw [jsonbText, jsonbTextLen, utf8Len_enclosed rfl rfl, jsonbTexts_eq, jsonbTextLens_eq, List.map_map,
      length_map, map_congr_left ih]
    rfl
  | @object map _ ih =>
    rw [jsonbText, jsonbTextLen, utf8Len_enclosed rfl rfl, jsonbFields_eq, jsonbFieldLens_eq, List.map_map,
      length_map]
    congr 3
    refine map_congr_left ?_
    intro e he
    rw [Function.comp_apply, utf8Len_field, ih e he]

/-- The code never measures less than PostgreSQL prints, and only a negative zero measures more. -/
theorem jsonb_text_len_reference (v : Value) (printed : v.Numbers Printed) :
    (String.ofList (jsonbText v)).utf8ByteSize ≤ jsonbTextLen v ∧
      ((v.Numbers fun rendered => Printed rendered ∧ ¬ NegativeZero rendered) →
        jsonbTextLen v = (String.ofList (jsonbText v)).utf8ByteSize) := by
  rw [String.utf8ByteSize_ofList]
  exact ⟨jsonbText_le printed, jsonbText_eq⟩

def smallNumber : NumberText :=
  ⟨false, '1', [], ['5'], some (['-', '7'], -7), List.all_eq_true.mp rfl, by decide,
    by rintro _ ⟨⟩; decide, by rintro _ ⟨⟩; decide⟩

theorem small_number_measured :
    jsonbTextLen (.array [.number (String.ofList smallNumber.text), .string "\t"]) =
      (String.ofList "[0.00000015, \"\\t\"]".toList).utf8ByteSize := by
  have hnumber : Printed (String.ofList smallNumber.text) := ⟨smallNumber, rfl⟩
  have hnonzero : ¬ NegativeZero (String.ofList smallNumber.text) := by
    unfold NegativeZero
    rw [smallNumber.readNumber_text]
    decide
  have hlen := (jsonb_text_len_reference (.array [.number (String.ofList smallNumber.text), .string "\t"])
    (.array (by simpa using ⟨.number hnumber, .string _⟩))).2
    (.array (by simpa using ⟨.number ⟨hnumber, hnonzero⟩, .string _⟩))
  rw [hlen]
  simp only [jsonbText, jsonbTexts, smallNumber.readNumber_text]
  decide

end Pgtask.Outcome
