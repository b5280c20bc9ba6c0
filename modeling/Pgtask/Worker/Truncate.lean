import Pgtask.Lib.Bisect
import Pgtask.Worker.Outcome

/-!
# What is left of an error that is too large

`truncate_error` bisects on the cap of the strings. A mark of three bytes at every
cut makes the size of a candidate go up and down with the cap, so the search can
miss caps that fit.
-/

open List

namespace Pgtask.Outcome

variable {error v : Value} {bytes : Nat}

/-! ## The search -/

def good (error : Value) (bytes cap : Nat) : Bool :=
  jsonbTextLen (candidate error bytes cap) ≤ errorLimitBytes

theorem good_congr {a b : Nat} (h : candidate error bytes a = candidate error bytes b) :
    good error bytes a = good error bytes b := by
  unfold good
  rw [h]

theorem fits_eq (error : Value) (bytes cap : Nat) :
    fits error bytes cap = if good error bytes cap then some (candidate error bytes cap) else none := by
  unfold fits good
  simp only [decide_eq_true_eq]

theorem searchCap_eq (error : Value) (bytes low high : Nat) :
    searchCap (fits error bytes) low high (candidate error bytes low) =
      candidate error bytes (Bisect.last (good error bytes) low high) := by
  fun_induction Bisect.last (good error bytes) low high with
  | case1 low high hlt middle hgood ih =>
    unfold searchCap
    rw [if_pos hlt]
    simp only [fits_eq, show low + (high - low + 1) / 2 = middle from rfl, hgood]
    exact ih
  | case2 low high hlt middle hgood ih =>
    unfold searchCap
    rw [if_pos hlt]
    simp only [fits_eq, show low + (high - low + 1) / 2 = middle from rfl, hgood]
    exact ih
  | case3 low high hlt =>
    unfold searchCap
    rw [if_neg hlt]

theorem truncateError_eq (error : Value) (bytes : Nat) : truncateError error bytes =
      if good error bytes 0 then
        candidate error bytes (Bisect.last (good error bytes) 0 (longestString error))
      else summary error bytes := by
  unfold truncateError
  rw [fits_eq]
  by_cases hgood : good error bytes 0 = true
  · rw [if_pos hgood, if_pos hgood]
    exact searchCap_eq error bytes 0 (longestString error)
  · rw [if_neg hgood, if_neg hgood]

/-! ## Cuts at two caps -/

/-- What is the same at two caps is the same at every cap between them. -/
def Between {α : Type} (f : Nat → α) : Prop := ∀ a b c, a ≤ b → b ≤ c → f a = f c → f b = f a

theorem truncate_mono (cs : List Char) {n m : Nat} (h : n ≤ m) : truncate cs n <+: truncate cs m := by
  induction cs generalizing n m with
  | nil => exact prefix_refl _
  | cons c cs ih =>
    simp only [truncate]
    split
    · rw [if_pos (by omega), cons_prefix_cons]
      exact ⟨rfl, ih (by omega)⟩
    · exact nil_prefix

theorem truncate_isPrefix (cs : List Char) (n : Nat) : truncate cs n <+: cs := by
  induction cs generalizing n with
  | nil => exact prefix_refl _
  | cons c cs ih =>
    unfold truncate
    split
    · exact cons_prefix_cons.mpr ⟨rfl, ih _⟩
    · exact nil_prefix

theorem truncate_not_boundary {cs : List Char} {n : Nat} (h : isCharBoundary cs (n + 1) = false) :
    truncate cs (n + 1) = truncate cs n := by
  induction cs generalizing n with
  | nil => rfl
  | cons c cs ih =>
    unfold isCharBoundary at h
    unfold truncate
    by_cases hle : c.utf8Size ≤ n
    · have hsub : n + 1 - c.utf8Size = n - c.utf8Size + 1 := by omega
      rw [if_pos (by omega), if_pos hle, hsub]
      rw [hsub, decide_eq_true (by omega), Bool.true_and] at h
      rw [ih h]
    · rw [if_neg hle]
      by_cases hlast : c.utf8Size = n + 1
      · rw [hlast, Nat.sub_self] at h
        unfold isCharBoundary at h
        simp at h
      · rw [if_neg (by omega)]

theorem truncate_lastBoundary (cs : List Char) (n : Nat) :
    truncate cs (lastBoundary cs n) = truncate cs n := by
  induction n with
  | zero => rfl
  | succ n ih =>
    unfold lastBoundary
    split
    · rfl
    · rw [ih, truncate_not_boundary (Bool.eq_false_of_not_eq_true ‹_›)]

theorem truncateString_eq (text : String) (cap : Nat) :
    truncateString text cap = if text.utf8ByteSize ≤ cap then text
      else String.ofList (truncate text.toList cap ++ ['…']) := by
  unfold truncateString
  rw [truncate_lastBoundary, String.ofList_append]
  rfl

theorem truncateString_between (text : String) : Between (truncateString text) := by
  intro a b c hab hbc h
  simp only [truncateString_eq] at h ⊢
  by_cases ha : text.utf8ByteSize ≤ a
  · rw [if_pos ha, if_pos (ha.trans hab)]
  · rw [if_neg ha] at h ⊢
    -- What is kept at `b` starts with what is kept at `a`.
    have hstart := truncate_mono text.toList hab
    by_cases hb : text.utf8ByteSize ≤ b
    · rw [if_pos hb, h, if_pos (hb.trans hbc)]
    · rw [if_neg hb]
      suffices hsame : truncate text.toList b = truncate text.toList a by rw [hsame]
      by_cases hc : text.utf8ByteSize ≤ c
      · -- The text is the part kept at `a` with a mark of its own.
        rw [if_pos hc] at h
        have htext := congrArg String.toList h
        rw [String.toList_ofList] at htext
        have hwhole := truncate_isPrefix text.toList b
        have hproper : truncate text.toList b ≠ text.toList := by
          intro heq
          have := truncate_length text.toList b
          rw [heq, utf8Len_toList] at this
          exact hb this
        have hlength : (truncate text.toList b).length < text.toList.length :=
          lt_of_le_of_ne hwhole.length_le fun heq => hproper (hwhole.eq_of_length heq)
        rw [← htext, length_append, length_singleton, htext] at hlength
        exact (hstart.eq_of_length_le (Nat.le_of_lt_succ hlength)).symm
      · rw [if_neg hc, String.ofList_inj, List.append_cancel_right_eq] at h
        have hend := truncate_mono text.toList hbc
        rw [← h] at hend
        exact hend.eq_of_length_le hstart.length_le

/-! ## Objects with a value for every cap -/

def atCap (fields : List (String × (Nat → Value))) (cap : Nat) : Value :=
  .object (fields.map fun e => (e.1, e.2 cap))

theorem atCap_between {fields : List (String × (Nat → Value))} (h : ∀ e ∈ fields, Between e.2) :
    Between (atCap fields) := by
  intro a b c hab hbc heq
  simp only [atCap, Value.object.injEq, map_inj_left, Prod.mk.injEq, true_and] at heq ⊢
  exact fun e he => h e he a b c hab hbc (heq e he)

theorem sum_le_triple {α : Type} {l : List α} {f g : α → Nat} (h : ∀ x ∈ l, f x ≤ 3 * g x) :
    (l.map f).sum ≤ 3 * (l.map g).sum := by
  induction l with
  | nil => exact Nat.le_refl _
  | cons x l ih =>
    obtain ⟨hx, hl⟩ := forall_mem_cons.mp h
    have := ih hl
    rw [map_cons, sum_cons, map_cons, sum_cons]
    omega

theorem atCap_len {fields : List (String × (Nat → Value))} {cap : Nat}
    (h : ∀ e ∈ fields, jsonbTextLen (e.2 0) ≤ 3 * jsonbTextLen (e.2 cap)) :
    jsonbTextLen (atCap fields 0) ≤ 3 * jsonbTextLen (atCap fields cap) := by
  have hsum := sum_le_triple (f := fun e => jsonbStringLen e.1 + 2 + jsonbTextLen (e.2 0))
    (g := fun e => jsonbStringLen e.1 + 2 + jsonbTextLen (e.2 cap)) (l := fields) fun e he => by
      have := h e he
      omega
  simp only [atCap, jsonbTextLen, jsonbFieldLens_eq, List.map_map, length_map, Function.comp_def]
  omega

theorem capStrings_object (map : List (String × Value)) :
    capStrings (.object map) = atCap (map.map fun e => (e.1, capStrings e.2)) := by
  funext cap
  simp only [capStrings, mapStrings, mapStringsFields_eq, atCap, List.map_map]
  rfl

theorem capStrings_between (v : Value) : Between (capStrings v) := by
  induction v using Value.induct with
  | null | bool | number => exact fun _ _ _ _ _ _ => rfl
  | string text =>
    intro a b c hab hbc h
    exact congrArg Value.string (truncateString_between text a b c hab hbc (Value.string.inj h))
  | array items ih =>
    intro a b c hab hbc h
    simp only [capStrings, mapStrings, mapStringsOf_eq, Value.array.injEq, map_inj_left] at h ⊢
    exact fun x hx => ih x hx a b c hab hbc (h x hx)
  | object map ih =>
    rw [capStrings_object]
    exact atCap_between (List.forall_mem_map.mpr ih)

theorem truncate_zero (cs : List Char) : truncate cs 0 = [] := by
  cases cs with
  | nil => rfl
  | cons c cs => exact if_neg (by have := c.utf8Size_pos; omega)

theorem capStrings_zero_len (v : Value) (cap : Nat) :
    jsonbTextLen (capStrings v 0) ≤ 3 * jsonbTextLen (capStrings v cap) := by
  induction v using Value.induct with
  | null | bool | number => exact Nat.le_mul_of_pos_left _ (by decide)
  | string text =>
    have hmark : jsonbStringLen (truncateString text 0) ≤ 5 := by
      rw [truncateString_eq]
      split
      · have := jsonbStringLen_le text
        omega
      · rw [truncate_zero]
        decide
    have hquotes : 2 ≤ jsonbStringLen (truncateString text cap) := Nat.le_add_right _ _
    show jsonbStringLen (truncateString text 0) ≤ 3 * jsonbStringLen (truncateString text cap)
    omega
  | array items ih =>
    have hsum := sum_le_triple ih
    simp only [capStrings, mapStrings, mapStringsOf_eq, jsonbTextLen, jsonbTextLens_eq, List.map_map,
      length_map, Function.comp_def] at hsum ⊢
    omega
  | object map ih =>
    rw [capStrings_object]
    exact atCap_len (List.forall_mem_map.mpr ih)

/-! ## Candidates at two caps -/

def candidates (error : Value) (bytes : Nat) : List (String × (Nat → Value)) :=
  SortedMap.insert "original_bytes" (fun _ => ofUsize bytes)
    (SortedMap.insert "truncated" (fun _ => .bool true)
      ((entries error).map fun e => (e.1, capStrings e.2)))

theorem entries_capStrings (error : Value) (cap : Nat) :
    entries (capStrings error cap) = (entries error).map fun e => (e.1, capStrings e.2 cap) := by
  cases error with
  | object map => exact mapStringsFields_eq _ map
  | _ => rfl

theorem candidate_eq (error : Value) (bytes : Nat) :
    candidate error bytes = atCap (candidates error bytes) := by
  funext cap
  unfold candidate marked atCap candidates
  rw [SortedMap.insert_map (fun f : Nat → Value => f cap), SortedMap.insert_map (fun f : Nat → Value => f cap),
    List.map_map, entries_capStrings]
  rfl

theorem mem_candidates {e : String × (Nat → Value)} (h : e ∈ candidates error bytes) :
    (∃ v, e.2 = fun _ => v) ∨ ∃ v, e.2 = capStrings v := by
  rcases SortedMap.mem_insert h with rfl | h
  · exact .inl ⟨_, rfl⟩
  · rcases SortedMap.mem_insert h with rfl | h
    · exact .inl ⟨_, rfl⟩
    · obtain ⟨a, -, rfl⟩ := List.mem_map.mp h
      exact .inr ⟨_, rfl⟩

theorem candidate_between (error : Value) (bytes : Nat) : Between (candidate error bytes) := by
  rw [candidate_eq]
  refine atCap_between fun e he => ?_
  rcases mem_candidates he with ⟨v, hv⟩ | ⟨v, hv⟩
  · rw [hv]
    exact fun _ _ _ _ _ _ => rfl
  · rw [hv]
    exact capStrings_between v

theorem candidate_zero_len (error : Value) (bytes cap : Nat) :
    jsonbTextLen (candidate error bytes 0) ≤ 3 * jsonbTextLen (candidate error bytes cap) := by
  rw [candidate_eq]
  refine atCap_len fun e he => ?_
  rcases mem_candidates he with ⟨v, hv⟩ | ⟨v, hv⟩
  · rw [hv]
    exact Nat.le_mul_of_pos_left _ (by decide)
  · rw [hv]
    exact capStrings_zero_len v cap

/-! ## What a candidate keeps -/

/-- The value without the texts of its strings: its keys, the lengths of its arrays and its other
leaves. -/
def shape (v : Value) : Value := mapStrings (fun _ => "") v

/-- Every field keeps its keys, lengths and leaves. Of a string nothing has to be kept. -/
def Keeps (error result : Value) : Prop :=
  ∀ e ∈ entries error, ∃ w, result.get e.1 = some w ∧ (shape w = shape e.2 ∨ ∃ text, e.2 = .string text)

/-- The fields of the error that have the names of the marks are strings, or the marks themselves. -/
structure MarksFree (error : Value) (bytes : Nat) : Prop where
  truncated : ∀ v, error.get "truncated" = some v → v = .bool true ∨ ∃ text, v = .string text
  originalBytes : ∀ v, error.get "original_bytes" = some v → v = ofUsize bytes ∨ ∃ text, v = .string text

theorem shape_capStrings (v : Value) (cap : Nat) : shape (capStrings v cap) = shape v := by
  induction v using Value.induct with
  | null | bool | number | string => rfl
  | array items ih =>
    simp only [shape, capStrings, mapStrings, mapStringsOf_eq, List.map_map, Value.array.injEq,
      map_inj_left] at ih ⊢
    exact ih
  | object map ih =>
    simp only [shape, capStrings, mapStrings, mapStringsFields_eq, List.map_map, Value.object.injEq,
      map_inj_left, Function.comp_apply, Prod.mk.injEq, true_and] at ih ⊢
    exact ih

theorem shape_eq_bool {b : Bool} : shape v = .bool b ↔ v = .bool b := by
  cases v <;> simp [shape, mapStrings]

theorem shape_eq_number {rendered : String} : shape v = .number rendered ↔ v = .number rendered := by
  cases v <;> simp [shape, mapStrings]

theorem candidate_get_truncated (error : Value) (bytes cap : Nat) :
    (candidate error bytes cap).get "truncated" = some (.bool true) := by
  show (SortedMap.insert _ _ (SortedMap.insert _ _ _)).lookup _ = _
  rw [SortedMap.lookup_insert, if_neg (by decide), SortedMap.lookup_insert, if_pos rfl]

theorem candidate_get_originalBytes (error : Value) (bytes cap : Nat) :
    (candidate error bytes cap).get "original_bytes" = some (ofUsize bytes) := by
  show (SortedMap.insert _ _ (SortedMap.insert _ _ _)).lookup _ = _
  rw [SortedMap.lookup_insert, if_pos rfl]

theorem candidate_get_value (error : Value) (bytes cap : Nat) (h : entries error = [("value", error)]) :
    (candidate error bytes cap).get "value" = some (capStrings error cap) := by
  show (SortedMap.insert _ _ (SortedMap.insert _ _ (entries (capStrings error cap)))).lookup _ = _
  rw [SortedMap.lookup_insert, if_neg (by decide), SortedMap.lookup_insert, if_neg (by decide),
    entries_capStrings, h]
  rfl

theorem keeps_iff (h : error.WellFormed) (bytes cap : Nat) :
    Keeps error (candidate error bytes cap) ↔ MarksFree error bytes := by
  have htruncated := candidate_get_truncated error bytes cap
  have hbytes := candidate_get_originalBytes error bytes cap
  cases h with
  | @object map sorted values =>
    constructor
    · intro keeps
      refine ⟨fun v hv => ?_, fun v hv => ?_⟩
      · obtain ⟨w, hw, hshape⟩ := keeps _ (SortedMap.mem_of_lookup hv)
        cases htruncated.symm.trans hw
        exact hshape.imp_left fun hshape => shape_eq_bool.mp hshape.symm
      · obtain ⟨w, hw, hshape⟩ := keeps _ (SortedMap.mem_of_lookup hv)
        cases hbytes.symm.trans hw
        exact hshape.imp_left fun hshape => shape_eq_number.mp hshape.symm
    · intro free e he
      have hlookup := SortedMap.lookup_of_mem sorted he
      by_cases h1 : e.1 = "truncated"
      · rw [h1] at hlookup ⊢
        exact ⟨_, htruncated, (free.truncated _ hlookup).imp_left fun hv => by rw [hv]⟩
      · by_cases h2 : e.1 = "original_bytes"
        · rw [h2] at hlookup ⊢
          exact ⟨_, hbytes, (free.originalBytes _ hlookup).imp_left fun hv => by rw [hv]⟩
        · have hget : (Value.object map).get e.1 = some e.2 := hlookup
          exact ⟨_, candidate_get hget h1 h2 bytes cap, .inl (shape_capStrings e.2 cap)⟩
  | _ =>
    refine ⟨fun _ => ⟨nofun, nofun⟩, fun _ => forall_mem_singleton.mpr ?_⟩
    exact ⟨_, candidate_get_value _ bytes cap rfl, .inl (shape_capStrings _ cap)⟩

/-! ## The largest cap that fits -/

/-- The largest cap, up to the longest string, with a candidate that fits. -/
def LargestCap (error : Value) (bytes m : Nat) : Prop :=
  IsGreatest {cap | cap ≤ longestString error ∧ good error bytes cap = true} m

theorem last_eq_of_candidate {m : Nat} (largest : LargestCap error bytes m) (h0 : good error bytes 0 = true)
    (h : candidate error bytes (Bisect.last (good error bytes) 0 (longestString error)) =
      candidate error bytes m) : Bisect.last (good error bytes) 0 (longestString error) = m := by
  obtain ⟨-, hbound⟩ := Bisect.last_bounds (good error bytes) 0 (longestString error) (Nat.zero_le _)
  have hpasses : good error bytes (Bisect.last (good error bytes) 0 (longestString error)) = true :=
    Bisect.last_passes h0
  have hle := largest.2 ⟨hbound, hpasses⟩
  refine Nat.le_antisymm hle (Nat.le_of_not_lt fun hlt => ?_)
  -- The next cap lies between the two, so it has the same candidate, but the search found it too large.
  have hfails := Bisect.last_succ (lt_of_lt_of_le hlt largest.1.1)
  have hsame := good_congr (candidate_between error bytes _ _ _ (Nat.le_succ _) hlt h)
  rw [Nat.succ_eq_add_one, hfails, hpasses] at hsame
  cases hsame

/-- `truncate_error` returns the candidate of the largest cap that fits, and nothing of the error but
parts of strings is lost, exactly when every cap up to that one that the search tries fits, and the
error does not use the names of the marks. If no cap fits it returns the summary. -/
theorem truncation_keeps_most_iff (error : Value) (h : error.WellFormed) (bytes : Nat) :
    ((∀ cap ≤ longestString error, good error bytes cap = false) →
        truncateError error bytes = summary error bytes) ∧
      ((∀ m, LargestCap error bytes m → truncateError error bytes = candidate error bytes m ∧
          Keeps error (truncateError error bytes)) ↔
        ∀ m, LargestCap error bytes m → MarksFree error bytes ∧
          ∀ cap ∈ 0 :: Bisect.tried m 0 (longestString error), good error bytes cap = true) := by
  rw [truncateError_eq]
  refine ⟨fun none => ?_, forall_congr' fun m => forall_congr' fun largest => ?_⟩
  · rw [if_neg (by rw [none 0 (Nat.zero_le _)]; decide)]
  · have hsearch := Bisect.last_eq_iff (p := good error bytes) (Nat.zero_le m) largest.1.1 fun n hn hle =>
      Bool.eq_false_of_not_eq_true fun hgood => absurd (largest.2 ⟨hle, hgood⟩) (not_le.mpr hn)
    rw [forall_mem_cons, ← hsearch]
    constructor
    · rintro ⟨hresult, keeps⟩
      rw [hresult, keeps_iff h] at keeps
      have h₀ : good error bytes 0 = true := by
        by_contra hzero
        rw [if_neg hzero] at hresult
        -- The candidate would be as small as the summary, and the one of cap zero not much larger.
        have hsmall := candidate_zero_len error bytes m
        rw [← hresult] at hsmall
        have hsummary := summary_len error bytes
        apply hzero
        unfold good errorLimitBytes
        rw [decide_eq_true_eq]
        omega
      rw [if_pos h₀] at hresult
      exact ⟨keeps, h₀, last_eq_of_candidate largest h₀ hresult⟩
    · rintro ⟨free, h₀, hlast⟩
      rw [if_pos h₀, hlast]
      exact ⟨rfl, (keeps_iff h bytes m).mpr free⟩

/-! ## One long string -/

def repeated (n : Nat) : String := String.ofList (List.replicate n 'a')

theorem jsonbStringLen_repeated (n : Nat) : jsonbStringLen (repeated n) = 2 + n := by
  have hchar : charLen 'a' = 1 := by decide
  simp [jsonbStringLen, repeated, hchar]

theorem repeated_size (n : Nat) : (repeated n).utf8ByteSize = n := by
  unfold repeated
  rw [String.utf8ByteSize_ofList]
  induction n with
  | zero => rfl
  | succ n ih =>
    rw [replicate_succ, String.utf8Len_cons, ih]
    rfl

theorem truncate_repeated {n cap : Nat} (h : cap ≤ n) :
    truncate (List.replicate n 'a') cap = List.replicate cap 'a' := by
  induction n generalizing cap with
  | zero =>
    obtain rfl : cap = 0 := by omega
    rfl
  | succ n ih =>
    have hsize : 'a'.utf8Size = 1 := rfl
    cases cap with
    | zero => exact truncate_zero _
    | succ cap =>
      rw [replicate_succ, truncate, hsize, if_pos (by omega), Nat.add_sub_cancel, ih (by omega),
        replicate_succ]

theorem truncateString_repeated {n cap : Nat} (h : cap < n) :
    jsonbStringLen (truncateString (repeated n) cap) = cap + 5 := by
  have hchar : charLen 'a' = 1 ∧ charLen '…' = 3 := by decide
  rw [truncateString_eq, repeated_size, if_neg (by omega)]
  unfold repeated
  rw [String.toList_ofList, truncate_repeated h.le]
  simp [jsonbStringLen, hchar]
  omega

theorem candidates_string (text : String) (bytes : Nat) :
    candidates (.string text) bytes = [("original_bytes", fun _ => ofUsize bytes),
      ("truncated", fun _ => .bool true), ("value", capStrings (.string text))] := by
  unfold candidates
  show SortedMap.insert _ _ (SortedMap.insert _ _ [("value", capStrings (.string text))]) = _
  rw [SortedMap.insert, if_pos (by decide), SortedMap.insert, if_pos (by decide)]

theorem good_string (text : String) (bytes cap : Nat) : good (.string text) bytes cap = true ↔
      jsonbStringLen (truncateString text cap) + jsonbTextLen (ofUsize bytes) + 50 ≤ 262144 := by
  have hkeys : jsonbStringLen "original_bytes" = 16 ∧ jsonbStringLen "truncated" = 11 ∧
      jsonbStringLen "value" = 7 := by decide
  have htrue : jsonbTextLen (.bool true) = 4 := rfl
  have hstring : jsonbTextLen (capStrings (.string text) cap) = jsonbStringLen (truncateString text cap) := rfl
  have hlen : jsonbTextLen (candidate (.string text) bytes cap) =
      2 + jsonbFieldLens [("original_bytes", ofUsize bytes), ("truncated", .bool true),
        ("value", capStrings (.string text) cap)] + 4 := by
    rw [candidate_eq, candidates_string]
    rfl
  unfold good errorLimitBytes
  rw [decide_eq_true_eq, hlen]
  simp only [jsonbFieldLens]
  omega

theorem long_string_cut : ∃ m, LargestCap (.string (repeated 300000)) 300002 m ∧
      truncateError (.string (repeated 300000)) 300002 = candidate (.string (repeated 300000)) 300002 m ∧
      Keeps (.string (repeated 300000)) (truncateError (.string (repeated 300000)) 300002) := by
  have hbytes := ofUsize_len 300002
  have hgood : ∀ cap ≤ 300000, (good (.string (repeated 300000)) 300002 cap = true ↔
      cap + jsonbTextLen (ofUsize 300002) + 55 ≤ 262144) := by
    intro cap hcap
    rw [good_string]
    by_cases hend : cap = 300000
    · have hwhole : truncateString (repeated 300000) cap = repeated 300000 := by
        rw [truncateString_eq, repeated_size, if_pos (by omega)]
      rw [hwhole, jsonbStringLen_repeated]
      omega
    · rw [truncateString_repeated (by omega)]
      omega
  have hlongest : longestString (.string (repeated 300000)) = 300000 := repeated_size 300000
  have largest : LargestCap (.string (repeated 300000)) 300002 (262089 - jsonbTextLen (ofUsize 300002)) := by
    unfold LargestCap
    rw [hlongest]
    refine ⟨⟨by omega, (hgood _ (by omega)).mpr (by omega)⟩, fun cap hcap => ?_⟩
    have := (hgood cap hcap.1).mp hcap.2
    omega
  refine ⟨_, largest, ((truncation_keeps_most_iff _ (.string _) 300002).2.mpr fun m hm => ⟨⟨nofun, nofun⟩, ?_⟩) _ largest⟩
  intro cap hcap
  have hle : cap ≤ m := by
    rcases mem_cons.mp hcap with rfl | hcap
    · exact Nat.zero_le m
    · exact Bisect.le_of_mem_tried hcap
  have hm' := (hgood m (hlongest ▸ hm.1.1)).mp hm.1.2
  exact (hgood cap (by omega)).mpr (by omega)

/-! ## Many short strings -/

def manyShort (long short : Nat) : Value :=
  .array (.string (repeated long) :: List.replicate short (.string "a"))

theorem manyShort_len (long short : Nat) : jsonbTextLen (manyShort long short) = long + 5 * short + 4 := by
  have hshort : jsonbStringLen "a" = 3 := by decide
  simp only [manyShort, jsonbTextLen, jsonbTextLens_eq, map_cons, map_replicate, sum_cons,
    sum_replicate_nat, length_cons, length_replicate, jsonbStringLen_repeated, hshort]
  omega

theorem capStrings_manyShort (long short cap : Nat) : jsonbTextLen (capStrings (manyShort long short) cap) =
    jsonbStringLen (truncateString (repeated long) cap) + short * jsonbStringLen (truncateString "a" cap) +
      2 * short + 2 := by
  simp only [manyShort, capStrings, mapStrings, mapStringsOf_eq, map_cons, map_replicate, jsonbTextLen,
    jsonbTextLens_eq, sum_cons, sum_replicate_nat, length_cons, length_replicate]
  omega

theorem field_len {map : List (String × Value)} {e : String × Value} (h : e ∈ map) :
    jsonbTextLen e.2 ≤ jsonbFieldLens map := by
  induction map with
  | nil => cases h
  | cons a rest ih =>
    unfold jsonbFieldLens
    rcases mem_cons.mp h with rfl | h
    · omega
    · have := ih h
      omega

theorem get_len {v w : Value} {key : String} (h : v.get key = some w) : jsonbTextLen w ≤ jsonbTextLen v := by
  cases v with
  | object map =>
    have hfield := field_len (SortedMap.mem_of_lookup h)
    simp only [jsonbTextLen] at hfield ⊢
    omega
  | _ => cases h

theorem candidate_len (error : Value) (bytes cap : Nat) (h : entries error = [("value", error)]) :
    jsonbTextLen (candidate error bytes cap) ≤ jsonbTextLen (capStrings error cap) + 70 := by
  have hbytes := ofUsize_len bytes
  have hkeys : jsonbStringLen "original_bytes" = 16 ∧ jsonbStringLen "truncated" = 11 ∧
      jsonbStringLen "value" = 7 ∧ jsonbTextLen (.bool true) = 4 := by decide
  have h1 := object_len_insert "original_bytes" (ofUsize bytes)
    (SortedMap.insert "truncated" (.bool true) (entries (capStrings error cap)))
  have h2 := object_len_insert "truncated" (.bool true) (entries (capStrings error cap))
  have h3 : jsonbTextLen (.object (entries (capStrings error cap))) = 11 + jsonbTextLen (capStrings error cap) := by
    rw [entries_capStrings, h]
    simp only [map_cons, map_nil, jsonbTextLen, jsonbFieldLens, hkeys, length_singleton]
    omega
  unfold candidate marked
  omega

theorem longest_manyShort {long short : Nat} (h : 1 ≤ long) : 1 ≤ longestString (manyShort long short) := by
  show 1 ≤ max (repeated long).utf8ByteSize _
  rw [repeated_size]
  exact h.trans (Nat.le_max_left _ _)

theorem manyShort_summarized (long short bytes : Nat) (hlong : 1 < long) (hlow : 262144 < 7 * short)
    (hhigh : 5 * short ≤ 262000) : good (manyShort long short) bytes 1 = true ∧
      truncateError (manyShort long short) bytes = summary (manyShort long short) bytes := by
  have hshort : jsonbStringLen (truncateString "a" 0) = 5 ∧ jsonbStringLen (truncateString "a" 1) = 3 := by decide
  have hzero := capStrings_manyShort long short 0
  have hone := capStrings_manyShort long short 1
  rw [truncateString_repeated (by omega), hshort.1] at hzero
  rw [truncateString_repeated hlong, hshort.2] at hone
  have hupper := candidate_len (manyShort long short) bytes 1 rfl
  have hlower := get_len (candidate_get_value (manyShort long short) bytes 0 rfl)
  have hbad : ¬ good (manyShort long short) bytes 0 = true := by
    unfold good errorLimitBytes
    rw [decide_eq_true_eq]
    omega
  constructor
  · unfold good errorLimitBytes
    rw [decide_eq_true_eq]
    omega
  · rw [truncateError_eq, if_neg hbad]

theorem truncation_misses_caps :
    (manyShort 100000 40000).NulFree ∧ (manyShort 100000 40000).WellFormed ∧
      errorLimitBytes < jsonbTextLen (manyShort 100000 40000) ∧
      (∃ cap ≤ longestString (manyShort 100000 40000),
        good (manyShort 100000 40000) (jsonbTextLen (manyShort 100000 40000)) cap = true) ∧
      truncateError (manyShort 100000 40000) (jsonbTextLen (manyShort 100000 40000)) =
        summary (manyShort 100000 40000) (jsonbTextLen (manyShort 100000 40000)) ∧
      (summary (manyShort 100000 40000) (jsonbTextLen (manyShort 100000 40000))).get "value" = none := by
  obtain ⟨hgood, hsummary⟩ := manyShort_summarized 100000 40000 (jsonbTextLen (manyShort 100000 40000))
    (by decide) (by decide) (by decide)
  refine ⟨?_, ?_, ?_, ⟨1, longest_manyShort (by decide), hgood⟩, hsummary, ?_⟩
  · refine .array (forall_mem_cons.mpr ⟨.string ?_, fun x hx => ?_⟩)
    · unfold hasNul repeated
      rw [String.toList_ofList, contains_eq_mem, decide_eq_false_iff_not]
      exact fun h => absurd (eq_of_mem_replicate h) (by decide)
    · rw [eq_of_mem_replicate hx]
      exact .string (by decide)
  · refine .array (forall_mem_cons.mpr ⟨.string _, fun x hx => ?_⟩)
    rw [eq_of_mem_replicate hx]
    exact .string _
  · rw [manyShort_len]
    decide
  · show (SortedMap.insert _ _ (SortedMap.insert _ _ (SortedMap.insert _ _ []))).lookup "value" = none
    rw [SortedMap.lookup_insert, if_neg (by decide), SortedMap.lookup_insert, if_neg (by decide),
      SortedMap.lookup_insert, if_neg (by decide)]
    rfl

end Pgtask.Outcome
