/-
Module: ExitfyCores.Proofs.JsonScan
Layer: Proofs
Purpose: The scanners of `redactJSONSecrets` see only what is behind their start, and `jsonSecretValueEnd` ends behind one
  complete token that is followed as in an object, or else at the end of the text.
Imports: ExitfyCores.Lib.JsonTokens, ExitfyCores.Proofs.JsonKey, Mathlib.Data.List.TakeWhile
Trusted boundary: none
Main exports: jsonSecretValueEnd_append, jsonSecretValueEnd_cases, jsonSecretValueEnd_token
Open obligations: none
-/
import ExitfyCores.Lib.JsonTokens
import ExitfyCores.Proofs.JsonKey
import Mathlib.Data.List.TakeWhile

namespace ExitfyCores.Bridge

open Json

/-! ### Only what is behind the start -/

theorem getElem?_append_add (before rest : Bytes) (offset : Nat) :
    (before ++ rest)[before.length + offset]? = rest[offset]? := by
  rw [List.getElem?_append_right (Nat.le_add_right _ _), Nat.add_sub_cancel_left]

theorem stringEndFrom_quote (index : Nat) (rest : Bytes) : stringEndFrom index (byte '"' :: rest) = some index := by
  cases rest <;> rfl

theorem stringEndFrom_escape (index : Nat) (b : UInt8) (rest : Bytes) :
    stringEndFrom index (byte '\\' :: b :: rest) = stringEndFrom (index + 2) rest := rfl

theorem stringEndFrom_plain {current : UInt8} (notQuote : current ≠ byte '"') (notBackslash : current ≠ byte '\\')
    (index : Nat) (rest : Bytes) : stringEndFrom index (current :: rest) = stringEndFrom (index + 1) rest := by
  rw [stringEndFrom.eq_def]
  simp only
  rw [if_neg notBackslash, if_neg notQuote]

theorem stringEndFrom_add (shift index : Nat) (text : Bytes) :
    stringEndFrom (shift + index) text = (stringEndFrom index text).map (shift + ·) := by
  fun_induction stringEndFrom index text with
  | case1 => rfl
  | case2 index => rfl
  | case3 index _ rest ih =>
      rw [stringEndFrom_escape, Nat.add_assoc]
      exact ih
  | case4 index rest => rw [stringEndFrom_quote, Option.map_some]
  | case5 index current rest notBackslash notQuote ih =>
      rw [stringEndFrom_plain notQuote notBackslash, Nat.add_assoc]
      exact ih

theorem quotedEndFrom_add (shift : Nat) (escaped : Bool) (index : Nat) (text : Bytes) :
    quotedEndFrom escaped (shift + index) text = (quotedEndFrom escaped index text).map (shift + ·) := by
  induction text generalizing escaped index with
  | nil => rfl
  | cons current rest ih =>
      simp only [quotedEndFrom, Nat.add_assoc, ih]
      split
      · rfl
      · split
        · rfl
        · split <;> rfl

theorem compositeEndFrom_add (shift : Nat) (stack : Bytes) (inString escaped : Bool) (index : Nat) (text : Bytes) :
    compositeEndFrom stack inString escaped (shift + index) text =
      (compositeEndFrom stack inString escaped index text).map (shift + ·) := by
  induction text generalizing stack inString escaped index with
  | nil => cases inString <;> rfl
  | cons current rest ih =>
      cases inString with
      | true =>
          simp only [compositeEndFrom, Nat.add_assoc, ih]
          split
          · rfl
          · split
            · rfl
            · split <;> rfl
      | false =>
          simp only [compositeEndFrom, Nat.add_assoc, ih]
          split
          · rfl
          · split
            · rfl
            · split
              · cases stack with
                | nil => rfl
                | cons top stack =>
                    simp only
                    split
                    · rfl
                    · split <;> rfl
              · rfl

theorem skipJSONWhitespace_append (before rest : Bytes) (start : Nat) :
    skipJSONWhitespace (before ++ rest) (before.length + start) = before.length + skipJSONWhitespace rest start := by
  rw [skipJSONWhitespace, skipJSONWhitespace, List.drop_length_add_append, Nat.add_assoc]

theorem jsonStringEnd_append (before rest : Bytes) (quote : Nat) :
    jsonStringEnd (before ++ rest) (before.length + quote) = (jsonStringEnd rest quote).map (before.length + ·) := by
  rw [jsonStringEnd, jsonStringEnd, Nat.add_assoc, List.drop_length_add_append, stringEndFrom_add]

theorem jsonObjectValueEnd_append (before rest : Bytes) (tokenEnd : Nat) :
    jsonObjectValueEnd (before ++ rest) (before.length + tokenEnd) = before.length + jsonObjectValueEnd rest tokenEnd := by
  rw [jsonObjectValueEnd, jsonObjectValueEnd, skipJSONWhitespace_append, getElem?_append_add, List.length_append]
  split
  · rfl
  · split <;> rfl

theorem digitsEnd_append (before rest : Bytes) (index : Nat) :
    digitsEnd (before ++ rest) (before.length + index) = before.length + digitsEnd rest index := by
  rw [digitsEnd, digitsEnd, List.drop_length_add_append, Nat.add_assoc]

theorem integerEnd_append (before rest : Bytes) (index : Nat) :
    integerEnd (before ++ rest) (before.length + index) = (integerEnd rest index).map (before.length + ·) := by
  rw [integerEnd, integerEnd, getElem?_append_add, digitsEnd_append]
  split
  · rfl
  · split
    · rfl
    · split <;> rfl

theorem fractionEnd_append (before rest : Bytes) (index : Nat) :
    fractionEnd (before ++ rest) (before.length + index) = (fractionEnd rest index).map (before.length + ·) := by
  simp only [fractionEnd, getElem?_append_add, Nat.add_assoc, digitsEnd_append, Nat.add_left_cancel_iff]
  split
  · split <;> rfl
  · rfl

theorem exponentEnd_append (before rest : Bytes) (index : Nat) :
    exponentEnd (before ++ rest) (before.length + index) = (exponentEnd rest index).map (before.length + ·) := by
  simp only [exponentEnd, Nat.add_assoc, getElem?_append_add]
  split
  · split
    · rw [digitsEnd_append]
      simp only [Nat.add_left_cancel_iff]
      split <;> rfl
    · rw [digitsEnd_append]
      simp only [Nat.add_left_cancel_iff]
      split <;> rfl
  · rfl

/-- The number in `jsonPrimitiveValueEnd`, behind its sign. -/
def numberEnd (value : Bytes) (index : Nat) : Option Nat :=
  (integerEnd value index).bind fun index => (fractionEnd value index).bind fun index => exponentEnd value index

theorem numberEnd_append (before rest : Bytes) (index : Nat) :
    numberEnd (before ++ rest) (before.length + index) = (numberEnd rest index).map (before.length + ·) := by
  simp only [numberEnd, integerEnd_append, Option.bind_map, Function.comp_def, fractionEnd_append, exponentEnd_append,
    Option.map_bind]

theorem jsonPrimitiveValueEnd_eq (value : Bytes) (start : Nat) : jsonPrimitiveValueEnd value start =
    match [lit "true", lit "false", lit "null"].find? (·.isPrefixOf (value.drop start)) with
    | some literal => some (jsonObjectValueEnd value (start + literal.length))
    | none => (numberEnd value (if value[start]? = some (byte '-') then start + 1 else start)).map
        (jsonObjectValueEnd value) := by
  unfold jsonPrimitiveValueEnd
  split
  · next named => simp only [named]
  · next unnamed =>
      simp only [unnamed, numberEnd, Option.bind_eq_bind, Option.map_eq_bind, Option.bind_assoc, Function.comp_def]

theorem jsonPrimitiveValueEnd_append (before rest : Bytes) (start : Nat) :
    jsonPrimitiveValueEnd (before ++ rest) (before.length + start) =
      (jsonPrimitiveValueEnd rest start).map (before.length + ·) := by
  rw [jsonPrimitiveValueEnd_eq, jsonPrimitiveValueEnd_eq, List.drop_length_add_append, getElem?_append_add]
  split
  · rw [Nat.add_assoc, jsonObjectValueEnd_append]
    rfl
  · split
    · rw [Nat.add_assoc, numberEnd_append, Option.map_map, Option.map_map]
      exact congrArg (Option.map · _) (funext fun index => jsonObjectValueEnd_append before rest index)
    · rw [numberEnd_append, Option.map_map, Option.map_map]
      exact congrArg (Option.map · _) (funext fun index => jsonObjectValueEnd_append before rest index)

theorem jsonSecretValueEnd_append (before rest : Bytes) (start : Nat) :
    jsonSecretValueEnd (before ++ rest) (before.length + start) = before.length + jsonSecretValueEnd rest start := by
  simp only [jsonSecretValueEnd, getElem?_append_add, Nat.add_assoc, List.drop_length_add_append,
    quotedEndFrom_add before.length, compositeEndFrom_add before.length, jsonPrimitiveValueEnd_append,
    plainSecretValueEnd, List.length_append]
  split
  · rfl
  · split
    · cases quotedEndFrom false (start + 1) (rest.drop (start + 1)) with
      | none => rfl
      | some tokenEnd => exact jsonObjectValueEnd_append before rest tokenEnd
    · split
      · next opener _ _ _ =>
          cases compositeEndFrom [matchingJSONCloser opener] false false (start + 1) (rest.drop (start + 1)) with
          | none => rfl
          | some tokenEnd => exact jsonObjectValueEnd_append before rest tokenEnd
      · cases jsonPrimitiveValueEnd rest start <;> rfl

/-! ### Blanks and what follows a value -/

theorem isJSONWhitespace_iff {b : UInt8} : isJSONWhitespace b = true ↔ IsBlank b := by
  simp only [isJSONWhitespace, IsBlank, Bool.or_eq_true, beq_iff_eq, or_assoc]

theorem skip_blanks {blanks tail : Bytes} (blank : ∀ b ∈ blanks, IsBlank b) (stop : ∀ b ∈ tail.head?, ¬ IsBlank b) :
    skipJSONWhitespace (blanks ++ tail) 0 = blanks.length := by
  have front : (blanks ++ tail).takeWhile isJSONWhitespace = blanks := by
    rw [List.takeWhile_append_of_pos fun b member => isJSONWhitespace_iff.mpr (blank b member)]
    cases tail with
    | nil => simp
    | cons b after =>
        rw [List.takeWhile_cons_of_neg (mt isJSONWhitespace_iff.mp (stop b rfl)), List.append_nil]
  rw [skipJSONWhitespace, List.drop_zero, front, Nat.zero_add]

/-- The blanks at the head of a text. -/
theorem blanks_cases (text : Bytes) :
    ∃ blanks tail, text = blanks ++ tail ∧ (∀ b ∈ blanks, IsBlank b) ∧ ∀ b ∈ tail.head?, ¬ IsBlank b := by
  refine ⟨text.takeWhile isJSONWhitespace, text.dropWhile isJSONWhitespace, List.takeWhile_append_dropWhile.symm,
    fun b member => isJSONWhitespace_iff.mp (List.mem_takeWhile_imp member), fun b head blank => ?_⟩
  have := List.head?_dropWhile_not isJSONWhitespace text
  rw [Option.mem_def.mp head] at this
  simp [isJSONWhitespace_iff.mpr blank] at this

theorem getElem?_length_append (before tail : Bytes) : (before ++ tail)[before.length]? = tail.head? := by
  have := getElem?_append_add before tail 0
  rw [Nat.add_zero] at this
  rw [this, List.head?_eq_getElem?]

theorem comma_not_blank : ¬ IsBlank (byte ',') := by decide

theorem brace_not_blank : ¬ IsBlank (byte '}') := by decide

/-- In front of what follows a value, the value ends where it is. -/
theorem jsonObjectValueEnd_follows {rest : Bytes} (follows : Follows rest) : jsonObjectValueEnd rest 0 = 0 := by
  obtain ⟨blanks, tail, rfl, blank, ends⟩ := follows
  rcases ends with rfl | ⟨b, after, rfl, delimiter⟩
  · rw [jsonObjectValueEnd, skip_blanks blank (by simp), getElem?_length_append]
    rfl
  · have stop : ∀ d ∈ (b :: after).head?, ¬ IsBlank d := by
      rintro d ⟨⟩
      rcases delimiter with rfl | rfl
      · exact comma_not_blank
      · exact brace_not_blank
    rw [jsonObjectValueEnd, skip_blanks blank stop, getElem?_length_append]
    exact if_pos delimiter

theorem jsonObjectValueEnd_cases (rest : Bytes) :
    (Follows rest ∧ jsonObjectValueEnd rest 0 = 0) ∨ jsonObjectValueEnd rest 0 = rest.length := by
  obtain ⟨blanks, tail, split, blank, stop⟩ := blanks_cases rest
  cases tail with
  | nil =>
      have value : jsonObjectValueEnd rest 0 = 0 := by
        rw [jsonObjectValueEnd, split, skip_blanks blank stop]
        simp
      exact .inl ⟨⟨blanks, [], split, blank, .inl rfl⟩, value⟩
  | cons b after =>
      have value : jsonObjectValueEnd rest 0 = if b = byte ',' ∨ b = byte '}' then 0 else rest.length := by
        rw [jsonObjectValueEnd, split, skip_blanks blank stop]
        simp
      by_cases delimiter : b = byte ',' ∨ b = byte '}'
      · exact .inl ⟨⟨blanks, b :: after, split, blank, .inr ⟨b, after, rfl, delimiter⟩⟩, value.trans (if_pos delimiter)⟩
      · exact .inr (value.trans (if_neg delimiter))

/-! ### Strings -/

theorem quotedEndFrom_plain {b : UInt8} (notQuote : b ≠ byte '"') (notBackslash : b ≠ byte '\\') (rest : Bytes) :
    quotedEndFrom false 0 (b :: rest) = (quotedEndFrom false 0 rest).map (1 + ·) := by
  rw [← quotedEndFrom_add, quotedEndFrom]
  simp [notBackslash, notQuote]

theorem quotedEndFrom_escape (b : UInt8) (rest : Bytes) :
    quotedEndFrom false 0 (byte '\\' :: b :: rest) = (quotedEndFrom false 0 rest).map (2 + ·) := by
  rw [← quotedEndFrom_add]
  rfl

theorem quotedEndFrom_body {body : Bytes} (inside : Body body) (rest : Bytes) :
    quotedEndFrom false 0 (body ++ byte '"' :: rest) = some (body.length + 1) := by
  induction inside with
  | nil => rfl
  | plain notQuote notBackslash _ ih =>
      rw [List.cons_append, quotedEndFrom_plain notQuote notBackslash, ih, Option.map_some, List.length_cons]
      congr 1
      omega
  | escape b _ ih =>
      rw [List.cons_append, List.cons_append, quotedEndFrom_escape, ih, Option.map_some, List.length_cons,
        List.length_cons]
      congr 1
      omega

theorem stringEndFrom_body {body : Bytes} (inside : Body body) (rest : Bytes) :
    stringEndFrom 0 (body ++ byte '"' :: rest) = some body.length := by
  induction inside with
  | nil => exact stringEndFrom_quote 0 rest
  | plain notQuote notBackslash _ ih =>
      rw [List.cons_append, stringEndFrom_plain notQuote notBackslash, Nat.add_comm 0 1, stringEndFrom_add, ih,
        Option.map_some, List.length_cons, Nat.add_comm]
  | escape b _ ih =>
      rw [List.cons_append, List.cons_append, stringEndFrom_escape, Nat.add_comm 0 2, stringEndFrom_add, ih,
        Option.map_some, List.length_cons, List.length_cons, Nat.add_comm]

/-- A string has a closing quote, or both string loops run to the end of the text. -/
theorem string_cases (text : Bytes) :
    (∃ body rest, text = body ++ byte '"' :: rest ∧ Body body) ∨
      (quotedEndFrom false 0 text = none ∧ stringEndFrom 0 text = none) := by
  induction size : text.length using Nat.strongRecOn generalizing text with
  | _ n ih =>
      match text with
      | [] => exact .inr ⟨rfl, rfl⟩
      | b :: rest =>
          by_cases quote : b = byte '"'
          · exact .inl ⟨[], rest, by rw [quote]; rfl, .nil⟩
          by_cases backslash : b = byte '\\'
          · subst backslash
            match rest with
            | [] => exact .inr ⟨rfl, rfl⟩
            | c :: rest =>
                rcases ih rest.length (by simp at size; omega) rest rfl with ⟨body, after, rfl, inside⟩ | ⟨quoted, ended⟩
                · exact .inl ⟨byte '\\' :: c :: body, after, rfl, .escape c inside⟩
                · refine .inr ⟨?_, ?_⟩
                  · rw [quotedEndFrom_escape, quoted]
                    rfl
                  · rw [stringEndFrom_escape, Nat.add_comm 0 2, stringEndFrom_add, ended]
                    rfl
          · rcases ih rest.length (by simp at size; omega) rest rfl with ⟨body, after, rfl, inside⟩ | ⟨quoted, ended⟩
            · exact .inl ⟨b :: body, after, rfl, .plain quote backslash inside⟩
            · refine .inr ⟨?_, ?_⟩
              · rw [quotedEndFrom_plain quote backslash, quoted]
                rfl
              · rw [stringEndFrom_plain quote backslash, Nat.add_comm 0 1, stringEndFrom_add, ended]
                rfl

/-! ### Composites -/

/-- Inside of a string, up to its closing quote. -/
theorem compositeEndFrom_body {body : Bytes} (inside : Body body) (stack rest : Bytes) :
    compositeEndFrom stack true false 0 (body ++ byte '"' :: rest) =
      (compositeEndFrom stack false false 0 rest).map (body.length + 1 + ·) := by
  induction inside with
  | nil =>
      rw [List.nil_append, ← compositeEndFrom_add]
      rfl
  | @plain b others notQuote notBackslash _ ih =>
      rw [← compositeEndFrom_add] at ih ⊢
      have next : compositeEndFrom stack true false 0 (b :: others ++ byte '"' :: rest) =
          compositeEndFrom stack true false (1 + 0) (others ++ byte '"' :: rest) := by
        simp [compositeEndFrom, notBackslash, notQuote]
      rw [next, compositeEndFrom_add, ih, ← compositeEndFrom_add, List.length_cons]
      congr 1
      omega
  | @escape b others _ ih =>
      rw [← compositeEndFrom_add] at ih ⊢
      have next : compositeEndFrom stack true false 0 (byte '\\' :: b :: others ++ byte '"' :: rest) =
          compositeEndFrom stack true false (2 + 0) (others ++ byte '"' :: rest) := rfl
      rw [next, compositeEndFrom_add, ih, ← compositeEndFrom_add, List.length_cons, List.length_cons]
      congr 1
      omega

theorem compositeEndFrom_open {opener : UInt8} (isOpener : IsOpener opener) (stack rest : Bytes) :
    compositeEndFrom stack false false 0 (opener :: rest) =
      (compositeEndFrom (closer opener :: stack) false false 0 rest).map (1 + ·) := by
  rw [← compositeEndFrom_add]
  rcases isOpener with rfl | rfl <;> rfl

theorem isCloser_closer (opener : UInt8) : IsCloser (closer opener) := by
  unfold closer IsCloser
  split
  · exact .inl rfl
  · exact .inr rfl

/-- A closing bracket on top of the stack. -/
theorem compositeEndFrom_close {top : UInt8} (isCloser : IsCloser top) (stack rest : Bytes) :
    compositeEndFrom (top :: stack) false false 0 (top :: rest) =
      if stack = [] then some 1 else (compositeEndFrom stack false false 0 rest).map (1 + ·) := by
  have notQuote : top ≠ byte '"' := by rcases isCloser with rfl | rfl <;> decide
  have notOpener : ¬ IsOpener top := by rcases isCloser with rfl | rfl <;> decide
  unfold IsOpener at notOpener
  unfold IsCloser at isCloser
  rw [← compositeEndFrom_add]
  simp [compositeEndFrom, notQuote, notOpener, isCloser]

theorem compositeEndFrom_crossed {b top : UInt8} (isCloser : IsCloser b) (crossed : b ≠ top) (stack rest : Bytes) :
    compositeEndFrom (top :: stack) false false 0 (b :: rest) = none := by
  have notQuote : b ≠ byte '"' := by rcases isCloser with rfl | rfl <;> decide
  have notOpener : ¬ IsOpener b := by rcases isCloser with rfl | rfl <;> decide
  unfold IsOpener at notOpener
  unfold IsCloser at isCloser
  simp [compositeEndFrom, notQuote, notOpener, isCloser, crossed]

/-- A string without its closing quote takes the rest of the text. -/
theorem compositeEndFrom_unterminated {escaped : Bool} {index : Nat} {text : Bytes}
    (unended : quotedEndFrom escaped index text = none) (stack : Bytes) :
    compositeEndFrom stack true escaped index text = none := by
  induction text generalizing escaped index with
  | nil => rfl
  | cons b rest ih =>
      rw [quotedEndFrom] at unended
      rw [compositeEndFrom]
      split
      · next behind =>
          rw [if_pos behind] at unended
          exact ih unended
      · next bare =>
          rw [if_neg bare] at unended
          split
          · next backslash =>
              rw [if_pos backslash] at unended
              exact ih unended
          · next notBackslash =>
              rw [if_neg notBackslash] at unended
              split at unended
              · cases unended
              · next notQuote =>
                  rw [if_neg notQuote]
                  cases escaped with
                  | true => exact absurd rfl bare
                  | false => exact ih unended

theorem compositeEndFrom_other {b : UInt8} (notQuote : b ≠ byte '"') (notOpener : ¬ IsOpener b)
    (notCloser : ¬ IsCloser b) (stack rest : Bytes) :
    compositeEndFrom stack false false 0 (b :: rest) = (compositeEndFrom stack false false 0 rest).map (1 + ·) := by
  rw [← compositeEndFrom_add]
  unfold IsOpener at notOpener
  unfold IsCloser at notCloser
  simp [compositeEndFrom, notQuote, notOpener, notCloser]

/-- A balanced piece is passed without a change of the stack. -/
theorem compositeEndFrom_balanced {piece : Bytes} (balanced : Balanced piece) {stack : Bytes} (filled : stack ≠ [])
    (rest : Bytes) : compositeEndFrom stack false false 0 (piece ++ rest) =
      (compositeEndFrom stack false false 0 rest).map (piece.length + ·) := by
  induction balanced generalizing stack rest with
  | nil => simp
  | plain notQuote notOpener notCloser _ ih =>
      rw [List.cons_append, compositeEndFrom_other notQuote notOpener notCloser, ih filled, Option.map_map,
        List.length_cons]
      congr 1
      funext stop
      simp only [Function.comp_apply]
      omega
  | @string body others inside _ ih =>
      have next : compositeEndFrom stack false false 0 (byte '"' :: body ++ byte '"' :: others ++ rest) =
          compositeEndFrom stack true false (1 + 0) (body ++ byte '"' :: (others ++ rest)) := by
        simp [compositeEndFrom]
      rw [next, compositeEndFrom_add, compositeEndFrom_body inside, ih filled, Option.map_map, Option.map_map]
      congr 1
      funext stop
      simp
      omega
  | @nested opener inner others isOpener _ _ inside behind =>
      have shape : opener :: inner ++ closer opener :: others ++ rest =
          opener :: (inner ++ closer opener :: (others ++ rest)) := by simp
      rw [shape, compositeEndFrom_open isOpener, inside (by simp), compositeEndFrom_close (isCloser_closer opener),
        if_neg filled, behind filled, Option.map_map, Option.map_map, Option.map_map]
      congr 1
      funext stop
      simp
      omega

theorem compositeEndFrom_string (stack rest : Bytes) :
    compositeEndFrom stack false false 0 (byte '"' :: rest) =
      (compositeEndFrom stack true false 0 rest).map (1 + ·) := by
  rw [← compositeEndFrom_add]
  simp [compositeEndFrom]

/-- The bracket loop either fails or stops behind what closes its stack. -/
theorem composite_cases (text : Bytes) {stack : Bytes} (filled : stack ≠ []) :
    compositeEndFrom stack false false 0 text = none ∨
      ∃ content rest, text = content ++ rest ∧ Closes stack content ∧
        compositeEndFrom stack false false 0 text = some content.length := by
  induction size : text.length using Nat.strongRecOn generalizing text stack with
  | _ n ih =>
      match text with
      | [] => exact .inl rfl
      | b :: rest =>
          have shorter : rest.length < n := by
            rw [← size]
            exact Nat.lt_succ_self _
          by_cases quote : b = byte '"'
          · subst quote
            rw [compositeEndFrom_string]
            rcases string_cases rest with ⟨body, after, rfl, inside⟩ | ⟨unterminated, _⟩
            · rw [compositeEndFrom_body inside]
              have after_shorter : after.length < n := by
                rw [List.length_append, List.length_cons] at shorter
                omega
              rcases ih after.length after_shorter after filled rfl with failed | ⟨content, left, rfl, closes, ended⟩
              · rw [failed]
                exact .inl rfl
              · refine .inr ⟨byte '"' :: body ++ byte '"' :: [] ++ content, left, by simp,
                  closes.before (.string inside .nil), ?_⟩
                rw [ended]
                simp
                omega
            · rw [compositeEndFrom_unterminated unterminated]
              exact .inl rfl
          by_cases isOpener : IsOpener b
          · rw [compositeEndFrom_open isOpener]
            rcases ih rest.length shorter rest (List.cons_ne_nil (closer b) stack) rfl with
              failed | ⟨content, left, rfl, closes, ended⟩
            · rw [failed]
              exact .inl rfl
            · refine .inr ⟨b :: content, left, rfl, closes.opened isOpener filled, ?_⟩
              rw [ended, Option.map_some, List.length_cons, Nat.add_comm]
          by_cases isCloser : IsCloser b
          · obtain ⟨top, below, rfl⟩ := List.exists_cons_of_ne_nil filled
            by_cases crossed : b ≠ top
            · exact .inl (compositeEndFrom_crossed isCloser crossed below rest)
            rw [not_not] at crossed
            subst crossed
            rw [compositeEndFrom_close isCloser]
            by_cases lowest : below = []
            · subst lowest
              exact .inr ⟨[b], rest, rfl, .last .nil, if_pos rfl⟩
            · rw [if_neg lowest]
              rcases ih rest.length shorter rest lowest rfl with failed | ⟨content, left, rfl, closes, ended⟩
              · rw [failed]
                exact .inl rfl
              · refine .inr ⟨b :: content, left, rfl, .more .nil closes, ?_⟩
                rw [ended, Option.map_some, List.length_cons, Nat.add_comm]
          · rw [compositeEndFrom_other quote isOpener isCloser]
            rcases ih rest.length shorter rest filled rfl with failed | ⟨content, left, rfl, closes, ended⟩
            · rw [failed]
              exact .inl rfl
            · refine .inr ⟨b :: content, left, rfl, closes.before (.plain quote isOpener isCloser .nil), ?_⟩
              rw [ended, Option.map_some, List.length_cons, Nat.add_comm]

/-! ### Literals and numbers -/

theorem isDigit_iff {b : UInt8} : isDigit b = true ↔ IsDigit b := by
  simp [isDigit, IsDigit]

theorem digitsEnd_digits {digits rest : Bytes} (all : ∀ b ∈ digits, IsDigit b) (stop : ∀ b ∈ rest.head?, ¬ IsDigit b) :
    digitsEnd (digits ++ rest) 0 = digits.length := by
  have front : (digits ++ rest).takeWhile isDigit = digits := by
    rw [List.takeWhile_append_of_pos fun b member => isDigit_iff.mpr (all b member)]
    cases rest with
    | nil => simp
    | cons b after => rw [List.takeWhile_cons_of_neg (mt isDigit_iff.mp (stop b rfl)), List.append_nil]
  rw [digitsEnd, List.drop_zero, front, Nat.zero_add]

/-- The digits at the head of a text. -/
theorem digits_cases (text : Bytes) :
    ∃ digits rest, text = digits ++ rest ∧ (∀ b ∈ digits, IsDigit b) ∧ ∀ b ∈ rest.head?, ¬ IsDigit b := by
  refine ⟨text.takeWhile isDigit, text.dropWhile isDigit, List.takeWhile_append_dropWhile.symm,
    fun b member => isDigit_iff.mp (List.mem_takeWhile_imp member), fun b head digit => ?_⟩
  have := List.head?_dropWhile_not isDigit text
  rw [Option.mem_def.mp head] at this
  simp [isDigit_iff.mpr digit] at this

theorem digitsEnd_at (before : Bytes) {digits rest : Bytes} (all : ∀ b ∈ digits, IsDigit b)
    (stop : ∀ b ∈ rest.head?, ¬ IsDigit b) :
    digitsEnd (before ++ (digits ++ rest)) before.length = before.length + digits.length := by
  have := digitsEnd_append before (digits ++ rest) 0
  rw [Nat.add_zero, digitsEnd_digits all stop] at this
  exact this

theorem integerEnd_integer {integer rest : Bytes} (isInteger : IsInteger integer)
    (stop : ∀ b ∈ rest.head?, ¬ IsDigit b) : integerEnd (integer ++ rest) 0 = some integer.length := by
  rcases isInteger with rfl | ⟨first, digits, rfl, digit, nonzero, all⟩
  · rfl
  · have every : ∀ b ∈ first :: digits, IsDigit b := List.forall_mem_cons.mpr ⟨digit, all⟩
    rw [List.cons_append, integerEnd, List.getElem?_cons_zero]
    simp only
    rw [if_neg nonzero, if_pos (isDigit_iff.mpr digit), ← List.cons_append, digitsEnd_digits every stop]

theorem integerEnd_cases (text : Bytes) : integerEnd text 0 = none ∨
    ∃ integer rest, text = integer ++ rest ∧ IsInteger integer ∧ integerEnd text 0 = some integer.length := by
  match text with
  | [] => exact .inl rfl
  | first :: rest =>
      by_cases zero : first = byte '0'
      · exact .inr ⟨[first], rest, rfl, .inl (by rw [zero]), if_pos zero⟩
      by_cases digit : IsDigit first
      · obtain ⟨digits, after, rfl, all, stop⟩ := digits_cases rest
        have isInteger : IsInteger (first :: digits) := .inr ⟨first, digits, rfl, digit, zero, all⟩
        exact .inr ⟨first :: digits, after, rfl, isInteger, integerEnd_integer isInteger stop⟩
      · refine .inl ?_
        rw [integerEnd, List.getElem?_cons_zero]
        simp only
        rw [if_neg zero, if_neg (mt isDigit_iff.mp digit)]

theorem fractionEnd_point {digits rest : Bytes} (all : ∀ b ∈ digits, IsDigit b) (stop : ∀ b ∈ rest.head?, ¬ IsDigit b) :
    fractionEnd (byte '.' :: (digits ++ rest)) 0 = if digits = [] then none else some (byte '.' :: digits).length := by
  have found : digitsEnd (byte '.' :: (digits ++ rest)) (0 + 1) = 1 + digits.length := digitsEnd_at [byte '.'] all stop
  have here : (byte '.' :: (digits ++ rest))[0]? = some (byte '.') := rfl
  rw [fractionEnd, if_pos here]
  simp only [found]
  by_cases filled : digits = []
  · rw [if_pos filled, if_pos (by rw [filled]; rfl)]
  · have := List.length_pos_of_ne_nil filled
    rw [if_neg filled, if_neg (by omega), List.length_cons, Nat.add_comm]

theorem fractionEnd_fraction {fraction rest : Bytes} (isFraction : IsFraction fraction)
    (stop : ∀ b ∈ rest.head?, ¬ IsDigit b ∧ b ≠ byte '.') :
    fractionEnd (fraction ++ rest) 0 = some fraction.length := by
  rcases isFraction with rfl | ⟨digits, rfl, filled, all⟩
  · have quiet : ¬ rest[0]? = some (byte '.') := by
      rw [← List.head?_eq_getElem?]
      exact fun head => (stop _ head).2 rfl
    exact if_neg quiet
  · rw [List.cons_append, fractionEnd_point all fun b head => (stop b head).1, if_neg filled]

theorem fractionEnd_cases (text : Bytes) : fractionEnd text 0 = none ∨
    ∃ fraction rest, text = fraction ++ rest ∧ IsFraction fraction ∧ fractionEnd text 0 = some fraction.length := by
  by_cases point : text[0]? = some (byte '.')
  · match text, point with
    | _ :: rest, rfl =>
        obtain ⟨digits, after, rfl, all, stop⟩ := digits_cases rest
        have value := fractionEnd_point all stop
        by_cases filled : digits = []
        · exact .inl (value.trans (if_pos filled))
        · exact .inr ⟨byte '.' :: digits, after, rfl, .inr ⟨digits, rfl, filled, all⟩, value.trans (if_neg filled)⟩
  · exact .inr ⟨[], text, rfl, .inl rfl, if_neg point⟩

/-- The exponent behind its marker. -/
def signedDigitsEnd (value : Bytes) (index : Nat) : Option Nat :=
  let exponentStart := if value[index]? = some (byte '+') ∨ value[index]? = some (byte '-') then index + 1 else index
  let index := digitsEnd value exponentStart
  if index = exponentStart then none else some index

theorem exponentEnd_marker {marker : UInt8} (isMarker : marker = byte 'e' ∨ marker = byte 'E') (rest : Bytes) :
    exponentEnd (marker :: rest) 0 = signedDigitsEnd (marker :: rest) 1 := by
  have here : (marker :: rest)[0]? = some (byte 'e') ∨ (marker :: rest)[0]? = some (byte 'E') :=
    isMarker.imp (congrArg some) (congrArg some)
  rw [exponentEnd, if_pos here]
  rfl

/-- The digits of an exponent behind its marker and its sign. -/
theorem signedDigitsEnd_eq {marker : UInt8} {sign digits rest : Bytes}
    (signed : sign = [] ∨ sign = [byte '+'] ∨ sign = [byte '-']) (all : ∀ b ∈ digits, IsDigit b)
    (stop : ∀ b ∈ rest.head?, ¬ IsDigit b)
    (unsigned : sign = [] → (digits ++ rest)[0]? ≠ some (byte '+') ∧ (digits ++ rest)[0]? ≠ some (byte '-')) :
    signedDigitsEnd (marker :: (sign ++ (digits ++ rest))) 1 =
      if digits = [] then none else some (marker :: (sign ++ digits)).length := by
  have start : (if (marker :: (sign ++ (digits ++ rest)))[1]? = some (byte '+') ∨
      (marker :: (sign ++ (digits ++ rest)))[1]? = some (byte '-') then 1 + 1 else 1) = (marker :: sign).length := by
    rcases signed with rfl | rfl | rfl
    · obtain ⟨noPlus, noMinus⟩ := unsigned rfl
      exact if_neg (not_or.mpr ⟨noPlus, noMinus⟩)
    · rfl
    · rfl
  have found : digitsEnd (marker :: (sign ++ (digits ++ rest))) (marker :: sign).length =
      (marker :: sign).length + digits.length := digitsEnd_at (marker :: sign) all stop
  rw [signedDigitsEnd, start]
  simp only [found]
  by_cases filled : digits = []
  · rw [if_pos filled, if_pos (by rw [filled]; rfl)]
  · have := List.length_pos_of_ne_nil filled
    rw [if_neg filled, if_neg (by omega), List.length_cons, List.length_cons, List.length_append]
    congr 1
    omega

theorem exponentEnd_exponent {exponent rest : Bytes} (isExponent : IsExponent exponent)
    (stop : ∀ b ∈ rest.head?, ¬ IsDigit b ∧ b ≠ byte 'e' ∧ b ≠ byte 'E') :
    exponentEnd (exponent ++ rest) 0 = some exponent.length := by
  rcases isExponent with rfl | ⟨marker, sign, digits, rfl, isMarker, signed, filled, all⟩
  · have quiet : ¬ (rest[0]? = some (byte 'e') ∨ rest[0]? = some (byte 'E')) := by
      rw [← List.head?_eq_getElem?]
      rintro (head | head)
      · exact (stop _ head).2.1 rfl
      · exact (stop _ head).2.2 rfl
    exact if_neg quiet
  · obtain ⟨first, others, rfl⟩ := List.exists_cons_of_ne_nil filled
    have digit := all first List.mem_cons_self
    have unsigned : (first :: others ++ rest)[0]? ≠ some (byte '+') ∧ (first :: others ++ rest)[0]? ≠ some (byte '-') := by
      constructor
      · rintro ⟨⟩
        exact absurd digit (by decide)
      · rintro ⟨⟩
        exact absurd digit (by decide)
    rw [List.cons_append, List.append_assoc, exponentEnd_marker isMarker,
      signedDigitsEnd_eq signed all (fun b head => (stop b head).1) fun _ => unsigned, if_neg filled]

theorem exponentEnd_cases (text : Bytes) : exponentEnd text 0 = none ∨
    ∃ exponent rest, text = exponent ++ rest ∧ IsExponent exponent ∧ exponentEnd text 0 = some exponent.length := by
  by_cases marked : text[0]? = some (byte 'e') ∨ text[0]? = some (byte 'E')
  · obtain ⟨marker, rest, rfl⟩ : ∃ marker rest, text = marker :: rest := by
      match text, marked with
      | marker :: rest, _ => exact ⟨marker, rest, rfl⟩
    have isMarker : marker = byte 'e' ∨ marker = byte 'E' := marked.imp Option.some.inj Option.some.inj
    obtain ⟨sign, unsigned, rfl, signed, bare⟩ : ∃ sign unsigned, rest = sign ++ unsigned ∧
        (sign = [] ∨ sign = [byte '+'] ∨ sign = [byte '-']) ∧
        (sign = [] → unsigned[0]? ≠ some (byte '+') ∧ unsigned[0]? ≠ some (byte '-')) := by
      by_cases plus : rest[0]? = some (byte '+')
      · match rest, plus with
        | _ :: rest, rfl => exact ⟨[byte '+'], rest, rfl, .inr (.inl rfl), by simp⟩
      by_cases minus : rest[0]? = some (byte '-')
      · match rest, minus with
        | _ :: rest, rfl => exact ⟨[byte '-'], rest, rfl, .inr (.inr rfl), by simp⟩
      exact ⟨[], rest, rfl, .inl rfl, fun _ => ⟨plus, minus⟩⟩
    obtain ⟨digits, after, rfl, all, stop⟩ := digits_cases unsigned
    have value := (exponentEnd_marker isMarker (sign ++ (digits ++ after))).trans (signedDigitsEnd_eq signed all stop bare)
    by_cases filled : digits = []
    · exact .inl (value.trans (if_pos filled))
    · exact .inr ⟨marker :: (sign ++ digits), after, by simp,
        .inr ⟨marker, sign, digits, rfl, isMarker, signed, filled, all⟩, value.trans (if_neg filled)⟩
  · exact .inr ⟨[], text, rfl, .inl rfl, if_neg marked⟩

/-- No number goes on with what may stand here. -/
def EndsNumber (rest : Bytes) : Prop :=
  ∀ b ∈ rest.head?, ¬ IsDigit b ∧ b ≠ byte '.' ∧ b ≠ byte 'e' ∧ b ≠ byte 'E'

theorem endsNumber_of_follows {rest : Bytes} (follows : Follows rest) : EndsNumber rest := by
  have blank_ends : ∀ b, IsBlank b → ¬ IsDigit b ∧ b ≠ byte '.' ∧ b ≠ byte 'e' ∧ b ≠ byte 'E' := by
    rintro b (rfl | rfl | rfl | rfl) <;> decide
  obtain ⟨blanks, tail, rfl, blank, ends⟩ := follows
  intro b head
  cases blanks with
  | cons first others =>
      cases head
      exact blank_ends b (blank b List.mem_cons_self)
  | nil =>
      rcases ends with rfl | ⟨delimiter, after, rfl, isDelimiter⟩
      · cases head
      · cases head
        rcases isDelimiter with rfl | rfl <;> decide

/-- Positions behind what is known to stand at the head. -/
theorem fractionEnd_at (before rest : Bytes) :
    fractionEnd (before ++ rest) before.length = (fractionEnd rest 0).map (before.length + ·) :=
  fractionEnd_append before rest 0

theorem exponentEnd_at (before rest : Bytes) :
    exponentEnd (before ++ rest) before.length = (exponentEnd rest 0).map (before.length + ·) :=
  exponentEnd_append before rest 0

theorem numberEnd_unsigned {integer fraction exponent rest : Bytes} (isInteger : IsInteger integer)
    (isFraction : IsFraction fraction) (isExponent : IsExponent exponent) (ends : EndsNumber rest) :
    numberEnd (integer ++ (fraction ++ (exponent ++ rest))) 0 = some (integer ++ (fraction ++ exponent)).length := by
  have behindFraction : ∀ b ∈ (exponent ++ rest).head?, ¬ IsDigit b ∧ b ≠ byte '.' := by
    rcases isExponent with rfl | ⟨marker, sign, digits, rfl, isMarker, _⟩
    · exact fun b head => ⟨(ends b head).1, (ends b head).2.1⟩
    · rintro b ⟨⟩
      rcases isMarker with rfl | rfl <;> decide
  have behindInteger : ∀ b ∈ (fraction ++ (exponent ++ rest)).head?, ¬ IsDigit b := by
    rcases isFraction with rfl | ⟨digits, rfl, _⟩
    · exact fun b head => (behindFraction b head).1
    · rintro b ⟨⟩
      decide
  rw [numberEnd, integerEnd_integer isInteger behindInteger, Option.bind_some, fractionEnd_at,
    fractionEnd_fraction isFraction behindFraction, Option.map_some, Option.bind_some, ← List.length_append,
    ← List.append_assoc, exponentEnd_at,
    exponentEnd_exponent isExponent fun b head => ⟨(ends b head).1, (ends b head).2.2⟩, Option.map_some,
    ← List.length_append, List.append_assoc]

theorem numberEnd_cases (text : Bytes) : numberEnd text 0 = none ∨
    ∃ integer fraction exponent rest, text = integer ++ (fraction ++ (exponent ++ rest)) ∧ IsInteger integer ∧
      IsFraction fraction ∧ IsExponent exponent ∧ numberEnd text 0 = some (integer ++ (fraction ++ exponent)).length := by
  unfold numberEnd
  rcases integerEnd_cases text with failed | ⟨integer, behind, rfl, isInteger, found⟩
  · rw [failed]
    exact .inl rfl
  rw [found, Option.bind_some, fractionEnd_at]
  rcases fractionEnd_cases behind with failed | ⟨fraction, behind, rfl, isFraction, found⟩
  · rw [failed]
    exact .inl rfl
  rw [found, Option.map_some, Option.bind_some, ← List.length_append, ← List.append_assoc, exponentEnd_at]
  rcases exponentEnd_cases behind with failed | ⟨exponent, behind, rfl, isExponent, found⟩
  · rw [failed]
    exact .inl rfl
  refine .inr ⟨integer, fraction, exponent, behind, by simp, isInteger, isFraction, isExponent, ?_⟩
  rw [found, Option.map_some, ← List.length_append, List.append_assoc]

/-- The three literals of `jsonPrimitiveValueEnd`. -/
def literals : List Bytes := [lit "true", lit "false", lit "null"]

theorem primitive_of_literal {token : Bytes} (named : token ∈ literals) : Primitive token := by
  simp only [literals, List.mem_cons, List.not_mem_nil, or_false] at named
  rcases named with rfl | rfl | rfl
  · exact .inl rfl
  · exact .inr (.inl rfl)
  · exact .inr (.inr (.inl rfl))

theorem jsonObjectValueEnd_at (token rest : Bytes) :
    jsonObjectValueEnd (token ++ rest) token.length = token.length + jsonObjectValueEnd rest 0 :=
  jsonObjectValueEnd_append token rest 0

/-- A primitive value is one token of the grammar, with `jsonObjectValueEnd` asked behind it. -/
theorem jsonPrimitiveValueEnd_cases (text : Bytes) : jsonPrimitiveValueEnd text 0 = none ∨
    ∃ token rest, text = token ++ rest ∧ Primitive token ∧
      jsonPrimitiveValueEnd text 0 = some (token.length + jsonObjectValueEnd rest 0) := by
  rw [jsonPrimitiveValueEnd_eq, List.drop_zero]
  cases named : [lit "true", lit "false", lit "null"].find? (·.isPrefixOf text) with
  | some literal =>
      have prefixed : literal.isPrefixOf text = true := List.find?_some (p := fun known => List.isPrefixOf known text) named
      obtain ⟨rest, rfl⟩ := List.isPrefixOf_iff_prefix.mp prefixed
      refine .inr ⟨literal, rest, rfl, primitive_of_literal (List.mem_of_find?_eq_some named), ?_⟩
      simp only [Nat.zero_add]
      rw [jsonObjectValueEnd_at]
  | none =>
      simp only
      by_cases minus : text[0]? = some (byte '-')
      · match text, minus with
        | _ :: text, rfl =>
            have shifted : numberEnd (byte '-' :: text) (0 + 1) = (numberEnd text 0).map (1 + ·) :=
              numberEnd_append [byte '-'] text 0
            have here : (byte '-' :: text)[0]? = some (byte '-') := rfl
            rw [if_pos here, shifted]
            rcases numberEnd_cases text with failed | ⟨integer, fraction, exponent, rest, rfl, isInteger, isFraction,
              isExponent, found⟩
            · rw [failed]
              exact .inl rfl
            · refine .inr ⟨byte '-' :: (integer ++ (fraction ++ exponent)), rest, by simp, .inr (.inr (.inr
                ⟨[byte '-'], integer, fraction, exponent, rfl, .inr rfl, isInteger, isFraction, isExponent⟩)), ?_⟩
              rw [found, ← jsonObjectValueEnd_at]
              simp [Nat.add_comm]
      · rw [if_neg minus]
        rcases numberEnd_cases text with failed | ⟨integer, fraction, exponent, rest, rfl, isInteger, isFraction,
          isExponent, found⟩
        · rw [failed]
          exact .inl rfl
        · refine .inr ⟨integer ++ (fraction ++ exponent), rest, by simp, .inr (.inr (.inr
            ⟨[], integer, fraction, exponent, rfl, .inl rfl, isInteger, isFraction, isExponent⟩)), ?_⟩
          rw [found, ← jsonObjectValueEnd_at]
          simp

theorem literal_true : lit "true" = [byte 't', byte 'r', byte 'u', byte 'e'] := by decide

theorem literal_false : lit "false" = [byte 'f', byte 'a', byte 'l', byte 's', byte 'e'] := by decide

theorem literal_null : lit "null" = [byte 'n', byte 'u', byte 'l', byte 'l'] := by decide

/-- The literal at the head of a text. -/
theorem find_literal {literal : Bytes} (named : literal ∈ literals) (rest : Bytes) :
    [lit "true", lit "false", lit "null"].find? (·.isPrefixOf (literal ++ rest)) = some literal := by
  simp only [literals, List.mem_cons, List.not_mem_nil, or_false] at named
  rw [literal_true, literal_false, literal_null] at *
  rcases named with rfl | rfl | rfl
  · rfl
  · rfl
  · rfl

theorem find_no_literal {first : UInt8} (notLetter : first ≠ byte 't' ∧ first ≠ byte 'f' ∧ first ≠ byte 'n')
    (rest : Bytes) : [lit "true", lit "false", lit "null"].find? (·.isPrefixOf (first :: rest)) = none := by
  rw [literal_true, literal_false, literal_null]
  simp [List.isPrefixOf, notLetter.1.symm, notLetter.2.1.symm, notLetter.2.2.symm]

theorem digit_head {integer : Bytes} (isInteger : IsInteger integer) :
    ∃ first rest, integer = first :: rest ∧ IsDigit first := by
  rcases isInteger with rfl | ⟨first, rest, rfl, digit, _⟩
  · exact ⟨byte '0', [], rfl, by decide⟩
  · exact ⟨first, rest, rfl, digit⟩

theorem notLetter_of_digit {b : UInt8} (digit : IsDigit b) :
    (b ≠ byte 't' ∧ b ≠ byte 'f' ∧ b ≠ byte 'n') ∧ b ≠ byte '-' := by
  refine ⟨⟨?_, ?_, ?_⟩, ?_⟩
  · rintro rfl
    exact absurd digit (by decide)
  · rintro rfl
    exact absurd digit (by decide)
  · rintro rfl
    exact absurd digit (by decide)
  · rintro rfl
    exact absurd digit (by decide)

/-- A primitive token in front of what may follow a value is read as a whole. -/
theorem jsonPrimitiveValueEnd_token {token rest : Bytes} (primitive : Primitive token) (follows : Follows rest) :
    jsonPrimitiveValueEnd (token ++ rest) 0 = some token.length := by
  have behind : jsonObjectValueEnd (token ++ rest) token.length = token.length := by
    rw [jsonObjectValueEnd_at, jsonObjectValueEnd_follows follows, Nat.add_zero]
  have named : token ∈ literals → jsonPrimitiveValueEnd (token ++ rest) 0 = some token.length := by
    intro member
    rw [jsonPrimitiveValueEnd_eq, List.drop_zero, find_literal member]
    simp only [Nat.zero_add]
    rw [behind]
  rcases primitive with same | same | same | ⟨sign, integer, fraction, exponent, same, signed, isInteger, isFraction,
    isExponent⟩
  · exact named (by simp [same, literals])
  · exact named (by simp [same, literals])
  · exact named (by simp [same, literals])
  · obtain ⟨first, others, shape, digit⟩ := digit_head isInteger
    obtain ⟨notLetter, notMinus⟩ := notLetter_of_digit digit
    have number := numberEnd_unsigned isInteger isFraction isExponent (endsNumber_of_follows follows)
    have text : token ++ rest = sign ++ (integer ++ (fraction ++ (exponent ++ rest))) := by simp [same]
    rw [jsonPrimitiveValueEnd_eq, List.drop_zero]
    rcases signed with rfl | rfl
    · have unnamed : [lit "true", lit "false", lit "null"].find? (·.isPrefixOf (token ++ rest)) = none := by
        rw [text, shape]
        exact find_no_literal notLetter _
      have unsigned : ¬ (token ++ rest)[0]? = some (byte '-') := by
        rw [text, shape]
        exact fun head => notMinus (Option.some.inj head)
      have read : numberEnd (token ++ rest) 0 = some token.length := by
        rw [text, same]
        exact number
      rw [unnamed]
      simp only
      rw [if_neg unsigned, read, Option.map_some, behind]
    · have unnamed : [lit "true", lit "false", lit "null"].find? (·.isPrefixOf (token ++ rest)) = none := by
        rw [text]
        exact find_no_literal (by decide) _
      have minus : (token ++ rest)[0]? = some (byte '-') := by
        rw [text]
        rfl
      have read : numberEnd (token ++ rest) (0 + 1) = some token.length := by
        have shifted := numberEnd_append [byte '-'] (integer ++ (fraction ++ (exponent ++ rest))) 0
        rw [number, Option.map_some, ← List.length_append, ← text, ← same] at shifted
        exact shifted
      rw [unnamed]
      simp only
      rw [if_pos minus, read, Option.map_some, behind]

/-- A primitive token starts with neither a quote nor an opening bracket nor a blank. -/
theorem primitive_head {token : Bytes} (primitive : Primitive token) :
    ∃ first others, token = first :: others ∧ first ≠ byte '"' ∧ ¬ IsOpener first ∧ ¬ IsBlank first := by
  rcases primitive with rfl | rfl | rfl | ⟨sign, integer, fraction, exponent, rfl, signed, isInteger, _, _⟩
  · exact ⟨byte 't', _, literal_true, by decide, by decide, by decide⟩
  · exact ⟨byte 'f', _, literal_false, by decide, by decide, by decide⟩
  · exact ⟨byte 'n', _, literal_null, by decide, by decide, by decide⟩
  · rcases signed with rfl | rfl
    · obtain ⟨first, others, rfl, digit⟩ := digit_head isInteger
      refine ⟨first, _, rfl, ?_, ?_, ?_⟩
      · rintro rfl
        exact absurd digit (by decide)
      · rintro (rfl | rfl)
        · exact absurd digit (by decide)
        · exact absurd digit (by decide)
      · rintro (rfl | rfl | rfl | rfl)
        · exact absurd digit (by decide)
        · exact absurd digit (by decide)
        · exact absurd digit (by decide)
        · exact absurd digit (by decide)
    · exact ⟨byte '-', _, rfl, by decide, by decide, by decide⟩

theorem token_head {token : Bytes} (isToken : Token token) : ∃ first others, token = first :: others ∧ ¬ IsBlank first := by
  rcases isToken with ⟨body, rfl, _⟩ | ⟨opener, inner, isOpener, rfl, _⟩ | primitive
  · exact ⟨byte '"', _, rfl, by decide⟩
  · refine ⟨opener, _, rfl, ?_⟩
    rcases isOpener with rfl | rfl <;> decide
  · obtain ⟨first, others, same, _, _, notBlank⟩ := primitive_head primitive
    exact ⟨first, others, same, notBlank⟩

/-! ### One value -/

theorem jsonSecretValueEnd_string (rest : Bytes) : jsonSecretValueEnd (byte '"' :: rest) 0 =
    match quotedEndFrom false (1 + 0) rest with
    | some tokenEnd => jsonObjectValueEnd (byte '"' :: rest) tokenEnd
    | none => (byte '"' :: rest).length := rfl

theorem jsonSecretValueEnd_composite {opener : UInt8} (isOpener : IsOpener opener) (rest : Bytes) :
    jsonSecretValueEnd (opener :: rest) 0 =
      match compositeEndFrom [closer opener] false false (1 + 0) rest with
      | some tokenEnd => jsonObjectValueEnd (opener :: rest) tokenEnd
      | none => (opener :: rest).length := by
  rcases isOpener with rfl | rfl <;> rfl

theorem jsonSecretValueEnd_primitive {first : UInt8} (notQuote : first ≠ byte '"') (notOpener : ¬ IsOpener first)
    (rest : Bytes) : jsonSecretValueEnd (first :: rest) 0 =
      match jsonPrimitiveValueEnd (first :: rest) 0 with
      | some valueEnd => valueEnd
      | none => (first :: rest).length := by
  unfold IsOpener at notOpener
  rw [jsonSecretValueEnd, List.getElem?_cons_zero]
  simp only
  rw [if_neg notQuote, if_neg notOpener]
  rfl

/-- Where a value ends: behind one complete token, if that is followed as in an object, and else at the end of the
text. -/
theorem jsonSecretValueEnd_token_or_end (text : Bytes) : jsonSecretValueEnd text 0 = text.length ∨
    ∃ token rest, text = token ++ rest ∧ Token token ∧
      jsonSecretValueEnd text 0 = token.length + jsonObjectValueEnd rest 0 := by
  match text with
  | [] => exact .inl rfl
  | first :: behind =>
      by_cases quote : first = byte '"'
      · subst quote
        rw [jsonSecretValueEnd_string, quotedEndFrom_add]
        rcases string_cases behind with ⟨body, rest, rfl, inside⟩ | ⟨unterminated, _⟩
        · refine .inr ⟨byte '"' :: body ++ [byte '"'], rest, by simp, .inl ⟨body, rfl, inside⟩, ?_⟩
          rw [quotedEndFrom_body inside, ← jsonObjectValueEnd_at]
          simp [Nat.add_comm]
        · rw [unterminated]
          exact .inl rfl
      by_cases isOpener : IsOpener first
      · rw [jsonSecretValueEnd_composite isOpener, compositeEndFrom_add]
        rcases composite_cases behind (List.cons_ne_nil (closer first) []) with failed | ⟨content, rest, rfl, closes, found⟩
        · rw [failed]
          exact .inl rfl
        · obtain ⟨inner, rfl, balanced⟩ := closes.single
          refine .inr ⟨first :: inner ++ [closer first], rest, by simp,
            .inr (.inl ⟨first, inner, isOpener, rfl, balanced⟩), ?_⟩
          rw [found, ← jsonObjectValueEnd_at]
          simp [Nat.add_comm]
      · rw [jsonSecretValueEnd_primitive quote isOpener]
        rcases jsonPrimitiveValueEnd_cases (first :: behind) with failed | ⟨token, rest, same, primitive, found⟩
        · rw [failed]
          exact .inl rfl
        · exact .inr ⟨token, rest, same, .inr (.inr primitive), by rw [found]⟩

/-- From every start: the end of the text, or behind one complete token that is followed as in an object. -/
theorem jsonSecretValueEnd_cases (value : Bytes) {start : Nat} (inside : start ≤ value.length) :
    jsonSecretValueEnd value start = value.length ∨
      ∃ token rest, value.drop start = token ++ rest ∧ Token token ∧ Follows rest ∧
        jsonSecretValueEnd value start = start + token.length := by
  have moved : jsonSecretValueEnd value start = start + jsonSecretValueEnd (value.drop start) 0 := by
    have := jsonSecretValueEnd_append (value.take start) (value.drop start) 0
    rw [List.take_append_drop, List.length_take_of_le inside] at this
    exact this
  rw [moved]
  rcases jsonSecretValueEnd_token_or_end (value.drop start) with whole | ⟨token, rest, split, isToken, found⟩
  · rw [whole, List.length_drop]
    exact .inl (by omega)
  · rcases jsonObjectValueEnd_cases rest with ⟨follows, same⟩ | last
    · exact .inr ⟨token, rest, split, isToken, follows, by rw [found, same, Nat.add_zero]⟩
    · have size := congrArg List.length split
      rw [List.length_drop, List.length_append] at size
      exact .inl (by rw [found, last]; omega)

/-- A complete token in front of what may follow a value ends where it is. -/
theorem jsonSecretValueEnd_token {token rest : Bytes} (isToken : Token token) (follows : Follows rest) :
    jsonSecretValueEnd (token ++ rest) 0 = token.length := by
  have behind : jsonObjectValueEnd (token ++ rest) token.length = token.length := by
    rw [jsonObjectValueEnd_at, jsonObjectValueEnd_follows follows, Nat.add_zero]
  rcases isToken with ⟨body, rfl, inside⟩ | ⟨opener, inner, isOpener, rfl, balanced⟩ | primitive
  · have shape : byte '"' :: body ++ [byte '"'] ++ rest = byte '"' :: (body ++ byte '"' :: rest) := by simp
    rw [shape] at behind ⊢
    rw [jsonSecretValueEnd_string, quotedEndFrom_add, quotedEndFrom_body inside]
    simp only [Option.map_some]
    rw [← behind]
    simp [Nat.add_comm]
  · have shape : opener :: inner ++ [closer opener] ++ rest = opener :: (inner ++ closer opener :: rest) := by simp
    rw [shape] at behind ⊢
    rw [jsonSecretValueEnd_composite isOpener, compositeEndFrom_add, compositeEndFrom_balanced balanced (by simp),
      compositeEndFrom_close (isCloser_closer opener), if_pos rfl]
    simp only [Option.map_some]
    rw [← behind]
    simp [Nat.add_comm]
  · obtain ⟨first, others, shape, notQuote, notOpener, _⟩ := primitive_head primitive
    have read := jsonPrimitiveValueEnd_token primitive follows
    rw [shape, List.cons_append] at read ⊢
    rw [jsonSecretValueEnd_primitive notQuote notOpener, read]

end ExitfyCores.Bridge
