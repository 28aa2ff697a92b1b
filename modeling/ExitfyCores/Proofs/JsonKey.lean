/-
Module: ExitfyCores.Proofs.JsonKey
Layer: Proofs
Purpose: `decodeJSONKey` undoes every spelling of a JSON string, refuses exactly the malformed escapes and the lone
  surrogates, and never reads outside of the string.
Imports: ExitfyCores.Bridge.KeyIndex, ExitfyCores.Lib.JsonGrammar, ExitfyCores.Lib.Raise
Trusted boundary: none
Main exports: decodeHexQuad_iff, decodeJSONKey_eq_some_iff, decodeJSONKey_eq_none_iff, decodeKeyAt_eq,
  decodeJSONKey_spelling
Open obligations: none
-/
import ExitfyCores.Bridge.KeyIndex
import ExitfyCores.Lib.JsonGrammar
import ExitfyCores.Lib.Raise

namespace ExitfyCores.Bridge

open Json

/-! ### Digits -/

theorem hexDigit_iff {b : UInt8} {n : Nat} :
    hexDigit b = some n ↔ ∃ digit : HexDigit, b = digit.spelled ∧ digit.value.val = n := by
  constructor
  · have all : ∀ k : Fin 256, ∀ value ∈ hexDigit (UInt8.ofNat k.val), ∃ d : Fin 16, ∃ upper : Bool,
        UInt8.ofNat k.val = (HexDigit.mk d upper).spelled ∧ d.val = value := by
      decide +kernel
    intro found
    have known := all ⟨b.toNat, b.toNat_lt⟩ n
    simp only [UInt8.ofNat_toNat] at known
    obtain ⟨d, upper, same, value⟩ := known found
    exact ⟨⟨d, upper⟩, same, value⟩
  · have all : ∀ d : Fin 16, ∀ upper : Bool, hexDigit (HexDigit.mk d upper).spelled = some d.val := by decide
    rintro ⟨⟨d, upper⟩, rfl, rfl⟩
    exact all d upper

theorem decodeHexQuad_iff {value : Bytes} {n : Nat} :
    decodeHexQuad value = some n ↔ ∃ quad : Quad, value = quad.text ∧ quad.value = n := by
  constructor
  · intro decoded
    unfold decodeHexQuad at decoded
    split at decoded
    · cases decoded
    · next four =>
        obtain ⟨a, b, c, d, rfl⟩ := List.length_eq_four.mp (not_not.mp four)
        simp only [List.foldlM_cons, List.foldlM_nil, Option.bind_eq_bind, Option.bind_eq_some_iff,
          Option.map_eq_some_iff, pure, Option.some.injEq] at decoded
        obtain ⟨_, ⟨w, first, rfl⟩, _, ⟨x, second, rfl⟩, _, ⟨y, third, rfl⟩, _, ⟨z, fourth, rfl⟩, rfl⟩ := decoded
        rw [hexDigit_iff] at first second third fourth
        obtain ⟨firstDigit, rfl, rfl⟩ := first
        obtain ⟨secondDigit, rfl, rfl⟩ := second
        obtain ⟨thirdDigit, rfl, rfl⟩ := third
        obtain ⟨fourthDigit, rfl, rfl⟩ := fourth
        exact ⟨⟨firstDigit, secondDigit, thirdDigit, fourthDigit⟩, rfl, by simp [Quad.value]⟩
  · rintro ⟨quad, rfl, rfl⟩
    have digit : ∀ d : HexDigit, hexDigit d.spelled = some d.value.val := by
      intro d
      rw [hexDigit_iff]
      exact ⟨d, rfl, rfl⟩
    simp [decodeHexQuad, Quad.text, Quad.value, digit]

theorem decodeHexQuad_text (quad : Quad) : decodeHexQuad quad.text = some quad.value :=
  decodeHexQuad_iff.mpr ⟨quad, rfl, rfl⟩

theorem length_text (quad : Quad) : quad.text.length = 4 := rfl

/-! ### One escape -/

/-- The code point arithmetic of the source. -/
theorem joined_eq (high low : Quad) : joined high low =
    .ofNat (0x10000 + (high.value - 0xd800) <<< 10 + (low.value - 0xdc00)) := by
  rw [joined, Nat.shiftLeft_eq]

/-- `decodeUnicodeEscape` behind four digits. -/
theorem decodeUnicodeEscape_quad (quad : Quad) (rest : Bytes) :
    decodeUnicodeEscape (quad.text ++ rest) =
      if quad.IsHigh then
        if rest.length < 6 ∨ rest[0]? ≠ some (byte '\\') ∨ rest[1]? ≠ some (byte 'u') then none
        else (decodeHexQuad (slice rest 2 6)).bind fun low =>
          if low < 0xdc00 ∨ 0xdfff < low then none
          else some (String.utf8EncodeChar (.ofNat (0x10000 + (quad.value - 0xd800) <<< 10 + (low - 0xdc00))), 10)
      else if quad.IsLow then none
      else some (String.utf8EncodeChar (.ofNat quad.value), 4) := by
  have enough : ¬ (quad.text ++ rest).length < 4 := by simp [length_text]
  have front : (quad.text ++ rest).take 4 = quad.text := List.take_left' rfl
  have size : (quad.text ++ rest).length < 10 ↔ rest.length < 6 := by
    rw [List.length_append, length_text]
    omega
  unfold decodeUnicodeEscape
  rw [if_neg enough, front, decodeHexQuad_text]
  simp only [Option.bind_eq_bind, Option.bind_some, size, Quad.IsHigh, Quad.IsLow]
  rfl

theorem decodeEscape_code (rest : Bytes) :
    decodeEscape (byte 'u' :: rest) = (decodeUnicodeEscape rest).map fun decoded => (decoded.1, decoded.2 + 1) := rfl

/-- The source decodes an escape that means a character to it. -/
theorem decodeEscape_escaped {text : Bytes} {c : Char} (escaped : Escaped text c) (rest : Bytes) :
    decodeEscape (text ++ rest) = some (String.utf8EncodeChar c, text.length) := by
  cases escaped with
  | short escape => cases escape <;> rfl
  | code quad notHigh notLow =>
      rw [List.cons_append, decodeEscape_code, decodeUnicodeEscape_quad, if_neg notHigh, if_neg notLow]
      rfl
  | pair high low isHigh isLow =>
      have paired : slice (byte '\\' :: byte 'u' :: (low.text ++ rest)) 2 6 = low.text := List.take_left' rfl
      have inside : ¬ (low.value < 0xdc00 ∨ 0xdfff < low.value) := by
        unfold Quad.IsLow at isLow
        omega
      have shape : byte 'u' :: high.text ++ byte '\\' :: byte 'u' :: low.text ++ rest =
          byte 'u' :: (high.text ++ byte '\\' :: byte 'u' :: (low.text ++ rest)) := by simp
      rw [shape, decodeEscape_code, decodeUnicodeEscape_quad, if_pos isHigh, if_neg (by simp [length_text]), paired,
        decodeHexQuad_text, Option.bind_some, if_neg inside, ← joined_eq, Option.map_some]
      simp [length_text]

/-- The bytes of a second escape, put together from where the source reads them. -/
theorem paired_split {rest quad : Bytes} (first : rest[0]? = some (byte '\\')) (second : rest[1]? = some (byte 'u'))
    (same : slice rest 2 6 = quad) : rest = byte '\\' :: byte 'u' :: quad ++ rest.drop 6 := by
  match rest, first, second with
  | _ :: _ :: tail, rfl, rfl =>
      have back : tail.take 4 ++ tail.drop 4 = tail := List.take_append_drop 4 tail
      rw [← same]
      exact congrArg _ (congrArg _ back.symm)

/-- The source refuses what begins no escape that means a character. -/
theorem decodeEscape_bad {rest : Bytes} (bad : BadEscape rest) : decodeEscape rest = none := by
  cases bad with
  | ended => rfl
  | letter rest notShort notCode =>
      have quote := notShort .quote
      have backslash := notShort .backslash
      have slash := notShort .slash
      have backspace := notShort .backspace
      have formFeed := notShort .formFeed
      have newline := notShort .newline
      have carriageReturn := notShort .carriageReturn
      have tab := notShort .tab
      simp only [Escape.letter] at quote backslash slash backspace formFeed newline carriageReturn tab
      simp [decodeEscape, quote, backslash, slash, backspace, formFeed, newline, carriageReturn, tab, notCode]
  | @digits rest noQuad =>
      have undecoded : decodeHexQuad (rest.take 4) = none := by
        rw [Option.eq_none_iff_forall_ne_some]
        intro n decoded
        obtain ⟨quad, same, _⟩ := decodeHexQuad_iff.mp decoded
        exact noQuad quad (rest.drop 4) (by rw [← same, List.take_append_drop])
      have refused : decodeUnicodeEscape rest = none := by
        simp [decodeUnicodeEscape, undecoded]
      rw [decodeEscape_code, refused]
      rfl
  | loneLow quad isLow rest =>
      have notHigh : ¬ quad.IsHigh := by
        unfold Quad.IsLow at isLow
        unfold Quad.IsHigh
        omega
      rw [List.cons_append, decodeEscape_code, decodeUnicodeEscape_quad, if_neg notHigh, if_pos isLow]
      rfl
  | @loneHigh quad isHigh rest unpaired =>
      rw [List.cons_append, decodeEscape_code, decodeUnicodeEscape_quad, if_pos isHigh]
      split
      · rfl
      · next present =>
          rw [not_or, not_or, not_not, not_not] at present
          obtain ⟨long, first, second⟩ := present
          cases decoded : decodeHexQuad (slice rest 2 6) with
          | none => rfl
          | some value =>
              obtain ⟨low, same, means⟩ := decodeHexQuad_iff.mp decoded
              have outside : value < 0xdc00 ∨ 0xdfff < value := by
                by_contra inside
                have isLow : low.IsLow := by
                  unfold Quad.IsLow
                  omega
                exact unpaired low _ isLow (paired_split first second same)
              rw [Option.bind_some, if_pos outside]
              rfl

/-! ### The whole key -/

theorem decodeFrom_skip (read rest : Bytes) : decodeFrom read.length (read ++ rest) = decodeFrom 0 rest := by
  induction read with
  | nil => rfl
  | cons b read ih => exact ih

theorem decodeFrom_plain {current : UInt8} (notBackslash : current ≠ byte '\\') (rest : Bytes) :
    decodeFrom 0 (current :: rest) = (decodeFrom 0 rest).map (current :: ·) := by
  rw [decodeFrom, if_pos notBackslash]

theorem decodeFrom_escape (rest : Bytes) :
    decodeFrom 0 (byte '\\' :: rest) =
      (decodeEscape rest).bind fun found => (decodeFrom found.2 rest).map (found.1 ++ ·) := by
  rw [decodeFrom, if_neg (not_not.mpr rfl)]
  cases decodeEscape rest <;> rfl

/-- The loop decodes pieces to what they mean and goes on behind them. -/
theorem decodeFrom_pieces {head out : Bytes} (pieces : Pieces head out) (rest : Bytes) :
    decodeFrom 0 (head ++ rest) = (decodeFrom 0 rest).map (out ++ ·) := by
  induction pieces with
  | nil => simp
  | plain notBackslash _ ih =>
      rw [List.cons_append, decodeFrom_plain notBackslash, ih, Option.map_map]
      rfl
  | @escape text others out c escaped _ ih =>
      have shape : byte '\\' :: text ++ others ++ rest = byte '\\' :: (text ++ (others ++ rest)) := by simp
      rw [shape, decodeFrom_escape, decodeEscape_escaped escaped, Option.bind_some, decodeFrom_skip, ih, Option.map_map]
      simp only [Function.comp_def, List.append_assoc]

theorem decodeFrom_of_pieces {raw out : Bytes} (pieces : Pieces raw out) : decodeFrom 0 raw = some out := by
  have decoded := decodeFrom_pieces pieces []
  rw [List.append_nil] at decoded
  rw [decoded]
  simp [decodeFrom]

theorem decodeFrom_of_malformed {raw : Bytes} (malformed : Malformed raw) : decodeFrom 0 raw = none := by
  obtain ⟨head, out, rest, rfl, pieces, bad⟩ := malformed
  rw [decodeFrom_pieces pieces, decodeFrom_escape, decodeEscape_bad bad]
  rfl

/-- Without a backslash, the loop copies the key as the short way does. -/
theorem decodeJSONKey_eq (raw : Bytes) : decodeJSONKey raw = decodeFrom 0 raw := by
  unfold decodeJSONKey
  split
  · next plain => rw [decodeFrom_of_pieces (.of_notMem plain)]
  · rfl

theorem decodeJSONKey_eq_some_iff {raw out : Bytes} : decodeJSONKey raw = some out ↔ Pieces raw out := by
  rw [decodeJSONKey_eq]
  constructor
  · intro decoded
    rcases pieces_cases raw with ⟨means, pieces⟩ | malformed
    · cases (decodeFrom_of_pieces pieces).symm.trans decoded
      exact pieces
    · cases (decodeFrom_of_malformed malformed).symm.trans decoded
  · exact decodeFrom_of_pieces

theorem decodeJSONKey_eq_none_iff {raw : Bytes} : decodeJSONKey raw = none ↔ Malformed raw := by
  rw [decodeJSONKey_eq]
  constructor
  · intro refused
    rcases pieces_cases raw with ⟨means, pieces⟩ | malformed
    · cases (decodeFrom_of_pieces pieces).symm.trans refused
    · exact malformed
  · exact decodeFrom_of_malformed

/-! ### The index of the source -/

theorem readAt_append {before rest : Bytes} {b : UInt8} (offset : Nat) (inside : rest[offset]? = some b) :
    readAt (before ++ rest) (before.length + offset) = .ok b := by
  rw [readAt, List.getElem?_append_right (Nat.le_add_right _ _), Nat.add_sub_cancel_left, inside]

theorem slice_append (before rest : Bytes) (start stop : Nat) :
    slice (before ++ rest) (before.length + start) (before.length + stop) = slice rest start stop := by
  rw [slice, slice, List.drop_length_add_append, Nat.add_sub_add_left]

theorem sliceAt_append {before rest : Bytes} (start stop : Nat) (ordered : start ≤ stop) (inside : stop ≤ rest.length) :
    sliceAt (before ++ rest) (before.length + start) (before.length + stop) = .ok (slice rest start stop) := by
  have within : before.length + start ≤ before.length + stop ∧ before.length + stop ≤ (before ++ rest).length := by
    rw [List.length_append]
    omega
  rw [sliceAt, if_pos within, slice_append]

/-- The bytes written and the index after them, for an escape behind `start` bytes. -/
def movedTo (start : Nat) (decoded : Option (Bytes × Nat)) : Option (Bytes × Nat) :=
  decoded.map fun found => (found.1, start + found.2)

/-- The low half, with `before` up to and including the high half. -/
theorem decodeLowAt_eq {quad : Quad} (isHigh : quad.IsHigh) (before rest : Bytes) :
    decodeLowAt (before ++ byte 'u' :: (quad.text ++ rest)) (before.length + 4) quad.value =
      .ok (movedTo before.length (decodeUnicodeEscape (quad.text ++ rest))) := by
  rw [decodeUnicodeEscape_quad, if_pos isHigh]
  unfold decodeLowAt
  by_cases short : rest.length < 6
  · have overrun : (before ++ byte 'u' :: (quad.text ++ rest)).length ≤ before.length + 4 + 6 := by
      rw [List.length_append, List.length_cons, List.length_append, length_text]
      omega
    rw [if_pos overrun, if_pos (.inl short)]
    rfl
  · have under : ¬ (before ++ byte 'u' :: (quad.text ++ rest)).length ≤ before.length + 4 + 6 := by
      rw [List.length_append, List.length_cons, List.length_append, length_text]
      omega
    obtain ⟨first, second, tail, rfl⟩ : ∃ first second tail, rest = first :: second :: tail := by
      match rest, short with
      | first :: second :: tail, _ => exact ⟨first, second, tail, rfl⟩
      | [], short => simp at short
      | [_], short => simp at short
    have backslash : readAt (before ++ byte 'u' :: (quad.text ++ first :: second :: tail)) (before.length + 4 + 1) =
        .ok first := readAt_append 5 rfl
    have letter : readAt (before ++ byte 'u' :: (quad.text ++ first :: second :: tail)) (before.length + 4 + 2) =
        .ok second := readAt_append 6 rfl
    have digits : sliceAt (before ++ byte 'u' :: (quad.text ++ first :: second :: tail)) (before.length + 4 + 3)
        (before.length + 4 + 7) = .ok (slice (first :: second :: tail) 2 6) :=
      sliceAt_append 7 11 (by decide) (by simp [length_text] at short ⊢; omega)
    rw [if_neg under, backslash, ok_bind]
    by_cases notBackslash : first ≠ byte '\\'
    · rw [if_pos notBackslash, if_pos (.inr (.inl fun same => notBackslash (Option.some.inj same)))]
      rfl
    rw [if_neg notBackslash, letter, ok_bind]
    by_cases notLetter : second ≠ byte 'u'
    · rw [if_pos notLetter, if_pos (.inr (.inr fun same => notLetter (Option.some.inj same)))]
      rfl
    have present : ¬ ((first :: second :: tail).length < 6 ∨ (first :: second :: tail)[0]? ≠ some (byte '\\') ∨
        (first :: second :: tail)[1]? ≠ some (byte 'u')) := by
      rw [not_not] at notBackslash notLetter
      rw [not_or, not_or, notBackslash, notLetter]
      exact ⟨short, not_not.mpr rfl, not_not.mpr rfl⟩
    rw [if_neg notLetter, digits, ok_bind, if_neg present]
    cases decodeHexQuad (slice (first :: second :: tail) 2 6) with
    | none => rfl
    | some low =>
        simp only [Option.bind_some]
        split
        · rfl
        · generalize String.utf8EncodeChar _ = written
          rfl

/-- The case `'u'`, with the letter behind `before`. -/
theorem decodeUnicodeAt_eq (before rest : Bytes) :
    decodeUnicodeAt (before ++ byte 'u' :: rest) before.length =
      .ok (movedTo before.length (decodeUnicodeEscape rest)) := by
  have size : (before ++ byte 'u' :: rest).length ≤ before.length + 4 ↔ rest.length < 4 := by
    rw [List.length_append, List.length_cons]
    omega
  unfold decodeUnicodeAt
  by_cases short : rest.length < 4
  · have refused : decodeUnicodeEscape rest = none := by simp [decodeUnicodeEscape, short]
    rw [if_pos (size.mpr short), refused]
    rfl
  · have digits : sliceAt (before ++ byte 'u' :: rest) (before.length + 1) (before.length + 5) = .ok (rest.take 4) :=
      sliceAt_append 1 5 (by decide) (by rw [List.length_cons]; omega)
    rw [if_neg (mt size.mp short), digits, ok_bind]
    cases decoded : decodeHexQuad (rest.take 4) with
    | none =>
        have refused : decodeUnicodeEscape rest = none := by simp [decodeUnicodeEscape, decoded]
        rw [refused]
        rfl
    | some codepoint =>
        obtain ⟨quad, same, rfl⟩ := decodeHexQuad_iff.mp decoded
        obtain ⟨tail, rfl⟩ : ∃ tail, rest = quad.text ++ tail :=
          ⟨rest.drop 4, by rw [← same, List.take_append_drop]⟩
        change (if quad.IsHigh then decodeLowAt _ (before.length + 4) quad.value
          else if quad.IsLow then pure none
          else pure (some (String.utf8EncodeChar (.ofNat quad.value), before.length + 4))) = _
        by_cases isHigh : quad.IsHigh
        · rw [if_pos isHigh, decodeLowAt_eq isHigh]
        · rw [if_neg isHigh, decodeUnicodeEscape_quad, if_neg isHigh]
          split
          · rfl
          · rfl

/-- The switch, with the byte behind the backslash behind `before`. -/
theorem decodeEscapeAt_eq (before : Bytes) (escape : UInt8) (rest : Bytes) :
    decodeEscapeAt (before ++ escape :: rest) before.length =
      .ok ((decodeEscape (escape :: rest)).map fun found => (found.1, before.length + found.2 - 1)) := by
  have read : readAt (before ++ escape :: rest) before.length = .ok escape := readAt_append 0 rfl
  unfold decodeEscapeAt decodeEscape
  rw [read, ok_bind]
  simp only
  by_cases itself : escape = byte '"' ∨ escape = byte '\\' ∨ escape = byte '/'
  · rw [if_pos itself, if_pos itself]
    rfl
  rw [if_neg itself, if_neg itself]
  by_cases backspace : escape = byte 'b'
  · rw [if_pos backspace, if_pos backspace]
    rfl
  rw [if_neg backspace, if_neg backspace]
  by_cases formFeed : escape = byte 'f'
  · rw [if_pos formFeed, if_pos formFeed]
    rfl
  rw [if_neg formFeed, if_neg formFeed]
  by_cases newline : escape = byte 'n'
  · rw [if_pos newline, if_pos newline]
    rfl
  rw [if_neg newline, if_neg newline]
  by_cases carriageReturn : escape = byte 'r'
  · rw [if_pos carriageReturn, if_pos carriageReturn]
    rfl
  rw [if_neg carriageReturn, if_neg carriageReturn]
  by_cases tab : escape = byte 't'
  · rw [if_pos tab, if_pos tab]
    rfl
  rw [if_neg tab, if_neg tab]
  by_cases code : escape = byte 'u'
  · rw [if_pos code, if_pos code, code, decodeUnicodeAt_eq, movedTo, Option.map_map]
    rfl
  · rw [if_neg code, if_neg code]
    rfl

/-- The loop with enough turns, `before` being what it has read. -/
theorem decodeLoopAt_eq {raw : Bytes} (before rest : Bytes) (split : raw = before ++ rest) {turns : Nat}
    (enough : rest.length < turns) (output : Bytes) :
    decodeLoopAt raw turns before.length output = .ok ((decodeFrom 0 rest).map (output ++ ·)) := by
  induction turns generalizing before rest output with
  | zero => exact absurd enough (Nat.not_lt_zero _)
  | succ turns ih =>
      unfold decodeLoopAt
      cases rest with
      | nil =>
          rw [List.append_nil] at split
          rw [if_neg (by simp [split])]
          simp [decodeFrom]
          rfl
      | cons current rest =>
          have inside : before.length < raw.length := by
            rw [split, List.length_append, List.length_cons]
            omega
          have read : readAt raw before.length = .ok current := by
            rw [split]
            exact readAt_append 0 rfl
          rw [if_pos inside, read, ok_bind]
          by_cases plain : current ≠ byte '\\'
          · have next := ih (before ++ [current]) rest (by rw [split]; simp) (Nat.lt_of_succ_lt_succ enough)
              (output ++ [current])
            rw [List.length_append, List.length_singleton] at next
            rw [if_pos plain, next, decodeFrom_plain plain, Option.map_map]
            simp only [Function.comp_def, List.append_assoc, List.singleton_append]
          rw [if_neg plain]
          rw [not_not] at plain
          subst plain
          rw [decodeFrom_escape]
          cases rest with
          | nil =>
              rw [if_pos (by simp [split])]
              rfl
          | cons escape rest =>
              have behind : ¬ raw.length ≤ before.length + 1 := by
                rw [split, List.length_append, List.length_cons, List.length_cons]
                omega
              have switch := decodeEscapeAt_eq (before ++ [byte '\\']) escape rest
              rw [List.append_assoc, List.singleton_append, ← split, List.length_append, List.length_singleton] at switch
              rw [if_neg behind, switch, ok_bind]
              rcases escape_cases (escape :: rest) with ⟨text, c, after, shape, escaped⟩ | bad
              · have filled : 0 < text.length := escaped.length_pos
                have stop : before.length + 1 + text.length - 1 + 1 = (before ++ byte '\\' :: text).length := by
                  rw [List.length_append, List.length_cons]
                  omega
                have shorter : after.length < turns := by
                  have := congrArg List.length shape
                  rw [List.length_append] at this
                  rw [List.length_cons] at enough
                  omega
                have next := ih (before ++ byte '\\' :: text) after (by rw [split, shape]; simp) shorter
                  (output ++ String.utf8EncodeChar c)
                rw [shape, decodeEscape_escaped escaped, Option.map_some, Option.bind_some, decodeFrom_skip,
                  Option.map_map]
                simp only [stop, next, Function.comp_def, List.append_assoc]
              · rw [decodeEscape_bad bad]
                rfl

/-- No read of `decodeJSONKey` is outside of the string, its loop ends, and the result is the one over lists. -/
theorem decodeKeyAt_eq (raw : Bytes) : decodeKeyAt raw = .ok (decodeJSONKey raw) := by
  unfold decodeKeyAt decodeJSONKey
  split
  · rfl
  · have looped : decodeLoopAt raw (raw.length + 1) 0 [] = .ok ((decodeFrom 0 raw).map ([] ++ ·)) :=
      decodeLoopAt_eq [] raw rfl (Nat.lt_succ_self _) []
    rw [looped]
    simp

/-- `decodeJSONKey` gives the characters of every spelling, refuses exactly what is malformed, and reads only inside of
the string. -/
theorem decodeJSONKey_spelling :
    (∀ units chars, Spells units chars → decodeJSONKey (unitsText units) = some (encodeRunes chars)) ∧
      (∀ raw, decodeJSONKey raw = none ↔ Malformed raw) ∧
      ∀ raw, decodeKeyAt raw = .ok (decodeJSONKey raw) :=
  ⟨fun _ _ spells => decodeJSONKey_eq_some_iff.mpr spells.pieces, fun _ => decodeJSONKey_eq_none_iff, decodeKeyAt_eq⟩

end ExitfyCores.Bridge
