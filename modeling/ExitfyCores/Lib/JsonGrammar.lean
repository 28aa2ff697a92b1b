/-
Module: ExitfyCores.Lib.JsonGrammar
Layer: Lib
Purpose: The grammar of JSON strings over bytes: the spellings of a character, what escapes mean, and the ways in which an
  escape can be malformed.
Imports: ExitfyCores.Lib.GoString
Trusted boundary: human-reviewed spec
Main exports: HexDigit, Quad, Escape, Escaped, JsonUnit, Spells, Pieces, BadEscape, Malformed,
  pieces_cases, Spells.pieces
Open obligations: none
-/
import ExitfyCores.Lib.GoString

namespace ExitfyCores.Json

/-! ### Escapes -/

/-- A hexadecimal digit as it is spelled; digits below ten have one spelling. -/
structure HexDigit where
  value : Fin 16
  upper : Bool
deriving DecidableEq, Repr

def HexDigit.spelled (digit : HexDigit) : UInt8 :=
  if digit.value.val < 10 then byte '0' + .ofNat digit.value.val
  else if digit.upper then byte 'A' + .ofNat (digit.value.val - 10)
  else byte 'a' + .ofNat (digit.value.val - 10)

/-- The four digits of a `\u` escape. -/
structure Quad where
  first : HexDigit
  second : HexDigit
  third : HexDigit
  fourth : HexDigit
deriving DecidableEq, Repr

def Quad.text (quad : Quad) : Bytes :=
  [quad.first.spelled, quad.second.spelled, quad.third.spelled, quad.fourth.spelled]

def Quad.value (quad : Quad) : Nat :=
  ((quad.first.value.val * 16 + quad.second.value.val) * 16 + quad.third.value.val) * 16 + quad.fourth.value.val

def Quad.IsHigh (quad : Quad) : Prop := 0xD800 ≤ quad.value ∧ quad.value ≤ 0xDBFF

def Quad.IsLow (quad : Quad) : Prop := 0xDC00 ≤ quad.value ∧ quad.value ≤ 0xDFFF

instance (quad : Quad) : Decidable quad.IsHigh := inferInstanceAs (Decidable (_ ∧ _))

instance (quad : Quad) : Decidable quad.IsLow := inferInstanceAs (Decidable (_ ∧ _))

/-- The supplementary character of a surrogate pair. -/
def joined (high low : Quad) : Char := .ofNat (0x10000 + (high.value - 0xD800) * 0x400 + (low.value - 0xDC00))

/-- The escapes of one letter. -/
inductive Escape where
  | quote
  | backslash
  | slash
  | backspace
  | formFeed
  | newline
  | carriageReturn
  | tab
deriving DecidableEq, Repr

def Escape.letter : Escape → UInt8
  | quote => byte '"'
  | backslash => byte '\\'
  | slash => byte '/'
  | backspace => byte 'b'
  | formFeed => byte 'f'
  | newline => byte 'n'
  | carriageReturn => byte 'r'
  | tab => byte 't'

def Escape.char : Escape → Char
  | quote => '"'
  | backslash => '\\'
  | slash => '/'
  | backspace => '\x08'
  | formFeed => '\x0C'
  | newline => '\n'
  | carriageReturn => '\r'
  | tab => '\t'

/-- What stands behind a backslash, with the character that it means. -/
inductive Escaped : Bytes → Char → Prop where
  | short (escape : Escape) : Escaped [escape.letter] escape.char
  | code (quad : Quad) (notHigh : ¬ quad.IsHigh) (notLow : ¬ quad.IsLow) :
      Escaped (byte 'u' :: quad.text) (.ofNat quad.value)
  | pair (high low : Quad) (isHigh : high.IsHigh) (isLow : low.IsLow) :
      Escaped (byte 'u' :: high.text ++ byte '\\' :: byte 'u' :: low.text) (joined high low)

theorem Escaped.length_pos {text : Bytes} {c : Char} (escaped : Escaped text c) : 0 < text.length := by
  cases escaped <;> simp

/-- What stands behind a backslash begins no escape that means a character. -/
inductive BadEscape : Bytes → Prop where
  | ended : BadEscape []
  | letter {b : UInt8} (rest : Bytes) (notShort : ∀ escape : Escape, b ≠ escape.letter) (notCode : b ≠ byte 'u') :
      BadEscape (b :: rest)
  | digits {rest : Bytes} (noQuad : ∀ (quad : Quad) (tail : Bytes), rest ≠ quad.text ++ tail) :
      BadEscape (byte 'u' :: rest)
  | loneLow (quad : Quad) (isLow : quad.IsLow) (rest : Bytes) : BadEscape (byte 'u' :: quad.text ++ rest)
  | loneHigh (quad : Quad) (isHigh : quad.IsHigh) {rest : Bytes}
      (unpaired : ∀ (low : Quad) (tail : Bytes), low.IsLow → rest ≠ byte '\\' :: byte 'u' :: low.text ++ tail) :
      BadEscape (byte 'u' :: quad.text ++ rest)

/-! ### Whole strings -/

/-- Bytes other than backslashes and escapes, with the bytes that they mean. -/
inductive Pieces : Bytes → Bytes → Prop where
  | nil : Pieces [] []
  | plain {b : UInt8} {rest out : Bytes} (notBackslash : b ≠ byte '\\') (others : Pieces rest out) :
      Pieces (b :: rest) (b :: out)
  | escape {text rest out : Bytes} {c : Char} (escaped : Escaped text c) (others : Pieces rest out) :
      Pieces (byte '\\' :: text ++ rest) (String.utf8EncodeChar c ++ out)

theorem Pieces.append {left right leftOut rightOut : Bytes} (first : Pieces left leftOut)
    (second : Pieces right rightOut) : Pieces (left ++ right) (leftOut ++ rightOut) := by
  induction first with
  | nil => exact second
  | plain notBackslash _ ih => exact .plain notBackslash ih
  | escape escaped _ ih =>
      rw [List.append_assoc, List.append_assoc]
      exact .escape escaped ih

theorem Pieces.of_notMem {text : Bytes} (plain : byte '\\' ∉ text) : Pieces text text := by
  induction text with
  | nil => exact .nil
  | cons b rest ih =>
      rw [List.mem_cons, not_or] at plain
      exact .plain (Ne.symm plain.1) (ih plain.2)

/-- Somewhere behind well-formed escapes there is one that means no character. -/
def Malformed (raw : Bytes) : Prop :=
  ∃ head out rest, raw = head ++ byte '\\' :: rest ∧ Pieces head out ∧ BadEscape rest

/-- An escape means a character or is bad. -/
theorem escape_cases (text : Bytes) : (∃ escape c rest, text = escape ++ rest ∧ Escaped escape c) ∨ BadEscape text := by
  classical
  cases text with
  | nil => exact .inr .ended
  | cons b rest =>
      by_cases short : ∃ escape : Escape, b = escape.letter
      · obtain ⟨escape, rfl⟩ := short
        exact .inl ⟨[escape.letter], escape.char, rest, rfl, .short escape⟩
      by_cases notCode : b ≠ byte 'u'
      · exact .inr (.letter rest (fun escape same => short ⟨escape, same⟩) notCode)
      rw [not_not] at notCode
      subst notCode
      by_cases digits : ∃ (quad : Quad) (tail : Bytes), rest = quad.text ++ tail
      · obtain ⟨quad, tail, rfl⟩ := digits
        by_cases isLow : quad.IsLow
        · exact .inr (.loneLow quad isLow tail)
        by_cases isHigh : quad.IsHigh
        · by_cases paired : ∃ (low : Quad) (after : Bytes), low.IsLow ∧ tail = byte '\\' :: byte 'u' :: low.text ++ after
          · obtain ⟨low, after, second, rfl⟩ := paired
            exact .inl ⟨_, _, after, by simp, .pair quad low isHigh second⟩
          · exact .inr (.loneHigh quad isHigh fun low after second same => paired ⟨low, after, second, same⟩)
        · exact .inl ⟨byte 'u' :: quad.text, _, tail, rfl, .code quad isHigh isLow⟩
      · exact .inr (.digits fun quad tail same => digits ⟨quad, tail, same⟩)

/-- Every string means something or is malformed. -/
theorem pieces_cases (raw : Bytes) : (∃ out, Pieces raw out) ∨ Malformed raw := by
  induction size : raw.length using Nat.strongRecOn generalizing raw with
  | _ n ih =>
      -- one piece at the head reduces the string to a shorter one
      have behind : ∀ head out rest, raw = head ++ rest → Pieces head out → head ≠ [] →
          (∃ out, Pieces raw out) ∨ Malformed raw := by
        intro head out rest split piece filled
        have shorter : rest.length < n := by
          have := List.length_pos_of_ne_nil filled
          rw [← size, split, List.length_append]
          omega
        rcases ih rest.length shorter rest rfl with ⟨tail, others⟩ | ⟨before, tail, after, splitRest, others, bad⟩
        · exact .inl ⟨out ++ tail, split ▸ piece.append others⟩
        · refine .inr ⟨head ++ before, out ++ tail, after, ?_, piece.append others, bad⟩
          rw [split, splitRest, List.append_assoc]
      cases raw with
      | nil => exact .inl ⟨[], .nil⟩
      | cons b rest =>
          by_cases backslash : b = byte '\\'
          · subst backslash
            rcases escape_cases rest with ⟨escape, c, after, rfl, escaped⟩ | bad
            · exact behind (byte '\\' :: escape ++ []) _ after (by simp) (.escape escaped .nil) (by simp)
            · exact .inr ⟨[], [], rest, rfl, .nil, bad⟩
          · exact behind [b] [b] rest rfl (.plain backslash .nil) (by simp)

/-- A character that may stand for itself in a string. -/
def IsPlain (c : Char) : Prop := 0x20 ≤ c.toNat ∧ c ≠ '"' ∧ c ≠ '\\'

instance (c : Char) : Decidable (IsPlain c) := inferInstanceAs (Decidable (_ ∧ _ ∧ _))

/-- One unit of a JSON string as the grammar has it. -/
inductive JsonUnit where
  | literal (c : Char) (plain : IsPlain c)
  | short (escape : Escape)
  | code (quad : Quad)

def JsonUnit.text : JsonUnit → Bytes
  | literal c _ => String.utf8EncodeChar c
  | short escape => [byte '\\', escape.letter]
  | code quad => byte '\\' :: byte 'u' :: quad.text

def unitsText (units : List JsonUnit) : Bytes := units.flatMap JsonUnit.text

@[simp] theorem unitsText_nil : unitsText [] = [] := rfl

@[simp] theorem unitsText_cons (first : JsonUnit) (units : List JsonUnit) :
    unitsText (first :: units) = first.text ++ unitsText units := rfl

/-- The spellings of a sequence of characters: each stands for itself, as a short escape, as one `\u` escape, or as two
where it is supplementary. -/
inductive Spells : List JsonUnit → List Char → Prop where
  | nil : Spells [] []
  | literal {units : List JsonUnit} {chars : List Char} (c : Char) (plain : IsPlain c) (others : Spells units chars) :
      Spells (.literal c plain :: units) (c :: chars)
  | short {units : List JsonUnit} {chars : List Char} (escape : Escape) (others : Spells units chars) :
      Spells (.short escape :: units) (escape.char :: chars)
  | code {units : List JsonUnit} {chars : List Char} (c : Char) (quad : Quad) (means : quad.value = c.toNat)
      (others : Spells units chars) : Spells (.code quad :: units) (c :: chars)
  | pair {units : List JsonUnit} {chars : List Char} (c : Char) (high low : Quad) (supplementary : 0x10000 ≤ c.toNat)
      (isHigh : high.value = 0xD800 + (c.toNat - 0x10000) / 0x400)
      (isLow : low.value = 0xDC00 + (c.toNat - 0x10000) % 0x400) (others : Spells units chars) :
      Spells (.code high :: .code low :: units) (c :: chars)

/-! ### Characters in UTF-8 -/

/-- The bytes of a character are its code below 128, and else all of them are at least 128. -/
theorem utf8EncodeChar_cases (c : Char) :
    (c.toNat < 128 ∧ String.utf8EncodeChar c = [UInt8.ofNat c.toNat]) ∨
      (128 ≤ c.toNat ∧ ∀ b ∈ String.utf8EncodeChar c, 128 ≤ b.toNat) := by
  have code : c.val.toNat = c.toNat := rfl
  have high : ∀ {n base : Nat}, 128 ≤ base → n + base < 256 → 128 ≤ (UInt8.ofNat (n + base)).toNat := by
    intro n base low small
    rw [UInt8.toNat_ofNat_of_lt' small]
    omega
  unfold String.utf8EncodeChar
  simp only [code]
  split
  · next small => exact .inl ⟨by omega, rfl⟩
  · next large =>
      refine .inr ⟨by omega, fun b member => ?_⟩
      split at member
      · rcases List.mem_cons.mp member with rfl | later
        · exact high (by omega) (by omega)
        · rcases List.mem_singleton.mp later with rfl
          exact high (by omega) (by omega)
      · split at member
        · simp only [List.mem_cons, List.not_mem_nil, or_false] at member
          rcases member with rfl | rfl | rfl
          · exact high (by omega) (by omega)
          · exact high (by omega) (by omega)
          · exact high (by omega) (by omega)
        · simp only [List.mem_cons, List.not_mem_nil, or_false] at member
          rcases member with rfl | rfl | rfl | rfl
          · exact high (by omega) (by omega)
          · exact high (by omega) (by omega)
          · exact high (by omega) (by omega)
          · exact high (by omega) (by omega)

/-- A byte below 128 in an encoded character is that character. -/
theorem eq_of_mem_utf8EncodeChar {c d : Char} (small : d.toNat < 128) (member : byte d ∈ String.utf8EncodeChar c) :
    c = d := by
  have spelled : (byte d).toNat = d.toNat := by
    change (UInt8.ofNat d.toNat).toNat = d.toNat
    exact UInt8.toNat_ofNat_of_lt (Nat.lt_trans small (by decide))
  rcases utf8EncodeChar_cases c with ⟨ascii, encoded⟩ | ⟨_, high⟩
  · rw [encoded, List.mem_singleton] at member
    have same : c.toNat = d.toNat := by
      rw [← spelled, member, UInt8.toNat_ofNat_of_lt' (Nat.lt_trans ascii (by decide))]
    exact Char.toNat_inj.mp same
  · have := high (byte d) member
    omega

theorem byte_notMem_literal {c d : Char} (small : d.toNat < 128) (different : c ≠ d) : byte d ∉ String.utf8EncodeChar c :=
  fun member => different (eq_of_mem_utf8EncodeChar small member)

theorem toNat_valid (c : Char) : c.toNat < 0xD800 ∨ (0xDFFF < c.toNat ∧ c.toNat < 0x110000) := c.valid

/-- A spelling of characters means them. -/
theorem Spells.pieces {units : List JsonUnit} {chars : List Char} (spells : Spells units chars) :
    Pieces (unitsText units) (encodeRunes chars) := by
  induction spells with
  | nil => exact .nil
  | literal c plain _ ih =>
      exact (Pieces.of_notMem (byte_notMem_literal (by decide) plain.2.2)).append ih
  | short escape _ ih => exact .escape (.short escape) ih
  | code c quad means _ ih =>
      have scalar := toNat_valid c
      have notHigh : ¬ quad.IsHigh := by
        unfold Quad.IsHigh
        omega
      have notLow : ¬ quad.IsLow := by
        unfold Quad.IsLow
        omega
      have piece := Pieces.escape (.code quad notHigh notLow) ih
      rw [means, Char.ofNat_toNat] at piece
      exact piece
  | pair c high low supplementary isHigh isLow _ ih =>
      have scalar := toNat_valid c
      have inHigh : high.IsHigh := by
        unfold Quad.IsHigh
        omega
      have inLow : low.IsLow := by
        unfold Quad.IsLow
        omega
      have point : 0x10000 + (high.value - 0xD800) * 0x400 + (low.value - 0xDC00) = c.toNat := by omega
      have piece := Pieces.escape (.pair high low inHigh inLow) ih
      rw [joined, point, Char.ofNat_toNat] at piece
      exact piece

end ExitfyCores.Json
