/-
Module: ExitfyCores.Lib.GoString
Layer: Library
Purpose: Go strings as byte lists, with the rune view that `range`, `regexp`, `strings.Map` and
  `[]rune(s)` have of them: valid UTF-8 sequences decode to their scalar value, and every byte that
  starts no valid sequence decodes to U+FFFD on its own.
Imports: Mathlib.Data.List.Basic
Trusted boundary: human-reviewed spec; `ByteArray.utf8DecodeChar?` and `String.utf8EncodeChar` of Lean
  core are the UTF-8 codec
Main exports: Bytes, Symbol, symbols, raw, runes, encodeRunes, symbols_append, raw_symbols,
  symbols_encodeRunes, mapRunes, trimSpace
Open obligations: none
-/
import Mathlib.Data.List.Basic

namespace ExitfyCores

/-- A Go string: any byte sequence. -/
abbrev Bytes := List UInt8

instance lawfulBytes : LawfulBEq (List UInt8) := inferInstance

/-- The bytes of a source literal. -/
def lit (text : String) : Bytes := text.toByteArray.data.toList

/-- The byte of an ASCII character literal. -/
def byte (c : Char) : UInt8 := c.toUInt8

/-- `utf8.RuneError`. -/
def runeError : Char := '\uFFFD'

/-- One step of ranging over a string: the rune and the bytes it was decoded from. -/
structure Symbol where
  rune : Char
  raw : Bytes
deriving DecidableEq, Repr

/-- The scalar value encoded at the head of `text`, if a valid UTF-8 sequence starts there. -/
def decodeRune (text : Bytes) : Option Char :=
  (text.take 4).toByteArray.utf8DecodeChar? 0

/-- The symbol of a valid rune. -/
def validSymbol (c : Char) : Symbol := ⟨c, String.utf8EncodeChar c⟩

/-- The symbol of a byte that starts no valid sequence. -/
def invalidSymbol (b : UInt8) : Symbol := ⟨runeError, [b]⟩

/-- Decoding from left to right; `skip` bytes still belong to the rune decoded last. -/
def symbolsFrom : Nat → Bytes → List Symbol
  | _, [] => []
  | skip + 1, _ :: rest => symbolsFrom skip rest
  | 0, b :: rest =>
      match decodeRune (b :: rest) with
      | some c => validSymbol c :: symbolsFrom (c.utf8Size - 1) rest
      | none => invalidSymbol b :: symbolsFrom 0 rest

/-- The symbols of a string. -/
def symbols (text : Bytes) : List Symbol := symbolsFrom 0 text

/-- The bytes of a symbol sequence. -/
def raw (text : List Symbol) : Bytes := text.flatMap Symbol.raw

/-- `[]rune(text)`. -/
def runes (text : Bytes) : List Char := (symbols text).map Symbol.rune

/-- `string(text)` of a rune slice. -/
def encodeRunes (text : List Char) : Bytes := text.flatMap String.utf8EncodeChar

/-- Whether a byte continues a UTF-8 sequence, `b & 0xc0 == 0x80`. -/
def isContinuation (b : UInt8) : Bool := b &&& 0xc0 == 0x80

/-- A string that does not start inside a UTF-8 sequence. -/
def StartsSequence (text : Bytes) : Prop := ∀ b ∈ text.head?, isContinuation b = false

/-! ### The UTF-8 codec on byte lists -/

theorem decodeRune_encode_append (c : Char) (text : Bytes) :
    decodeRune (String.utf8EncodeChar c ++ text) = some c := by
  have short : (String.utf8EncodeChar c).length ≤ 4 := by
    rw [String.length_utf8EncodeChar]
    exact c.utf8Size_le_four
  rw [decodeRune, List.take_append, List.take_of_length_le short, List.toByteArray_append]
  exact ByteArray.utf8DecodeChar?_utf8EncodeChar_append

theorem decodeRune_eq_some_iff {text : Bytes} {c : Char} :
    decodeRune text = some c ↔ ∃ rest, text = String.utf8EncodeChar c ++ rest := by
  constructor
  · intro decoded
    obtain ⟨tail, split⟩ := ByteArray.exists_of_utf8DecodeChar?_eq_some decoded
    have bytes := congrArg (fun b : ByteArray => b.data.toList) split
    simp only [ByteArray.toList_data_append, List.toList_data_toByteArray] at bytes
    refine ⟨tail.data.toList ++ text.drop 4, ?_⟩
    rw [← List.append_assoc, ← bytes, List.take_append_drop]
  · rintro ⟨rest, rfl⟩
    exact decodeRune_encode_append c rest

theorem utf8EncodeChar_ne_nil (c : Char) : String.utf8EncodeChar c ≠ [] := by
  intro empty
  have := String.length_utf8EncodeChar c
  rw [empty] at this
  exact absurd this.symm (Nat.ne_of_gt c.utf8Size_pos)

private theorem isContinuation_of_lt {n : Nat} : isContinuation (UInt8.ofNat (n % 64 + 128)) = true := by
  have bound : n % 64 < 64 := Nat.mod_lt _ (by decide)
  generalize n % 64 = m at bound
  have all : ∀ m : Fin 64, isContinuation (UInt8.ofNat (m.val + 128)) = true := by decide
  exact all ⟨m, bound⟩

/-- All bytes of an encoded rune but the first are continuation bytes. -/
theorem isContinuation_of_mem_tail_utf8EncodeChar {c : Char} {b : UInt8}
    (member : b ∈ (String.utf8EncodeChar c).tail) : isContinuation b = true := by
  unfold String.utf8EncodeChar at member
  simp only at member
  split at member
  · simp at member
  · split at member
    · simp only [List.tail_cons, List.mem_singleton] at member
      exact member ▸ isContinuation_of_lt
    · split at member
      · simp only [List.tail_cons, List.mem_cons, List.not_mem_nil, or_false] at member
        rcases member with rfl | rfl
        · exact isContinuation_of_lt
        · exact isContinuation_of_lt
      · simp only [List.tail_cons, List.mem_cons, List.not_mem_nil, or_false] at member
        rcases member with rfl | rfl | rfl
        · exact isContinuation_of_lt
        · exact isContinuation_of_lt
        · exact isContinuation_of_lt

/-! ### Decoding a whole string -/

@[simp] theorem symbols_nil : symbols [] = [] := rfl

@[simp] theorem raw_nil : raw [] = [] := rfl

@[simp] theorem raw_cons (s : Symbol) (text : List Symbol) : raw (s :: text) = s.raw ++ raw text := rfl

@[simp] theorem raw_append (left right : List Symbol) : raw (left ++ right) = raw left ++ raw right :=
  List.flatMap_append

theorem symbolsFrom_length_append (read rest : Bytes) :
    symbolsFrom read.length (read ++ rest) = symbols rest := by
  induction read with
  | nil => rfl
  | cons b read ih => exact ih

theorem symbols_encode_append (c : Char) (rest : Bytes) :
    symbols (String.utf8EncodeChar c ++ rest) = validSymbol c :: symbols rest := by
  obtain ⟨b, tail, encoded⟩ := List.exists_cons_of_ne_nil (utf8EncodeChar_ne_nil c)
  have size : c.utf8Size - 1 = tail.length := by
    rw [← String.length_utf8EncodeChar, encoded, List.length_cons, Nat.add_sub_cancel]
  have decoded := decodeRune_encode_append c rest
  rw [encoded, List.cons_append] at decoded ⊢
  rw [symbols, symbolsFrom, decoded]
  simp only [size, symbolsFrom_length_append]

theorem symbols_invalid {b : UInt8} {rest : Bytes} (undecoded : decodeRune (b :: rest) = none) :
    symbols (b :: rest) = invalidSymbol b :: symbols rest := by
  rw [symbols, symbolsFrom, undecoded]
  rfl

/-- A nonempty string starts with the encoding of a rune or with an invalid byte. -/
theorem decode_cases (b : UInt8) (rest : Bytes) :
    (∃ c tail, b :: rest = String.utf8EncodeChar c ++ tail) ∨ decodeRune (b :: rest) = none := by
  cases decoded : decodeRune (b :: rest) with
  | none => exact Or.inr rfl
  | some c => exact Or.inl ⟨c, decodeRune_eq_some_iff.mp decoded⟩

/-- Induction on a string along its decoding. -/
theorem decodeInduction {motive : Bytes → Prop} (nil : motive [])
    (valid : ∀ c rest, motive rest → motive (String.utf8EncodeChar c ++ rest))
    (invalid : ∀ b rest, decodeRune (b :: rest) = none → motive rest → motive (b :: rest)) :
    ∀ text, motive text := by
  intro text
  induction size : text.length using Nat.strongRecOn generalizing text with
  | _ n ih =>
      cases text with
      | nil => exact nil
      | cons b text =>
          rcases decode_cases b text with ⟨c, tail, split⟩ | undecoded
          · rw [split] at size ⊢
            refine valid c tail (ih tail.length ?_ tail rfl)
            rw [← size, List.length_append, String.length_utf8EncodeChar]
            have := c.utf8Size_pos
            omega
          · exact invalid b text undecoded (ih text.length (by rw [← size]; simp) text rfl)

/-- Decoding loses no byte. -/
@[simp] theorem raw_symbols (text : Bytes) : raw (symbols text) = text := by
  induction text using decodeInduction with
  | nil => rfl
  | valid c rest ih =>
      rw [symbols_encode_append, raw_cons, ih]
      rfl
  | invalid b rest undecoded ih =>
      rw [symbols_invalid undecoded, raw_cons, ih]
      rfl

/-- A rune decoded across a cut needs a continuation byte behind the cut. -/
theorem decodeRune_append_eq_none {b : UInt8} {left right : Bytes}
    (undecoded : decodeRune (b :: left) = none) (starts : StartsSequence right) :
    decodeRune (b :: (left ++ right)) = none := by
  cases decoded : decodeRune (b :: (left ++ right)) with
  | none => rfl
  | some c =>
      obtain ⟨tail, split⟩ := decodeRune_eq_some_iff.mp decoded
      rw [← List.cons_append] at split
      rcases List.append_eq_append_iff.mp split with ⟨missing, encoded, rest⟩ | ⟨extra, inside, _⟩
      · -- the encoding reaches into `right`, whose first byte would be a continuation byte
        cases missing with
        | nil =>
            rw [List.append_nil] at encoded
            have := decodeRune_encode_append c []
            rw [List.append_nil, encoded, undecoded] at this
            exact absurd this (by simp)
        | cons d missing =>
            have member : d ∈ (String.utf8EncodeChar c).tail := by
              rw [encoded]
              simp
            have := starts d (by rw [rest]; simp)
            rw [isContinuation_of_mem_tail_utf8EncodeChar member] at this
            exact absurd this (by simp)
      · rw [inside, decodeRune_encode_append] at undecoded
        exact absurd undecoded (by simp)

/-- Decoding distributes over a cut that does not split a UTF-8 sequence. -/
theorem symbols_append {right : Bytes} (starts : StartsSequence right) (left : Bytes) :
    symbols (left ++ right) = symbols left ++ symbols right := by
  induction left using decodeInduction with
  | nil => rfl
  | valid c rest ih =>
      rw [List.append_assoc, symbols_encode_append, symbols_encode_append, ih, List.cons_append]
  | invalid b rest undecoded ih =>
      rw [List.cons_append, symbols_invalid undecoded,
        symbols_invalid (decodeRune_append_eq_none undecoded starts), ih, List.cons_append]

/-- A symbol of a decoded string is a valid rune with its encoding or a single invalid byte. -/
theorem mem_symbols {text : Bytes} {s : Symbol} (member : s ∈ symbols text) :
    (∃ c, s = validSymbol c) ∨ ∃ b, s = invalidSymbol b := by
  induction text using decodeInduction with
  | nil => simp at member
  | valid c rest ih =>
      rw [symbols_encode_append] at member
      rcases List.mem_cons.mp member with rfl | later
      · exact Or.inl ⟨c, rfl⟩
      · exact ih later
  | invalid b rest undecoded ih =>
      rw [symbols_invalid undecoded] at member
      rcases List.mem_cons.mp member with rfl | later
      · exact Or.inr ⟨b, rfl⟩
      · exact ih later

/-! ### Encoding runes -/

@[simp] theorem encodeRunes_nil : encodeRunes [] = [] := rfl

@[simp] theorem encodeRunes_cons (c : Char) (text : List Char) :
    encodeRunes (c :: text) = String.utf8EncodeChar c ++ encodeRunes text := rfl

@[simp] theorem encodeRunes_append (left right : List Char) :
    encodeRunes (left ++ right) = encodeRunes left ++ encodeRunes right :=
  List.flatMap_append

/-- Decoding undoes encoding. -/
@[simp] theorem symbols_encodeRunes (text : List Char) :
    symbols (encodeRunes text) = text.map validSymbol := by
  induction text with
  | nil => rfl
  | cons c text ih => rw [encodeRunes_cons, symbols_encode_append, ih, List.map_cons]

/-! ### ASCII bytes -/

/-- An ASCII byte is a rune of its own, whatever follows. -/
theorem symbols_ascii_cons {b : UInt8} (ascii : b.toNat < 128) (rest : Bytes) :
    symbols (b :: rest) = ⟨Char.ofNat b.toNat, [b]⟩ :: symbols rest := by
  have all : ∀ n : Fin 128, String.utf8EncodeChar (Char.ofNat n.val) = [UInt8.ofNat n.val] := by
    decide
  have encoded : String.utf8EncodeChar (Char.ofNat b.toNat) = [b] := by
    have := all ⟨b.toNat, ascii⟩
    simpa using this
  have := symbols_encode_append (Char.ofNat b.toNat) rest
  rw [encoded, List.singleton_append] at this
  rw [this, validSymbol, encoded]

theorem startsSequence_ascii {b : UInt8} (ascii : b.toNat < 128) (rest : Bytes) :
    StartsSequence (b :: rest) := by
  intro d member
  simp only [List.head?_cons, Option.mem_def, Option.some.injEq] at member
  subst member
  have all : ∀ n : Fin 128, isContinuation (UInt8.ofNat n.val) = false := by decide
  simpa using all ⟨b.toNat, ascii⟩

/-! ### `strings.Map` and `strings.TrimSpace` -/

/-- `strings.Map`, where `none` stands for a negative mapped rune. -/
def mapRunes (mapping : Char → Option Char) (text : Bytes) : Bytes :=
  encodeRunes ((runes text).filterMap mapping)

/-- `unicode.IsControl`: the category Cc. -/
def isControl (c : Char) : Bool :=
  c.toNat < 0x20 || (0x7F ≤ c.toNat && c.toNat < 0xA0)

/-- `unicode.IsSpace`. -/
def isSpace (c : Char) : Bool :=
  (0x09 ≤ c.toNat && c.toNat ≤ 0x0D) || c.toNat == 0x20 || c.toNat == 0x85 || c.toNat == 0xA0 ||
    c.toNat == 0x1680 || (0x2000 ≤ c.toNat && c.toNat ≤ 0x200A) || c.toNat == 0x2028 ||
    c.toNat == 0x2029 || c.toNat == 0x202F || c.toNat == 0x205F || c.toNat == 0x3000

/-- Both ends of a list freed from the symbols of a class. -/
def trimEnds {α : Type} (p : α → Bool) (text : List α) : List α :=
  (((text.dropWhile p).reverse).dropWhile p).reverse

/-- `strings.TrimSpace`. -/
def trimSpace (text : Bytes) : Bytes :=
  raw (trimEnds (fun s => isSpace s.rune) (symbols text))

end ExitfyCores
