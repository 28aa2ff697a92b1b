/-
Module: ExitfyCores.Proofs.PublicListing
Layer: Proofs
Purpose: What the public audit reads out of the output of a command is what Git was asked for: the records of a
  listing, the lines of `rev-list`, a commit, and the size of a blob.
Imports: ExitfyCores.Public.Checkout
Trusted boundary: none
Main exports: records_flatMap, readRecord_renderRecord, outputText_line, splitSpaces_lines, readSize_line
Open obligations: none
-/
import ExitfyCores.Public.Checkout

namespace ExitfyCores.Public

open ExitfyCores.Bundle

/-! ### ASCII -/

theorem byte_toNat {c : Char} (small : c.toNat < 128) : (byte c).toNat = c.toNat := by
  simp only [byte, Char.toUInt8, UInt32.toNat_toUInt8]
  exact Nat.mod_eq_of_lt (by change c.toNat < 2 ^ 8; omega)

theorem byte_blank : byte ' ' = 32 := by decide

theorem byte_newline : byte '\n' = 10 := by decide

theorem utf8EncodeChar_ascii {c : Char} (small : c.toNat < 128) : String.utf8EncodeChar c = [byte c] := by
  rw [String.utf8EncodeChar_eq_singleton]
  · rfl
  · rw [Char.utf8Size_eq_one_iff, UInt32.le_iff_toNat_le]
    exact Nat.le_of_lt_succ small

/-- Text of ASCII symbols. -/
def IsASCIIText (text : List Char) : Prop := ∀ c ∈ text, c.toNat < 128

theorem encodeRunes_ascii {text : List Char} (small : IsASCIIText text) : encodeRunes text = text.map byte := by
  induction text with
  | nil => rfl
  | cons c rest ih =>
      rw [encodeRunes_cons, utf8EncodeChar_ascii (small c List.mem_cons_self),
        ih fun d member => small d (List.mem_cons_of_mem c member)]
      rfl

theorem runes_ascii {text : List Char} (small : IsASCIIText text) : runes (text.map byte) = text := by
  rw [← encodeRunes_ascii small, runes, symbols_encodeRunes, List.map_map]
  exact List.map_id text

theorem decodesStrictly_ascii {text : List Char} (small : IsASCIIText text) : DecodesStrictly (text.map byte) := by
  rw [DecodesStrictly, runes_ascii small, encodeRunes_ascii small]

theorem decodeASCII_map {text : List Char} (small : IsASCIIText text) : decodeASCII (text.map byte) = some text := by
  have each : ∀ b ∈ text.map byte, b < 128 := by
    intro b member
    obtain ⟨c, among, rfl⟩ := List.mem_map.mp member
    rw [UInt8.lt_iff_toNat_lt, byte_toNat (small c among)]
    exact small c among
  rw [decodeASCII, if_pos (by simpa using each), List.map_map]
  refine congrArg some (List.map_congr_left ?_ |>.trans (List.map_id text))
  intro c member
  rw [Function.comp_apply, byte_toNat (small c member), Char.ofNat_toNat, id]

/-! ### Words -/

theorem word_of_fullCommit {commit : String} (full : isFullCommit commit.toList = true) : Word commit := by
  rw [isFullCommit, Bool.and_eq_true, decide_eq_true_eq, List.all_eq_true] at full
  have digits : "0123456789abcdef".toList.all (fun c => 33 ≤ c.toNat && c.toNat < 127) = true := by decide
  simp only [List.all_eq_true, Bool.and_eq_true, decide_eq_true_eq] at digits
  constructor
  · rintro rfl
    exact absurd full.1 (by decide)
  · intro c member
    exact digits c (List.contains_iff_mem.mp (full.2 c member))

theorem word_toString (n : Nat) : Word (toString n) := by
  constructor
  · intro empty
    have := congrArg String.toList empty
    simp at this
  · intro c member
    rw [Nat.toString_eq_ofList_toDigits, String.toList_ofList] at member
    have digit := Nat.isDigit_of_mem_toDigits (by decide) (by decide) member
    simp only [Char.isDigit, Bool.and_eq_true, decide_eq_true_eq, ge_iff_le, UInt32.le_iff_toNat_le] at digit
    have low : 48 ≤ c.toNat := digit.1
    have high : c.toNat ≤ 57 := digit.2
    omega

theorem Word.isASCIIText {text : String} (word : Word text) : IsASCIIText text.toList :=
  fun c member => Nat.lt_succ_of_lt (word.2 c member).2

theorem Word.not_space {text : String} (word : Word text) : ∀ c ∈ text.toList, isSpace c = false := by
  intro c member
  have others : ∀ n, n < 127 → 33 ≤ n → Py.isSpace n = false := by decide
  exact others c.toNat (word.2 c member).2 (word.2 c member).1

/-- A word has no blank, tab or NUL. -/
theorem Word.not_mem {text : String} (word : Word text) {b : UInt8} (other : b.toNat < 33) : b ∉ ascii text := by
  intro member
  obtain ⟨c, symbol, rfl⟩ := List.mem_map.mp member
  rw [byte_toNat (word.isASCIIText c symbol)] at other
  exact absurd (word.2 c symbol).1 (Nat.not_le.mpr other)

/-! ### Records -/

theorem records_flatMap {α : Type} {render : α → Bytes} {items : List α}
    (stored : ∀ item ∈ items, render item ≠ [] ∧ 0 ∉ render item) :
    records (items.flatMap fun item => render item ++ [0]) = items.map render := by
  induction items with
  | nil => rfl
  | cons item rest ih =>
      obtain ⟨filled, noNul⟩ := stored item List.mem_cons_self
      have tail := ih fun other member => stored other (List.mem_cons_of_mem item member)
      unfold records at tail ⊢
      rw [List.flatMap_cons, List.append_assoc, List.singleton_append, List.splitOn_append_cons_self_of_not_mem noNul,
        List.filter_cons_of_pos (by simpa using filled), tail, List.map_cons]

/-- What a record of three words has in front of its tab. -/
theorem metadata_split {first second third : String} (one : Word first) (two : Word second) (three : Word third)
    (path : Bytes) :
    (renderRecord first second third path).takeWhile (· ≠ 9) =
        (first.toList ++ ' ' :: (second.toList ++ ' ' :: third.toList)).map byte ∧
      (renderRecord first second third path).dropWhile (· ≠ 9) = 9 :: path := by
  have front : renderRecord first second third path =
      (first.toList ++ ' ' :: (second.toList ++ ' ' :: third.toList)).map byte ++ 9 :: path := by
    simp [renderRecord, ascii, byte_blank]
  have free :
      ∀ b ∈ (first.toList ++ ' ' :: (second.toList ++ ' ' :: third.toList)).map byte, decide (b ≠ 9) = true := by
    intro b member
    rw [decide_eq_true_eq]
    rintro rfl
    simp only [List.map_append, List.map_cons, List.mem_append, List.mem_cons] at member
    rcases member with among | space | among | space | among
    · exact one.not_mem (by decide) among
    · exact absurd space (by decide)
    · exact two.not_mem (by decide) among
    · exact absurd space (by decide)
    · exact three.not_mem (by decide) among
  rw [front, List.takeWhile_append_of_pos free, List.dropWhile_append_of_pos free]
  simp

theorem splitSpaces_word {word : List Char} (free : ∀ c ∈ word, isSpace c = false) (filled : word ≠ []) {space : Char}
    (isSeparator : isSpace space = true) (rest : List Char) :
    splitSpaces (word ++ space :: rest) = word :: splitSpaces rest := by
  rw [splitSpaces, List.splitOnP_append_cons_of_forall_mem free space isSeparator,
    List.filter_cons_of_pos (by simpa using filled)]
  rfl

theorem splitSpaces_last {word : List Char} (free : ∀ c ∈ word, isSpace c = false) (filled : word ≠ []) :
    splitSpaces word = [word] := by
  rw [splitSpaces, List.splitOnP_eq_singleton free, List.filter_cons_of_pos (by simpa using filled), List.filter_nil]

theorem Word.filled {text : String} (word : Word text) : text.toList ≠ [] := by
  intro empty
  exact word.1 (String.toList_eq_nil_iff.mp empty)

theorem readRecord_renderRecord {first second third : String} (one : Word first) (two : Word second)
    (three : Word third) (path : Bytes) :
    readRecord (renderRecord first second third path) =
      if DecodesStrictly path then some ⟨first, second, third, path⟩ else none := by
  obtain ⟨before, behind⟩ := metadata_split one two three path
  have small : IsASCIIText (first.toList ++ ' ' :: (second.toList ++ ' ' :: third.toList)) := by
    intro c member
    simp only [List.mem_append, List.mem_cons] at member
    rcases member with among | rfl | among | rfl | among
    · exact one.isASCIIText c among
    · decide
    · exact two.isASCIIText c among
    · decide
    · exact three.isASCIIText c among
  have fields : splitSpaces (first.toList ++ ' ' :: (second.toList ++ ' ' :: third.toList)) =
      [first.toList, second.toList, third.toList] := by
    rw [splitSpaces_word one.not_space one.filled (by decide), splitSpaces_word two.not_space two.filled (by decide),
      splitSpaces_last three.not_space three.filled]
  have tab : 9 ∈ renderRecord first second third path := by simp [renderRecord]
  unfold readRecord
  rw [before, behind, decodeASCII_map small, Option.map_some, fields]
  simp only [tab, true_and, List.tail_cons, String.ofList_toList]

/-! ### Lines -/

theorem line_eq (text : String) : line text = (text.toList ++ ['\n']).map byte := by
  simp [line, ascii, byte_newline]

theorem Word.isASCIIText_line {text : String} (word : Word text) : IsASCIIText (text.toList ++ ['\n']) := by
  intro c member
  rcases List.mem_append.mp member with among | last
  · exact word.isASCIIText c among
  · rw [List.mem_singleton.mp last]
    decide

theorem dropWhile_free {p : Char → Bool} {text : List Char} (free : ∀ c ∈ text, p c = false) :
    text.dropWhile p = text := by
  cases text with
  | nil => rfl
  | cons c rest =>
      rw [List.dropWhile_cons_of_neg]
      simp [free c List.mem_cons_self]

theorem strip_line {text : String} (word : Word text) : strip (text.toList ++ ['\n']) = text.toList := by
  obtain ⟨c, rest, split⟩ := List.exists_cons_of_ne_nil word.filled
  have first : isSpace c = false := word.not_space c (split ▸ List.mem_cons_self)
  have front : (text.toList ++ ['\n']).dropWhile isSpace = text.toList ++ ['\n'] := by
    rw [split, List.cons_append, List.dropWhile_cons_of_neg (by simp [first])]
  have back : ∀ d ∈ text.toList.reverse, isSpace d = false :=
    fun d member => word.not_space d (List.mem_reverse.mp member)
  rw [strip, front, List.reverse_append, List.reverse_singleton, List.singleton_append,
    List.dropWhile_cons_of_pos (by decide), dropWhile_free back, List.reverse_reverse]

theorem universalNewlines_free {text : List Char} (free : '\r' ∉ text) : universalNewlines text = text := by
  fun_induction universalNewlines text with
  | case1 rest ih => exact absurd List.mem_cons_self free
  | case2 rest other ih => exact absurd List.mem_cons_self free
  | case3 c rest first second ih => rw [ih fun member => free (List.mem_cons_of_mem c member)]
  | case4 => rfl

theorem outputText_line {text : String} (word : Word text) : outputText (line text) = .ok text.toList := by
  have free : '\r' ∉ text.toList ++ ['\n'] := by
    intro member
    rcases List.mem_append.mp member with among | last
    · exact absurd (word.2 _ among).1 (by decide)
    · exact absurd (List.mem_singleton.mp last) (by decide)
  rw [outputText, line_eq, if_pos (decodesStrictly_ascii word.isASCIIText_line), runes_ascii word.isASCIIText_line,
    universalNewlines_free free, strip_line word]

theorem splitSpaces_lines {commits : List String} (words : ∀ commit ∈ commits, Word commit) :
    (decodeASCII (commits.flatMap line)).map splitSpaces = some (commits.map String.toList) := by
  have lines : commits.flatMap line = (commits.flatMap fun commit => commit.toList ++ ['\n']).map byte := by
    rw [List.map_flatMap]
    exact congrArg commits.flatMap (funext line_eq)
  have small : IsASCIIText (commits.flatMap fun commit => commit.toList ++ ['\n']) := by
    intro c member
    obtain ⟨commit, among, symbol⟩ := List.mem_flatMap.mp member
    exact (words commit among).isASCIIText_line c symbol
  rw [lines, decodeASCII_map small, Option.map_some]
  congr 1
  clear lines small
  induction commits with
  | nil => rfl
  | cons commit rest ih =>
      have word := words commit List.mem_cons_self
      rw [List.flatMap_cons, List.append_assoc, List.singleton_append,
        splitSpaces_word word.not_space word.filled (by decide),
        ih fun other member => words other (List.mem_cons_of_mem commit member), List.map_cons]

/-! ### Sizes -/

theorem intDigits_digits {text : List Char} (filled : text ≠ []) (digits : ∀ c ∈ text, c.isDigit = true) :
    intDigits text = some text := by
  fun_induction intDigits text with
  | case1 => exact absurd rfl filled
  | case2 c digit => rfl
  | case3 c other => exact absurd (digits c List.mem_cons_self) other
  | case4 c rest digit ih => exact absurd (digits '_' (by simp)) (by decide)
  | case5 c rest other => exact absurd (digits c List.mem_cons_self) other
  | case6 c d rest _ digit ih =>
      rw [ih (List.cons_ne_nil d rest) fun e member => digits e (List.mem_cons_of_mem c member), Option.map_some]
  | case7 c d rest _ other => exact absurd (digits c List.mem_cons_self) other

theorem parseInt_digits {text : List Char} (digits : ∀ c ∈ text, c.isDigit = true) :
    parseInt text = (intMagnitude text).map Int.ofNat := by
  unfold parseInt
  split
  · exact absurd (digits '-' List.mem_cons_self) (by decide)
  · exact absurd (digits '+' List.mem_cons_self) (by decide)
  · rfl

/-- The size of a blob is read back, unless it has more digits than `int` takes. -/
theorem readSize_line (n : Nat) :
    ((decodeASCII (line (toString n))).bind fun text => parseInt (strip text)) =
      if (Nat.toDigits 10 n).length ≤ Py.maxStrDigits then some (n : Int) else none := by
  have digits : ∀ c ∈ Nat.toDigits 10 n, c.isDigit = true :=
    fun c member => Nat.isDigit_of_mem_toDigits (by decide) (by decide) member
  have magnitude : intMagnitude (Nat.toDigits 10 n) =
      if (Nat.toDigits 10 n).length ≤ Py.maxStrDigits then some n else none := by
    rw [intMagnitude, intDigits_digits Nat.toDigits_ne_nil digits, Option.bind_some,
      Nat.ofDigitChars_toDigits (by decide) (by decide)]
  rw [line_eq, decodeASCII_map (word_toString n).isASCIIText_line, Option.bind_some, strip_line (word_toString n),
    Nat.toString_eq_ofList_toDigits, String.toList_ofList, parseInt_digits digits, magnitude]
  split <;> rfl

end ExitfyCores.Public
