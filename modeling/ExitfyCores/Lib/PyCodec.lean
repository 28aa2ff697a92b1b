/-
Module: ExitfyCores.Lib.PyCodec
Layer: Lib
Purpose: Bytes as texts: the UTF codecs of Python, and `json.loads` of bytes.
Imports: ExitfyCores.Lib.PyJsonText, ExitfyCores.Lib.Raise
Trusted boundary: human-reviewed spec; the position and the reason in a `UnicodeDecodeError` are left out
Main exports: Utf8, decodeUtf8, encode, detectEncoding, decode, loads, decodeUtf8_encode, encode_injective,
  loads_encode, encode_decodeUtf8, decodeUtf8_injective
Open obligations: none
-/
import ExitfyCores.Lib.PyJsonText
import ExitfyCores.Lib.Raise

namespace ExitfyCores.Py

/-! ### UTF-8 -/

/-- How far a UTF-8 decoder is: the text so far, how many continuation bytes are missing, the bounds of the next of
them, and the bits of the character that has begun. -/
structure Utf8 where
  decoded : Text
  missing : Nat
  low : Nat
  high : Nat
  bits : Nat
deriving DecidableEq, Repr

/-- A decoder between two characters. -/
def Utf8.at (decoded : Text) : Utf8 := ⟨decoded, 0, 0x80, 0xBF, 0⟩

/-- The first byte of a character. `pass` lets surrogates through, as `surrogatepass` does. -/
def Utf8.lead (pass : Bool) (decoded : Text) (b : Nat) : Option Utf8 :=
  if b < 0x80 then some (.at (decoded ++ [b]))
  else if b < 0xC2 then none
  else if b < 0xE0 then some ⟨decoded, 1, 0x80, 0xBF, b - 0xC0⟩
  else if b = 0xE0 then some ⟨decoded, 2, 0xA0, 0xBF, 0⟩
  else if b = 0xED then some ⟨decoded, 2, 0x80, if pass then 0xBF else 0x9F, 0xD⟩
  else if b < 0xF0 then some ⟨decoded, 2, 0x80, 0xBF, b - 0xE0⟩
  else if b = 0xF0 then some ⟨decoded, 3, 0x90, 0xBF, 0⟩
  else if b < 0xF4 then some ⟨decoded, 3, 0x80, 0xBF, b - 0xF0⟩
  else if b = 0xF4 then some ⟨decoded, 3, 0x80, 0x8F, 4⟩
  else none

/-- One byte. -/
def Utf8.feed (pass : Bool) (state : Utf8) (b : UInt8) : Option Utf8 :=
  match state.missing with
  | 0 => Utf8.lead pass state.decoded b.toNat
  | missing + 1 =>
      if state.low ≤ b.toNat ∧ b.toNat ≤ state.high then
        let bits := 64 * state.bits + (b.toNat - 0x80)
        if missing = 0 then some (.at (state.decoded ++ [bits]))
        else some ⟨state.decoded, missing, 0x80, 0xBF, bits⟩
      else none

/-- `raw.decode("utf-8")` -/
def decodeUtf8 (pass : Bool) (raw : List UInt8) : Option Text := do
  let final ← raw.foldlM (Utf8.feed pass) (.at [])
  if final.missing = 0 then some final.decoded else none

/-- One byte where an ill-formed sequence becomes U+FFFD: a byte that breaks off a character begins anew. -/
def Utf8.feedReplacing (state : Utf8) (b : UInt8) : Utf8 :=
  match Utf8.feed false state b with
  | some next => next
  | none =>
      let broken := state.decoded ++ [0xFFFD]
      if state.missing = 0 then .at broken else (Utf8.feed false (.at broken) b).getD (.at (broken ++ [0xFFFD]))

/-- `raw.decode("utf-8", "replace")` -/
def decodeUtf8Replacing (raw : List UInt8) : Text :=
  let final := raw.foldl Utf8.feedReplacing (.at [])
  if final.missing = 0 then final.decoded else final.decoded ++ [0xFFFD]

/-- The bytes of one character. -/
def encodeChar (c : Nat) : List UInt8 :=
  (if c < 0x80 then [c]
    else if c < 0x800 then [0xC0 + c / 0x40, 0x80 + c % 0x40]
    else if c < 0x10000 then [0xE0 + c / 0x1000, 0x80 + c / 0x40 % 0x40, 0x80 + c % 0x40]
    else [0xF0 + c / 0x40000, 0x80 + c / 0x1000 % 0x40, 0x80 + c / 0x40 % 0x40, 0x80 + c % 0x40]).map UInt8.ofNat

/-- `value.encode("utf-8")` of a text without surrogates -/
def encode (value : Text) : List UInt8 := value.flatMap encodeChar

/-! ### UTF-16 and UTF-32 -/

/-- The 16-bit units of bytes. -/
def units16 (big : Bool) : List UInt8 → Option (List Nat)
  | [] => some []
  | a :: b :: rest => do
      let units ← units16 big rest
      return (if big then 256 * a.toNat + b.toNat else 256 * b.toNat + a.toNat) :: units
  | [_] => none

/-- Surrogate pairs joined; a surrogate alone stays. -/
def joinSurrogates : List Nat → Text
  | high :: low :: rest =>
      if 0xD800 ≤ high ∧ high ≤ 0xDBFF ∧ 0xDC00 ≤ low ∧ low ≤ 0xDFFF then
        (0x10000 + 1024 * (high - 0xD800) + (low - 0xDC00)) :: joinSurrogates rest
      else high :: joinSurrogates (low :: rest)
  | units => units
termination_by structural units => units

/-- `raw.decode("utf-16-be", "surrogatepass")` or `raw.decode("utf-16-le", "surrogatepass")` -/
def decodeUtf16 (big : Bool) (raw : List UInt8) : Option Text := (units16 big raw).map joinSurrogates

/-- `raw.decode("utf-32-be", "surrogatepass")` or `raw.decode("utf-32-le", "surrogatepass")` -/
def decodeUtf32 (big : Bool) : List UInt8 → Option Text
  | [] => some []
  | a :: b :: c :: d :: rest => do
      let quad := if big then [a, b, c, d] else [d, c, b, a]
      let code := quad.foldl (fun value byte => 256 * value + byte.toNat) 0
      let value ← decodeUtf32 big rest
      if code ≤ 0x10FFFF then some (code :: value) else none
  | _ => none

/-! ### `json.loads` of bytes -/

inductive Encoding where
  | utf8
  | utf8Sig
  | utf16
  | utf16Big
  | utf16Little
  | utf32
  | utf32Big
  | utf32Little
deriving DecidableEq, Repr

/-- `json.detect_encoding` behind the byte order marks -/
def detectByZeros : List UInt8 → Encoding
  | a :: b :: c :: d :: _ =>
      if a = 0 then if b ≠ 0 then .utf16Big else .utf32Big
      else if b = 0 then if c ≠ 0 ∨ d ≠ 0 then .utf16Little else .utf32Little
      else .utf8
  | [a, b] => if a = 0 then .utf16Big else if b = 0 then .utf16Little else .utf8
  | _ => .utf8

/-- `json.detect_encoding` -/
def detectEncoding (raw : List UInt8) : Encoding :=
  if [0, 0, 0xFE, 0xFF].isPrefixOf raw ∨ [0xFF, 0xFE, 0, 0].isPrefixOf raw then .utf32
  else if [0xFE, 0xFF].isPrefixOf raw ∨ [0xFF, 0xFE].isPrefixOf raw then .utf16
  else if [0xEF, 0xBB, 0xBF].isPrefixOf raw then .utf8Sig
  else detectByZeros raw

/-- `raw.decode(encoding, "surrogatepass")` of an encoding that was detected -/
def decode (encoding : Encoding) (raw : List UInt8) : Option Text :=
  match encoding with
  | .utf8 => decodeUtf8 true raw
  | .utf8Sig => decodeUtf8 true (raw.drop 3)
  | .utf16 => decodeUtf16 (raw.head? = some 0xFE) (raw.drop 2)
  | .utf16Big => decodeUtf16 true raw
  | .utf16Little => decodeUtf16 false raw
  | .utf32 => decodeUtf32 (raw.head? = some 0) (raw.drop 4)
  | .utf32Big => decodeUtf32 true raw
  | .utf32Little => decodeUtf32 false raw

/-- `json.loads(raw)` -/
def loads (raw : List UInt8) : Except LoadsError Value :=
  match decode (detectEncoding raw) raw with
  | some value => loadsText value
  | none => .error .unicode

/-! ### Reading ASCII -/

/-- ASCII without NUL. -/
def Ascii (value : Text) : Prop := ∀ c ∈ value, 0 < c ∧ c < 128

theorem encode_ascii {value : Text} (ascii : Ascii value) : encode value = value.map UInt8.ofNat := by
  induction value with
  | nil => rfl
  | cons c rest ih =>
      have small : encodeChar c = [UInt8.ofNat c] := by
        simp [encodeChar, (ascii c List.mem_cons_self).2]
      have tail := ih fun d member => ascii d (List.mem_cons_of_mem c member)
      rw [encode] at tail ⊢
      rw [List.flatMap_cons, small, tail]
      rfl

theorem length_encode_ascii {value : Text} (ascii : Ascii value) : (encode value).length = value.length := by
  simp [encode_ascii ascii]

theorem toNat_ofNat_ascii {c : Nat} (small : c < 128) : (UInt8.ofNat c).toNat = c := by
  rw [UInt8.toNat_ofNat']
  exact Nat.mod_eq_of_lt (by omega)

theorem feed_ascii (pass : Bool) (decoded : Text) {c : Nat} (small : c < 128) :
    Utf8.feed pass (.at decoded) (UInt8.ofNat c) = some (.at (decoded ++ [c])) := by
  simp [Utf8.feed, Utf8.at, Utf8.lead, toNat_ofNat_ascii small, small]

theorem decodeUtf8_encode (pass : Bool) {value : Text} (ascii : Ascii value) :
    decodeUtf8 pass (encode value) = some value := by
  have loop : ∀ rest decoded, Ascii rest →
      (rest.map UInt8.ofNat).foldlM (Utf8.feed pass) (.at decoded) = some (.at (decoded ++ rest)) := by
    intro rest
    induction rest with
    | nil => simp
    | cons c rest ih =>
        intro decoded ascii
        have tail := ih (decoded ++ [c]) fun d member => ascii d (List.mem_cons_of_mem c member)
        have first := feed_ascii pass decoded (ascii c List.mem_cons_self).2
        simp [first, tail]
  rw [decodeUtf8, encode_ascii ascii, loop value [] ascii]
  simp [Utf8.at]

theorem encode_injective {first second : Text} (asciiFirst : Ascii first) (asciiSecond : Ascii second)
    (same : encode first = encode second) : first = second := by
  have decoded := decodeUtf8_encode false asciiFirst
  rw [same, decodeUtf8_encode false asciiSecond] at decoded
  exact (Option.some.inj decoded).symm

theorem detectByZeros_nonzero : ∀ {raw : List UInt8}, (∀ b ∈ raw, b ≠ 0) → detectByZeros raw = .utf8
  | a :: b :: c :: d :: rest, nonzero => by simp [detectByZeros, nonzero a (by simp), nonzero b (by simp)]
  | [a, b], nonzero => by simp [detectByZeros, nonzero a (by simp), nonzero b (by simp)]
  | [], _ => rfl
  | [_], _ => rfl
  | [_, _, _], _ => rfl

theorem detectEncoding_ascii {raw : List UInt8} (ascii : ∀ b ∈ raw, b ≠ 0 ∧ b < 128) : detectEncoding raw = .utf8 := by
  have noMark : ∀ mark : List UInt8, (∃ b ∈ mark, b = 0 ∨ 128 ≤ b) → mark.isPrefixOf raw = false := by
    intro mark strange
    obtain ⟨b, member, isStrange⟩ := strange
    by_contra isPrefix
    rw [Bool.not_eq_false, List.isPrefixOf_iff_prefix] at isPrefix
    obtain ⟨nonzero, small⟩ := ascii b (isPrefix.subset member)
    cases isStrange with
    | inl zero => exact nonzero zero
    | inr large => exact absurd small (UInt8.not_lt.mpr large)
  simp [detectEncoding, noMark [0, 0, 0xFE, 0xFF] ⟨0, by decide⟩, noMark [0xFF, 0xFE, 0, 0] ⟨0, by decide⟩,
    noMark [0xFE, 0xFF] ⟨0xFE, by decide⟩, noMark [0xFF, 0xFE] ⟨0xFE, by decide⟩,
    noMark [0xEF, 0xBB, 0xBF] ⟨0xEF, by decide⟩, detectByZeros_nonzero fun b member => (ascii b member).1]

/-- What is written in ASCII is read as the same text. -/
theorem loads_encode {value : Text} (ascii : Ascii value) : loads (encode value) = loadsText value := by
  have bytes : ∀ b ∈ encode value, b ≠ 0 ∧ b < 128 := by
    intro b member
    rw [encode_ascii ascii] at member
    obtain ⟨c, memberC, rfl⟩ := List.mem_map.mp member
    obtain ⟨positive, small⟩ := ascii c memberC
    have same := toNat_ofNat_ascii small
    constructor
    · intro zero
      rw [zero] at same
      exact absurd same (by simpa using Nat.ne_of_lt positive)
    · rw [UInt8.lt_iff_toNat_lt, same]
      exact small
  rw [loads, detectEncoding_ascii bytes, decode, decodeUtf8_encode true ascii]

/-! ### What decodes is what is encoded -/

/-- The bytes of a character that has begun are those that its encoding starts with. -/
def Owes : Nat → Nat → Nat → Nat → List UInt8 → Prop
  | 0, _, _, _, begun => begun = []
  | 1, low, high, bits, begun => ∀ b : UInt8, low ≤ b.toNat → b.toNat ≤ high →
      encodeChar (64 * bits + (b.toNat - 0x80)) = begun ++ [b]
  | missing + 2, low, high, bits, begun => ∀ b : UInt8, low ≤ b.toNat → b.toNat ≤ high →
      Owes (missing + 1) 0x80 0xBF (64 * bits + (b.toNat - 0x80)) (begun ++ [b])

theorem ofNat_eq_of_toNat {n : Nat} {b : UInt8} (same : n = b.toNat) : UInt8.ofNat n = b := by
  rw [same, UInt8.ofNat_toNat]

theorem encodeChar_two {lead first : UInt8} (lower : 0xC2 ≤ lead.toNat) (upper : lead.toNat < 0xE0)
    (lower₁ : 0x80 ≤ first.toNat) (upper₁ : first.toNat ≤ 0xBF) :
    encodeChar (64 * (lead.toNat - 0xC0) + (first.toNat - 0x80)) = [lead, first] := by
  unfold encodeChar
  rw [if_neg (by omega), if_pos (by omega)]
  simp only [List.map_cons, List.map_nil, List.cons.injEq, and_true]
  exact ⟨ofNat_eq_of_toNat (by omega), ofNat_eq_of_toNat (by omega)⟩

theorem encodeChar_three {lead first second : UInt8} {bits : Nat} (lead' : lead.toNat = 0xE0 + bits / 64)
    (first' : first.toNat = 0x80 + bits % 64) (least : 0x20 ≤ bits) (most : bits < 0x400)
    (lower : 0x80 ≤ second.toNat) (upper : second.toNat ≤ 0xBF) :
    encodeChar (64 * bits + (second.toNat - 0x80)) = [lead, first, second] := by
  unfold encodeChar
  rw [if_neg (by omega), if_neg (by omega), if_pos (by omega)]
  simp only [List.map_cons, List.map_nil, List.cons.injEq, and_true]
  exact ⟨ofNat_eq_of_toNat (by omega), ofNat_eq_of_toNat (by omega), ofNat_eq_of_toNat (by omega)⟩

theorem encodeChar_four {lead first second third : UInt8} {bits : Nat} (lead' : lead.toNat = 0xF0 + bits / 4096)
    (first' : first.toNat = 0x80 + bits / 64 % 64) (second' : second.toNat = 0x80 + bits % 64) (least : 0x400 ≤ bits)
    (lower : 0x80 ≤ third.toNat) (upper : third.toNat ≤ 0xBF) :
    encodeChar (64 * bits + (third.toNat - 0x80)) = [lead, first, second, third] := by
  unfold encodeChar
  rw [if_neg (by omega), if_neg (by omega), if_neg (by omega)]
  simp only [List.map_cons, List.map_nil, List.cons.injEq, and_true]
  exact ⟨ofNat_eq_of_toNat (by omega), ofNat_eq_of_toNat (by omega), ofNat_eq_of_toNat (by omega),
    ofNat_eq_of_toNat (by omega)⟩

theorem owes_three {lead : UInt8} {low high bits : Nat} (lead' : lead.toNat = 0xE0 + bits) (small : bits < 0x10)
    (bounds : 0x80 ≤ low ∧ high ≤ 0xBF) (least : bits = 0 → 0xA0 ≤ low) : Owes 2 low high bits [lead] := by
  intro first lower upper second lower₂ upper₂
  refine encodeChar_three ?_ ?_ ?_ ?_ lower₂ upper₂ <;> omega

theorem owes_four {lead : UInt8} {low high bits : Nat} (lead' : lead.toNat = 0xF0 + bits)
    (bounds : 0x80 ≤ low ∧ high ≤ 0xBF) (least : bits = 0 → 0x90 ≤ low) : Owes 3 low high bits [lead] := by
  intro first lower upper second lower₂ upper₂ third lower₃ upper₃
  refine encodeChar_four ?_ ?_ ?_ ?_ lower₃ upper₃ <;> omega

/-- The invariant of the decoder after some bytes. -/
def Utf8.Holds (state : Utf8) (raw : List UInt8) : Prop :=
  ∃ begun, raw = encode state.decoded ++ begun ∧ Owes state.missing state.low state.high state.bits begun

theorem encode_concat (value : Text) (c : Nat) : encode (value ++ [c]) = encode value ++ encodeChar c := by
  simp [encode]

theorem holds_begun {decoded : Text} {missing low high bits : Nat} {b : UInt8} (owes : Owes missing low high bits [b]) :
    (⟨decoded, missing, low, high, bits⟩ : Utf8).Holds (encode decoded ++ [b]) := ⟨[b], rfl, owes⟩

theorem lead_holds {pass : Bool} {decoded : Text} {b : UInt8} {next : Utf8}
    (fed : Utf8.lead pass decoded b.toNat = some next) : next.Holds (encode decoded ++ [b]) := by
  unfold Utf8.lead at fed
  split at fed
  · rename_i small
    cases fed
    refine ⟨[], ?_, rfl⟩
    simp only [Utf8.at, encode_concat, List.append_nil]
    simp [encodeChar, small]
  · split at fed
    · cases fed
    · split at fed
      · cases fed
        exact holds_begun fun first lower upper => encodeChar_two (by omega) (by omega) lower upper
      · split at fed
        · cases fed
          exact holds_begun (owes_three (by omega) (by omega) (by omega) (by omega))
        · split at fed
          · cases fed
            exact holds_begun (owes_three (by omega) (by omega) ⟨by omega, by split <;> omega⟩ (by omega))
          · split at fed
            · cases fed
              exact holds_begun (owes_three (by omega) (by omega) (by omega) (by omega))
            · split at fed
              · cases fed
                exact holds_begun (owes_four (by omega) (by omega) (by omega))
              · split at fed
                · cases fed
                  exact holds_begun (owes_four (by omega) (by omega) (by omega))
                · split at fed
                  · cases fed
                    exact holds_begun (owes_four (by omega) (by omega) (by omega))
                  · cases fed

theorem feed_holds {pass : Bool} {state next : Utf8} {raw : List UInt8} {b : UInt8} (held : state.Holds raw)
    (fed : Utf8.feed pass state b = some next) : next.Holds (raw ++ [b]) := by
  obtain ⟨decoded, missing, low, high, bits⟩ := state
  obtain ⟨begun, same, owes⟩ := held
  match missing with
  | 0 =>
      have none : begun = [] := owes
      rw [same, none, List.append_nil]
      exact lead_holds fed
  | 1 =>
      simp only [Utf8.feed, if_true] at fed
      obtain ⟨bounds, fed⟩ := Option.ite_none_right_eq_some.mp fed
      cases fed
      have last := owes b bounds.1 bounds.2
      exact ⟨[], by simp [Utf8.at, encode_concat, last, same], rfl⟩
  | missing + 2 =>
      simp only [Utf8.feed, Nat.succ_ne_zero, if_false] at fed
      obtain ⟨bounds, fed⟩ := Option.ite_none_right_eq_some.mp fed
      cases fed
      exact ⟨begun ++ [b], by simp [same], owes b bounds.1 bounds.2⟩

/-- What decodes as a text is the encoding of the text. -/
theorem encode_decodeUtf8 {pass : Bool} {raw : List UInt8} {value : Text} (decoded : decodeUtf8 pass raw = some value) :
    encode value = raw := by
  have loop : ∀ (rest raw : List UInt8) (state final : Utf8), state.Holds raw →
      rest.foldlM (Utf8.feed pass) state = some final → final.Holds (raw ++ rest) := by
    intro rest
    induction rest with
    | nil =>
        intro raw state final held run
        cases run
        simpa using held
    | cons b rest ih =>
        intro raw state final held run
        rw [List.foldlM_cons] at run
        obtain ⟨next, fed, run⟩ := Option.bind_eq_some_iff.mp run
        simpa using ih (raw ++ [b]) next final (feed_holds held fed) run
  obtain ⟨final, run, finished⟩ := Option.bind_eq_some_iff.mp decoded
  obtain ⟨begun, same, owes⟩ := loop raw [] (.at []) final ⟨[], rfl, rfl⟩ run
  split at finished
  · rename_i complete
    rw [complete] at owes
    have none : begun = [] := owes
    cases finished
    simpa [none] using same.symm
  · cases finished

/-- No two byte strings decode as one text. -/
theorem decodeUtf8_injective {pass : Bool} {raw raw' : List UInt8} {value : Text}
    (first : decodeUtf8 pass raw = some value) (second : decodeUtf8 pass raw' = some value) : raw = raw' :=
  (encode_decodeUtf8 first).symm.trans (encode_decodeUtf8 second)

end ExitfyCores.Py
