/-
Module: ExitfyCores.Lib.JsonTree
Layer: Lib
Purpose: Well-formed JSON texts as concrete syntax trees, with blanks and spellings kept, what the keys in them decode to, and the text
  of a tree with some members replaced or with some values hidden.
Imports: ExitfyCores.Lib.JsonGrammar, ExitfyCores.Lib.JsonTokens
Trusted boundary: human-reviewed spec
Main exports: Blanks, decodeUnits, JsonTree, JsonItems, JsonMembers, JsonTree.textWith, JsonDocument, JsonTree.token,
  JsonTree.hide, JsonDocument.textWith_of_hide
Open obligations: none
-/
import ExitfyCores.Lib.JsonGrammar
import ExitfyCores.Lib.JsonTokens

namespace ExitfyCores.Json

/-! ### Keys -/

/-- What a string decodes to; a surrogate on its own stands for the replacement character. -/
def decodeUnits : List JsonUnit → List Char
  | [] => []
  | .literal c _ :: rest => c :: decodeUnits rest
  | .short escape :: rest => escape.char :: decodeUnits rest
  | .code high :: .code low :: rest =>
      if high.IsHigh ∧ low.IsLow then joined high low :: decodeUnits rest
      else if high.IsHigh ∨ high.IsLow then runeError :: decodeUnits (.code low :: rest)
      else .ofNat high.value :: decodeUnits (.code low :: rest)
  | .code quad :: rest =>
      if quad.IsHigh ∨ quad.IsLow then runeError :: decodeUnits rest else .ofNat quad.value :: decodeUnits rest

/-! ### Trees -/

/-- Blanks between tokens. -/
structure Blanks where
  bytes : Bytes
  blank : ∀ b ∈ bytes, IsBlank b

/-- A literal or a number. -/
structure PrimitiveToken where
  text : Bytes
  primitive : Primitive text

/-- A string with its quotes. -/
def quotedText (units : List JsonUnit) : Bytes := byte '"' :: unitsText units ++ [byte '"']

mutual

/-- A well-formed value as it is written. -/
inductive JsonTree where
  | primitive (token : PrimitiveToken)
  | string (units : List JsonUnit)
  | emptyArray (blanks : Blanks)
  | array (items : JsonItems)
  | emptyObject (blanks : Blanks)
  | object (members : JsonMembers)

/-- The values of an array. -/
inductive JsonItems where
  | last (before : Blanks) (value : JsonTree) (after : Blanks)
  | more (before : Blanks) (value : JsonTree) (after : Blanks) (rest : JsonItems)

/-- The members of an object. -/
inductive JsonMembers where
  | last (before : Blanks) (key : List JsonUnit) (beforeColon afterColon : Blanks) (value : JsonTree) (after : Blanks)
  | more (before : Blanks) (key : List JsonUnit) (beforeColon afterColon : Blanks) (value : JsonTree) (after : Blanks)
      (rest : JsonMembers)

end

/-- A key with its separator. -/
def keyText (key : List JsonUnit) (beforeColon afterColon : Blanks) : Bytes :=
  quotedText key ++ beforeColon.bytes ++ byte ':' :: afterColon.bytes

mutual

/-- The text of a value, where every outermost member whose key has a replacement is written as that. -/
def JsonTree.textWith (replacement : List JsonUnit → Option Bytes) : JsonTree → Bytes
  | .primitive token => token.text
  | .string units => quotedText units
  | .emptyArray blanks => byte '[' :: blanks.bytes ++ [byte ']']
  | .array items => byte '[' :: items.textWith replacement ++ [byte ']']
  | .emptyObject blanks => byte '{' :: blanks.bytes ++ [byte '}']
  | .object members => byte '{' :: members.textWith replacement ++ [byte '}']

def JsonItems.textWith (replacement : List JsonUnit → Option Bytes) : JsonItems → Bytes
  | .last before value after => before.bytes ++ value.textWith replacement ++ after.bytes
  | .more before value after rest =>
      before.bytes ++ value.textWith replacement ++ after.bytes ++ byte ',' :: rest.textWith replacement

def JsonMembers.textWith (replacement : List JsonUnit → Option Bytes) : JsonMembers → Bytes
  | .last before key beforeColon afterColon value after =>
      before.bytes ++
        (replacement key).getD (keyText key beforeColon afterColon ++ value.textWith replacement) ++ after.bytes
  | .more before key beforeColon afterColon value after rest =>
      before.bytes ++
        (replacement key).getD (keyText key beforeColon afterColon ++ value.textWith replacement) ++ after.bytes ++
        byte ',' :: rest.textWith replacement

end

/-- No member is replaced. -/
def unchanged (_ : List JsonUnit) : Option Bytes := none

def JsonTree.text (tree : JsonTree) : Bytes := tree.textWith unchanged

def JsonItems.text (items : JsonItems) : Bytes := items.textWith unchanged

def JsonMembers.text (members : JsonMembers) : Bytes := members.textWith unchanged

/-- A whole text: one value between blanks. -/
structure JsonDocument where
  before : Blanks
  value : JsonTree
  after : Blanks

def JsonDocument.textWith (document : JsonDocument) (replacement : List JsonUnit → Option Bytes) : Bytes :=
  document.before.bytes ++ document.value.textWith replacement ++ document.after.bytes

def JsonDocument.text (document : JsonDocument) : Bytes := document.textWith unchanged

/-! ### Texts of trees as tokens -/

theorem Body.of_bytes {text : Bytes} (quiet : ∀ b ∈ text, b ≠ byte '"' ∧ b ≠ byte '\\') : Body text := by
  induction text with
  | nil => exact .nil
  | cons b rest ih =>
      obtain ⟨notQuote, notBackslash⟩ := quiet b List.mem_cons_self
      exact .plain notQuote notBackslash (ih fun other member => quiet other (List.mem_cons_of_mem b member))

theorem HexDigit.quiet (digit : HexDigit) : digit.spelled ≠ byte '"' ∧ digit.spelled ≠ byte '\\' := by
  have all : ∀ d : Fin 16, ∀ upper : Bool,
      (HexDigit.mk d upper).spelled ≠ byte '"' ∧ (HexDigit.mk d upper).spelled ≠ byte '\\' := by decide
  exact all digit.value digit.upper

theorem Quad.body (quad : Quad) : Body quad.text := by
  apply Body.of_bytes
  intro b member
  simp only [Quad.text, List.mem_cons, List.not_mem_nil, or_false] at member
  rcases member with rfl | rfl | rfl | rfl
  · exact quad.first.quiet
  · exact quad.second.quiet
  · exact quad.third.quiet
  · exact quad.fourth.quiet

theorem JsonUnit.body (piece : JsonUnit) : Body piece.text := by
  cases piece with
  | literal c plain =>
      refine Body.of_bytes fun b member => ⟨?_, ?_⟩
      · rintro rfl
        exact byte_notMem_literal (by decide) plain.2.1 member
      · rintro rfl
        exact byte_notMem_literal (by decide) plain.2.2 member
  | short escape => exact .escape escape.letter .nil
  | code quad => exact .escape (byte 'u') quad.body

theorem unitsText_body (units : List JsonUnit) : Body (unitsText units) := by
  induction units with
  | nil => exact .nil
  | cons first rest ih => exact first.body.append ih

theorem quotedText_quoted (units : List JsonUnit) : Quoted (quotedText units) := ⟨unitsText units, rfl, unitsText_body units⟩

/-- Bytes that are neither quotes nor brackets. -/
theorem Balanced.of_bytes {text : Bytes} (quiet : ∀ b ∈ text, b ≠ byte '"' ∧ ¬ IsOpener b ∧ ¬ IsCloser b) :
    Balanced text := by
  induction text with
  | nil => exact .nil
  | cons b rest ih =>
      obtain ⟨notQuote, notOpener, notCloser⟩ := quiet b List.mem_cons_self
      exact .plain notQuote notOpener notCloser (ih fun other member => quiet other (List.mem_cons_of_mem b member))

theorem blank_quiet {b : UInt8} (blank : IsBlank b) : b ≠ byte '"' ∧ ¬ IsOpener b ∧ ¬ IsCloser b := by
  rcases blank with rfl | rfl | rfl | rfl <;> decide

theorem digit_quiet {b : UInt8} (digit : IsDigit b) : b ≠ byte '"' ∧ ¬ IsOpener b ∧ ¬ IsCloser b := by
  refine ⟨?_, ?_, ?_⟩
  · rintro rfl
    exact absurd digit (by decide)
  · rintro (rfl | rfl)
    · exact absurd digit (by decide)
    · exact absurd digit (by decide)
  · rintro (rfl | rfl)
    · exact absurd digit (by decide)
    · exact absurd digit (by decide)

theorem number_quiet {token : Bytes} (number : IsNumber token) :
    ∀ b ∈ token, b ≠ byte '"' ∧ ¬ IsOpener b ∧ ¬ IsCloser b := by
  obtain ⟨sign, integer, fraction, exponent, rfl, signed, isInteger, isFraction, isExponent⟩ := number
  intro b member
  rcases List.mem_append.mp member with inSign | member
  · rcases signed with rfl | rfl
    · cases inSign
    · rcases List.mem_singleton.mp inSign with rfl
      decide
  rcases List.mem_append.mp member with inInteger | member
  · rcases isInteger with rfl | ⟨first, rest, rfl, digit, _, all⟩
    · rcases List.mem_singleton.mp inInteger with rfl
      decide
    · rcases List.mem_cons.mp inInteger with rfl | later
      · exact digit_quiet digit
      · exact digit_quiet (all b later)
  rcases List.mem_append.mp member with inFraction | inExponent
  · rcases isFraction with rfl | ⟨digits, rfl, _, all⟩
    · cases inFraction
    · rcases List.mem_cons.mp inFraction with rfl | later
      · decide
      · exact digit_quiet (all b later)
  · rcases isExponent with rfl | ⟨marker, sign, digits, rfl, isMarker, signed, _, all⟩
    · cases inExponent
    · rcases List.mem_cons.mp inExponent with rfl | later
      · rcases isMarker with rfl | rfl <;> decide
      rcases List.mem_append.mp later with inSign | inDigits
      · rcases signed with rfl | rfl | rfl
        · cases inSign
        · rcases List.mem_singleton.mp inSign with rfl
          decide
        · rcases List.mem_singleton.mp inSign with rfl
          decide
      · exact digit_quiet (all b inDigits)

theorem primitive_quiet {token : Bytes} (primitive : Primitive token) :
    ∀ b ∈ token, b ≠ byte '"' ∧ ¬ IsOpener b ∧ ¬ IsCloser b := by
  have literals : ∀ name ∈ ["true", "false", "null"], ∀ b ∈ lit name, b ≠ byte '"' ∧ ¬ IsOpener b ∧ ¬ IsCloser b := by
    decide +kernel
  rcases primitive with rfl | rfl | rfl | number
  · exact literals "true" (by simp)
  · exact literals "false" (by simp)
  · exact literals "null" (by simp)
  · exact number_quiet number

theorem Blanks.balanced (blanks : Blanks) : Balanced blanks.bytes :=
  .of_bytes fun b member => blank_quiet (blanks.blank b member)

theorem quotedText_balanced (units : List JsonUnit) : Balanced (quotedText units) := .string (unitsText_body units) .nil

theorem keyText_balanced (key : List JsonUnit) (beforeColon afterColon : Blanks) :
    Balanced (keyText key beforeColon afterColon) :=
  ((quotedText_balanced key).append beforeColon.balanced).append
    (.plain (by decide) (by decide) (by decide) afterColon.balanced)

theorem Balanced.comma {rest : Bytes} (others : Balanced rest) : Balanced (byte ',' :: rest) :=
  .plain (by decide) (by decide) (by decide) others

mutual

/-- The text of a value is balanced. -/
theorem JsonTree.balanced : ∀ tree : JsonTree, Balanced tree.text
  | .primitive token => .of_bytes (primitive_quiet token.primitive)
  | .string units => quotedText_balanced units
  | .emptyArray blanks => .nested (.inr rfl) blanks.balanced .nil
  | .array items => .nested (.inr rfl) items.balanced .nil
  | .emptyObject blanks => .nested (.inl rfl) blanks.balanced .nil
  | .object members => .nested (.inl rfl) members.balanced .nil

theorem JsonItems.balanced : ∀ items : JsonItems, Balanced items.text
  | .last before value after => (before.balanced.append value.balanced).append after.balanced
  | .more before value after rest =>
      ((before.balanced.append value.balanced).append after.balanced).append rest.balanced.comma

theorem JsonMembers.balanced : ∀ members : JsonMembers, Balanced members.text
  | .last before key beforeColon afterColon value after =>
      (before.balanced.append ((keyText_balanced key beforeColon afterColon).append value.balanced)).append after.balanced
  | .more before key beforeColon afterColon value after rest =>
      ((before.balanced.append ((keyText_balanced key beforeColon afterColon).append value.balanced)).append
        after.balanced).append rest.balanced.comma

end

/-- The text of a value is one complete token. -/
theorem JsonTree.token : ∀ tree : JsonTree, Token tree.text
  | .primitive token => .inr (.inr token.primitive)
  | .string units => .inl (quotedText_quoted units)
  | .emptyArray blanks => .inr (.inl ⟨byte '[', blanks.bytes, .inr rfl, rfl, blanks.balanced⟩)
  | .array items => .inr (.inl ⟨byte '[', items.text, .inr rfl, rfl, items.balanced⟩)
  | .emptyObject blanks => .inr (.inl ⟨byte '{', blanks.bytes, .inl rfl, rfl, blanks.balanced⟩)
  | .object members => .inr (.inl ⟨byte '{', members.text, .inl rfl, rfl, members.balanced⟩)

/-! ### Keys with surrogates -/

theorem Quad.value_of_text {quad other : Quad} (same : quad.text = other.text) : quad.value = other.value := by
  have injective : ∀ d e : Fin 16, ∀ upper lower : Bool,
      (HexDigit.mk d upper).spelled = (HexDigit.mk e lower).spelled → d = e := by decide
  have digit : ∀ d e : HexDigit, d.spelled = e.spelled → d.value = e.value := fun d e =>
    injective d.value e.value d.upper e.upper
  simp only [Quad.text, List.cons.injEq, and_true] at same
  obtain ⟨first, second, third, fourth⟩ := same
  rw [Quad.value, Quad.value, digit _ _ first, digit _ _ second, digit _ _ third, digit _ _ fourth]

theorem Malformed.behind {head out rest : Bytes} (pieces : Pieces head out) (malformed : Malformed rest) :
    Malformed (head ++ rest) := by
  obtain ⟨before, means, after, rfl, others, bad⟩ := malformed
  exact ⟨head ++ before, out ++ means, after, by rw [List.append_assoc], pieces.append others, bad⟩

/-- No low surrogate is spelled by what stands behind a high one. -/
theorem unpaired_of_units {rest : List JsonUnit}
    (noLow : ∀ (low : Quad) (after : List JsonUnit), rest = .code low :: after → ¬ low.IsLow) (low : Quad) (tail : Bytes)
    (isLow : low.IsLow) : unitsText rest ≠ byte '\\' :: byte 'u' :: low.text ++ tail := by
  intro same
  cases rest with
  | nil => cases same
  | cons first after =>
      cases first with
      | literal c plain =>
          obtain ⟨b, others, encoded⟩ := List.exists_cons_of_ne_nil (utf8EncodeChar_ne_nil c)
          have head : b = byte '\\' := by
            have := congrArg List.head? same
            rw [unitsText_cons, JsonUnit.text, encoded] at this
            exact Option.some.inj this
          exact byte_notMem_literal (by decide) plain.2.2 (encoded ▸ head ▸ List.mem_cons_self)
      | short escape =>
          have letter : escape.letter = byte 'u' := Option.some.inj (congrArg (fun text : Bytes => text[1]?) same)
          cases escape <;> cases letter
      | code quad =>
          have digits : quad.text = low.text := congrArg (fun text : Bytes => (text.drop 2).take 4) same
          have value := Quad.value_of_text digits
          refine noLow quad after rfl ?_
          unfold Quad.IsLow at isLow ⊢
          rw [value]
          exact isLow

/-- A surrogate on its own is malformed. -/
theorem malformed_lone {quad : Quad} (surrogate : quad.IsHigh ∨ quad.IsLow) {rest : List JsonUnit}
    (noLow : ∀ (low : Quad) (after : List JsonUnit), quad.IsHigh → rest = .code low :: after → ¬ low.IsLow) :
    Malformed (unitsText (.code quad :: rest)) := by
  rcases surrogate with isHigh | isLow
  · exact ⟨[], [], _, rfl, .nil, .loneHigh quad isHigh (unpaired_of_units fun low after => noLow low after isHigh)⟩
  · exact ⟨[], [], _, rfl, .nil, .loneLow quad isLow (unitsText rest)⟩

/-- A string is a spelling of what it decodes to, or it is malformed and the replacement character is in what it decodes
to. -/
theorem decodeUnits_cases (units : List JsonUnit) :
    Pieces (unitsText units) (encodeRunes (decodeUnits units)) ∨
      (Malformed (unitsText units) ∧ runeError ∈ decodeUnits units) := by
  -- one unit that means a character, in front of others
  have step : ∀ {text : Bytes} {c : Char} {rest : List JsonUnit}, Pieces text (String.utf8EncodeChar c) →
      (Pieces (unitsText rest) (encodeRunes (decodeUnits rest)) ∨
        (Malformed (unitsText rest) ∧ runeError ∈ decodeUnits rest)) →
      Pieces (text ++ unitsText rest) (encodeRunes (c :: decodeUnits rest)) ∨
        (Malformed (text ++ unitsText rest) ∧ runeError ∈ c :: decodeUnits rest) := by
    intro text c rest piece others
    rcases others with pieces | ⟨malformed, among⟩
    · exact .inl (piece.append pieces)
    · exact .inr ⟨malformed.behind piece, List.mem_cons_of_mem c among⟩
  have escaped : ∀ {text : Bytes} {c : Char}, Escaped text c → Pieces (byte '\\' :: text) (String.utf8EncodeChar c) := by
    intro text c means
    have piece := Pieces.escape means .nil
    rw [List.append_nil, List.append_nil] at piece
    exact piece
  fun_induction decodeUnits units with
  | case1 => exact .inl .nil
  | case2 c plain rest ih => exact step (.of_notMem (byte_notMem_literal (by decide) plain.2.2)) ih
  | case3 escape rest ih => exact step (escaped (.short escape)) ih
  | case4 high low rest pair ih =>
      have joinedText : unitsText (.code high :: .code low :: rest) =
          (byte '\\' :: (byte 'u' :: high.text ++ byte '\\' :: byte 'u' :: low.text)) ++ unitsText rest := by
        simp [JsonUnit.text]
      rw [joinedText]
      exact step (escaped (.pair high low pair.1 pair.2)) ih
  | case5 high low rest unpaired surrogate _ =>
      refine .inr ⟨malformed_lone surrogate fun other after isHigh same isLow => ?_, List.mem_cons_self⟩
      cases same
      exact unpaired ⟨isHigh, isLow⟩
  | case6 high low rest _ scalar ih =>
      rw [not_or] at scalar
      exact step (escaped (.code high scalar.1 scalar.2)) ih
  | case7 quad rest single surrogate _ =>
      exact .inr ⟨malformed_lone surrogate fun low after _ same => absurd same (single low after), List.mem_cons_self⟩
  | case8 quad rest _ scalar ih =>
      rw [not_or] at scalar
      exact step (escaped (.code quad scalar.1 scalar.2)) ih

/-! ### Hidden members -/

/-- The literal that stands for a hidden value. -/
def hiddenToken : PrimitiveToken := ⟨lit "null", .inr (.inr (.inl rfl))⟩

mutual

/-- The tree without the values of its hidden members: blanks, keys and all other values are kept as written. -/
def JsonTree.hide (hidden : List JsonUnit → Bool) : JsonTree → JsonTree
  | .primitive token => .primitive token
  | .string units => .string units
  | .emptyArray blanks => .emptyArray blanks
  | .array items => .array (items.hide hidden)
  | .emptyObject blanks => .emptyObject blanks
  | .object members => .object (members.hide hidden)

def JsonItems.hide (hidden : List JsonUnit → Bool) : JsonItems → JsonItems
  | .last before value after => .last before (value.hide hidden) after
  | .more before value after rest => .more before (value.hide hidden) after (rest.hide hidden)

def JsonMembers.hide (hidden : List JsonUnit → Bool) : JsonMembers → JsonMembers
  | .last before key beforeColon afterColon value after =>
      .last before key beforeColon afterColon (if hidden key then .primitive hiddenToken else value.hide hidden) after
  | .more before key beforeColon afterColon value after rest =>
      .more before key beforeColon afterColon (if hidden key then .primitive hiddenToken else value.hide hidden) after
        (rest.hide hidden)

end

def JsonDocument.hide (document : JsonDocument) (hidden : List JsonUnit → Bool) : JsonDocument :=
  { document with value := document.value.hide hidden }

mutual

/-- A hidden value does not show where its member is replaced. -/
theorem JsonTree.textWith_hide {replacement : List JsonUnit → Option Bytes} {hidden : List JsonUnit → Bool}
    (replaced : ∀ key, hidden key = true → (replacement key).isSome) :
    ∀ tree : JsonTree, (tree.hide hidden).textWith replacement = tree.textWith replacement
  | .primitive _ => rfl
  | .string _ => rfl
  | .emptyArray _ => rfl
  | .array items => by rw [JsonTree.hide, JsonTree.textWith, JsonTree.textWith, JsonItems.textWith_hide replaced items]
  | .emptyObject _ => rfl
  | .object members => by
      rw [JsonTree.hide, JsonTree.textWith, JsonTree.textWith, JsonMembers.textWith_hide replaced members]

theorem JsonItems.textWith_hide {replacement : List JsonUnit → Option Bytes} {hidden : List JsonUnit → Bool}
    (replaced : ∀ key, hidden key = true → (replacement key).isSome) :
    ∀ items : JsonItems, (items.hide hidden).textWith replacement = items.textWith replacement
  | .last before value after => by
      rw [JsonItems.hide, JsonItems.textWith, JsonItems.textWith, JsonTree.textWith_hide replaced value]
  | .more before value after rest => by
      rw [JsonItems.hide, JsonItems.textWith, JsonItems.textWith, JsonTree.textWith_hide replaced value,
        JsonItems.textWith_hide replaced rest]

theorem JsonMembers.textWith_hide {replacement : List JsonUnit → Option Bytes} {hidden : List JsonUnit → Bool}
    (replaced : ∀ key, hidden key = true → (replacement key).isSome) :
    ∀ members : JsonMembers, (members.hide hidden).textWith replacement = members.textWith replacement
  | .last before key beforeColon afterColon value after => by
      rw [JsonMembers.hide, JsonMembers.textWith, JsonMembers.textWith]
      cases secret : hidden key with
      | true =>
          obtain ⟨text, found⟩ := Option.isSome_iff_exists.mp (replaced key secret)
          simp only [found, Option.getD_some]
      | false => simp only [Bool.false_eq_true, if_false, JsonTree.textWith_hide replaced value]
  | .more before key beforeColon afterColon value after rest => by
      rw [JsonMembers.hide, JsonMembers.textWith, JsonMembers.textWith, JsonMembers.textWith_hide replaced rest]
      cases secret : hidden key with
      | true =>
          obtain ⟨text, found⟩ := Option.isSome_iff_exists.mp (replaced key secret)
          simp only [found, Option.getD_some]
      | false => simp only [Bool.false_eq_true, if_false, JsonTree.textWith_hide replaced value]

end

/-- Documents that differ in hidden values only are written alike where the hidden members are replaced. -/
theorem JsonDocument.textWith_of_hide {replacement : List JsonUnit → Option Bytes} {hidden : List JsonUnit → Bool}
    (replaced : ∀ key, hidden key = true → (replacement key).isSome) {document other : JsonDocument}
    (same : document.hide hidden = other.hide hidden) : document.textWith replacement = other.textWith replacement := by
  have kept : ∀ any : JsonDocument, (any.hide hidden).textWith replacement = any.textWith replacement := by
    intro any
    rw [JsonDocument.hide, JsonDocument.textWith, JsonDocument.textWith, JsonTree.textWith_hide replaced]
  rw [← kept document, same, kept]

end ExitfyCores.Json
