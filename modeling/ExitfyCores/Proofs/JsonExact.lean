/-
Module: ExitfyCores.Proofs.JsonExact
Layer: Proofs
Purpose: On well-formed JSON, `redactJSONSecrets` replaces exactly the outermost members whose decoded key is a secret key.
Imports: ExitfyCores.Lib.JsonTree, ExitfyCores.Proofs.JsonRedaction
Trusted boundary: none
Main exports: isSecretKey_decode, secretMember, tree_redacted, redactJSONSecrets_document
Open obligations: none
-/
import ExitfyCores.Lib.JsonTree
import ExitfyCores.Proofs.JsonRedaction

namespace ExitfyCores.Bridge

open Json

/-! ### Keys -/

/-- What a key decodes to is in the list of `isSecretKey`. -/
def secretName (key : List JsonUnit) : Bool := isSecretKey (encodeRunes (decodeUnits key))

theorem runes_encodeRunes (text : List Char) : runes (encodeRunes text) = text := by
  rw [runes, symbols_encodeRunes, List.map_map]
  exact List.map_id text

/-- No secret key holds the replacement character. -/
theorem isSecretKey_runeError {text : List Char} (among : runeError ∈ text) : isSecretKey (encodeRunes text) = false := by
  have clean : ∀ key ∈ secretKeys, toLower runeError ∉ key.toList := by decide
  rw [isSecretKey, runes_encodeRunes, List.any_eq_false]
  intro key member same
  rw [beq_iff_eq] at same
  exact clean key member (same ▸ List.mem_map_of_mem among)

/-- The source accepts a key exactly when what it decodes to is a secret key. -/
theorem isSecretKey_decode (key : List JsonUnit) : (decodeJSONKey (unitsText key)).any isSecretKey = secretName key := by
  rcases decodeUnits_cases key with pieces | ⟨malformed, among⟩
  · rw [decodeJSONKey_eq_some_iff.mpr pieces]
    rfl
  · rw [decodeJSONKey_eq_none_iff.mpr malformed, secretName, isSecretKey_runeError among]
    rfl

/-- The replacement of a member. -/
def secretMember (key : List JsonUnit) : Option Bytes := if secretName key then some credentialMember else none

/-! ### Pieces -/

/-- Nothing but blanks stands in front of a colon: the string before it would be a key. -/
def IsKeyContext (rest : Bytes) : Prop := ∃ blanks tail, rest = blanks ++ byte ':' :: tail ∧ ∀ b ∈ blanks, IsBlank b

theorem redactJSONSecrets_other {b : UInt8} (notQuote : b ≠ byte '"') (rest : Bytes) :
    redactJSONSecrets (b :: rest) = b :: redactJSONSecrets rest := by
  rw [redactJSONSecrets_turn, scanTurn_other notQuote]
  rfl

theorem redactJSONSecrets_plain {piece : Bytes} (quiet : ∀ b ∈ piece, b ≠ byte '"') (rest : Bytes) :
    redactJSONSecrets (piece ++ rest) = piece ++ redactJSONSecrets rest := by
  induction piece with
  | nil => rfl
  | cons b piece ih =>
      rw [List.cons_append, redactJSONSecrets_other (quiet b List.mem_cons_self),
        ih fun other member => quiet other (List.mem_cons_of_mem b member), List.cons_append]

theorem redactJSONSecrets_blanks (blanks : Blanks) (rest : Bytes) :
    redactJSONSecrets (blanks.bytes ++ rest) = blanks.bytes ++ redactJSONSecrets rest :=
  redactJSONSecrets_plain (fun b member => (blank_quiet (blanks.blank b member)).1) rest

/-- A string that is no key is kept. -/
theorem redactJSONSecrets_string (units : List JsonUnit) {rest : Bytes} (value : ¬ IsKeyContext rest) :
    redactJSONSecrets (quotedText units ++ rest) = quotedText units ++ redactJSONSecrets rest := by
  have shape : quotedText units ++ rest = byte '"' :: unitsText units ++ byte '"' :: rest := by simp [quotedText]
  have size : (quotedText units).length = (unitsText units).length + 2 := by simp [quotedText]
  have turn : scanTurn (quotedText units ++ rest) = some (false, (quotedText units).length) := by
    rw [shape, size]
    exact scanTurn_value (unitsText_body units) fun blanks tail split blank => value ⟨blanks, tail, split, blank⟩
  rw [redactJSONSecrets_turn, turn]
  simp only
  rw [List.take_left, List.drop_left]

theorem redactJSONSecrets_keyText {key : List JsonUnit} (plain : secretName key = false)
    (beforeColon afterColon : Blanks) {tail : Bytes} (stop : ∀ b ∈ tail.head?, ¬ IsBlank b) :
    redactJSONSecrets (keyText key beforeColon afterColon ++ tail) =
      keyText key beforeColon afterColon ++ redactJSONSecrets tail := by
  have shape : keyText key beforeColon afterColon ++ tail =
      byte '"' :: unitsText key ++ byte '"' :: (beforeColon.bytes ++ byte ':' :: (afterColon.bytes ++ tail)) := by
    simp [keyText, quotedText]
  have turn : scanTurn (keyText key beforeColon afterColon ++ tail) = some (false, (quotedText key).length) := by
    rw [shape, scanTurn_member (unitsText_body key) beforeColon.blank afterColon.blank stop, isSecretKey_decode, plain]
    simp [quotedText]
  have split : keyText key beforeColon afterColon ++ tail =
      quotedText key ++ (beforeColon.bytes ++ byte ':' :: (afterColon.bytes ++ tail)) := by simp [keyText]
  rw [redactJSONSecrets_turn, turn]
  simp only
  rw [split, List.take_left, List.drop_left, redactJSONSecrets_blanks, redactJSONSecrets_other (by decide),
    redactJSONSecrets_blanks]
  simp [keyText]

/-- A secret member is replaced with its value. -/
theorem redactJSONSecrets_secret {key : List JsonUnit} (secret : secretName key = true) (beforeColon afterColon : Blanks)
    {token rest : Bytes} (isToken : Token token) (stop : ∀ b ∈ (token ++ rest).head?, ¬ IsBlank b) (follows : Follows rest) :
    redactJSONSecrets (keyText key beforeColon afterColon ++ (token ++ rest)) =
      credentialMember ++ redactJSONSecrets rest := by
  have shape : keyText key beforeColon afterColon ++ (token ++ rest) =
      byte '"' :: unitsText key ++
        byte '"' :: (beforeColon.bytes ++ byte ':' :: (afterColon.bytes ++ (token ++ rest))) := by
    simp [keyText, quotedText]
  have turn : scanTurn (keyText key beforeColon afterColon ++ (token ++ rest)) =
      some (true, (keyText key beforeColon afterColon ++ token).length) := by
    rw [shape, scanTurn_member (unitsText_body key) beforeColon.blank afterColon.blank stop, isSecretKey_decode, secret,
      jsonSecretValueEnd_token isToken follows]
    simp [keyText, quotedText]
    omega
  rw [redactJSONSecrets_turn, turn]
  simp only
  rw [← List.append_assoc, List.drop_left]

/-! ### What stands behind a value -/

/-- Behind the blanks after a value there is no colon. -/
theorem not_isKeyContext {blanks tail : Bytes} (blank : ∀ b ∈ blanks, IsBlank b)
    (stop : ∀ b ∈ tail.head?, ¬ IsBlank b ∧ b ≠ byte ':') : ¬ IsKeyContext (blanks ++ tail) := by
  rintro ⟨others, after, same, blankOthers⟩
  have colon : ∀ b ∈ (byte ':' :: after).head?, ¬ IsBlank b := by
    rintro b ⟨⟩
    decide
  have size := skip_blanks blank fun b head => (stop b head).1
  rw [same, skip_blanks blankOthers colon] at size
  obtain ⟨_, tails⟩ := List.append_inj same size.symm
  subst tails
  exact (stop (byte ':') rfl).2 rfl

/-- A delimiter behind a value. -/
def IsDelimiter (b : UInt8) : Prop := b = byte ',' ∨ b = byte ']' ∨ b = byte '}'

theorem delimiter_quiet {b : UInt8} (delimiter : IsDelimiter b) : b ≠ byte '"' ∧ ¬ IsBlank b ∧ b ≠ byte ':' := by
  rcases delimiter with rfl | rfl | rfl <;> decide

theorem not_isKeyContext_delimiter (blanks : Blanks) {delimiter : UInt8} (isDelimiter : IsDelimiter delimiter)
    (rest : Bytes) : ¬ IsKeyContext (blanks.bytes ++ delimiter :: rest) := by
  refine not_isKeyContext blanks.blank ?_
  rintro b ⟨⟩
  exact (delimiter_quiet isDelimiter).2

theorem follows_delimiter (blanks : Blanks) {delimiter : UInt8} (isDelimiter : delimiter = byte ',' ∨ delimiter = byte '}')
    (rest : Bytes) : Follows (blanks.bytes ++ delimiter :: rest) :=
  ⟨blanks.bytes, delimiter :: rest, rfl, blanks.blank, .inr ⟨delimiter, rest, rfl, isDelimiter⟩⟩

theorem text_not_blank (tree : JsonTree) (rest : Bytes) : ∀ b ∈ (tree.text ++ rest).head?, ¬ IsBlank b := by
  obtain ⟨first, others, same, notBlank⟩ := token_head tree.token
  rw [same]
  rintro b ⟨⟩
  exact notBlank

/-- A member with its value, in front of the blanks and the delimiter behind it. -/
theorem redactJSONSecrets_member (key : List JsonUnit) (beforeColon afterColon : Blanks) (value : JsonTree)
    (after : Blanks) {delimiter : UInt8} (isDelimiter : delimiter = byte ',' ∨ delimiter = byte '}') (rest : Bytes)
    (redacted : redactJSONSecrets (value.text ++ (after.bytes ++ delimiter :: rest)) =
      value.textWith secretMember ++ redactJSONSecrets (after.bytes ++ delimiter :: rest)) :
    redactJSONSecrets (keyText key beforeColon afterColon ++ value.text ++ (after.bytes ++ delimiter :: rest)) =
      (secretMember key).getD (keyText key beforeColon afterColon ++ value.textWith secretMember) ++
        (after.bytes ++ delimiter :: redactJSONSecrets rest) := by
  have quiet : delimiter ≠ byte '"' := by rcases isDelimiter with rfl | rfl <;> decide
  have behind : redactJSONSecrets (after.bytes ++ delimiter :: rest) =
      after.bytes ++ delimiter :: redactJSONSecrets rest := by
    rw [redactJSONSecrets_blanks, redactJSONSecrets_other quiet]
  rw [List.append_assoc]
  cases secret : secretName key with
  | true =>
      rw [redactJSONSecrets_secret secret beforeColon afterColon value.token (text_not_blank value _)
        (follows_delimiter after isDelimiter rest), behind]
      simp [secretMember, secret]
  | false =>
      rw [redactJSONSecrets_keyText secret beforeColon afterColon (text_not_blank value _), redacted, behind]
      simp [secretMember, secret]

/-! ### Trees -/

mutual

/-- The redaction of a value is its text with the secret members replaced, whatever stands behind it. -/
theorem tree_redacted : ∀ (tree : JsonTree) {rest : Bytes}, ¬ IsKeyContext rest →
    redactJSONSecrets (tree.text ++ rest) = tree.textWith secretMember ++ redactJSONSecrets rest
  | .primitive token, rest, _ =>
      redactJSONSecrets_plain (fun b member => (primitive_quiet token.primitive b member).1) rest
  | .string units, _, value => redactJSONSecrets_string units value
  | .emptyArray blanks, rest, _ => by
      have shape : (JsonTree.emptyArray blanks).text ++ rest = byte '[' :: (blanks.bytes ++ byte ']' :: rest) := by
        simp [JsonTree.text, JsonTree.textWith]
      rw [shape, redactJSONSecrets_other (by decide), redactJSONSecrets_blanks, redactJSONSecrets_other (by decide)]
      simp [JsonTree.textWith]
  | .array items, rest, _ => by
      have shape : (JsonTree.array items).text ++ rest = byte '[' :: (items.text ++ byte ']' :: rest) := by
        simp [JsonTree.text, JsonTree.textWith, JsonItems.text]
      rw [shape, redactJSONSecrets_other (by decide), items_redacted items rest]
      simp [JsonTree.textWith]
  | .emptyObject blanks, rest, _ => by
      have shape : (JsonTree.emptyObject blanks).text ++ rest = byte '{' :: (blanks.bytes ++ byte '}' :: rest) := by
        simp [JsonTree.text, JsonTree.textWith]
      rw [shape, redactJSONSecrets_other (by decide), redactJSONSecrets_blanks, redactJSONSecrets_other (by decide)]
      simp [JsonTree.textWith]
  | .object members, rest, _ => by
      have shape : (JsonTree.object members).text ++ rest = byte '{' :: (members.text ++ byte '}' :: rest) := by
        simp [JsonTree.text, JsonTree.textWith, JsonMembers.text]
      rw [shape, redactJSONSecrets_other (by decide), members_redacted members rest]
      simp [JsonTree.textWith]

/-- The values of an array, up to its closing bracket. -/
theorem items_redacted : ∀ (items : JsonItems) (rest : Bytes),
    redactJSONSecrets (items.text ++ byte ']' :: rest) =
      items.textWith secretMember ++ byte ']' :: redactJSONSecrets rest
  | .last before value after, rest => by
      have shape : (JsonItems.last before value after).text ++ byte ']' :: rest =
          before.bytes ++ (value.text ++ (after.bytes ++ byte ']' :: rest)) := by
        simp [JsonItems.text, JsonItems.textWith, JsonTree.text]
      rw [shape, redactJSONSecrets_blanks,
        tree_redacted value (not_isKeyContext_delimiter after (.inr (.inl rfl)) rest), redactJSONSecrets_blanks,
        redactJSONSecrets_other (by decide)]
      simp [JsonItems.textWith]
  | .more before value after others, rest => by
      have shape : (JsonItems.more before value after others).text ++ byte ']' :: rest =
          before.bytes ++ (value.text ++ (after.bytes ++ byte ',' :: (others.text ++ byte ']' :: rest))) := by
        simp [JsonItems.text, JsonItems.textWith, JsonTree.text]
      rw [shape, redactJSONSecrets_blanks, tree_redacted value (not_isKeyContext_delimiter after (.inl rfl) _),
        redactJSONSecrets_blanks, redactJSONSecrets_other (by decide), items_redacted others rest]
      simp [JsonItems.textWith]

/-- The members of an object, up to its closing brace. -/
theorem members_redacted : ∀ (members : JsonMembers) (rest : Bytes),
    redactJSONSecrets (members.text ++ byte '}' :: rest) =
      members.textWith secretMember ++ byte '}' :: redactJSONSecrets rest
  | .last before key beforeColon afterColon value after, rest => by
      have shape : (JsonMembers.last before key beforeColon afterColon value after).text ++ byte '}' :: rest =
          before.bytes ++
            (keyText key beforeColon afterColon ++ value.text ++ (after.bytes ++ byte '}' :: rest)) := by
        simp [JsonMembers.text, JsonMembers.textWith, JsonTree.text, unchanged]
      rw [shape, redactJSONSecrets_blanks, redactJSONSecrets_member key beforeColon afterColon value after (.inr rfl) rest
        (tree_redacted value (not_isKeyContext_delimiter after (.inr (.inr rfl)) rest))]
      simp [JsonMembers.textWith]
  | .more before key beforeColon afterColon value after others, rest => by
      have shape : (JsonMembers.more before key beforeColon afterColon value after others).text ++ byte '}' :: rest =
          before.bytes ++ (keyText key beforeColon afterColon ++ value.text ++
            (after.bytes ++ byte ',' :: (others.text ++ byte '}' :: rest))) := by
        simp [JsonMembers.text, JsonMembers.textWith, JsonTree.text, unchanged]
      rw [shape, redactJSONSecrets_blanks, redactJSONSecrets_member key beforeColon afterColon value after (.inl rfl) _
        (tree_redacted value (not_isKeyContext_delimiter after (.inl rfl) _)), members_redacted others rest]
      simp [JsonMembers.textWith]

end

/-- On every well-formed text, exactly the outermost members with a secret key are replaced. -/
theorem redactJSONSecrets_document (document : JsonDocument) :
    redactJSONSecrets document.text = document.textWith secretMember := by
  have shape : document.text = document.before.bytes ++ (document.value.text ++ (document.after.bytes ++ [])) := by
    simp [JsonDocument.text, JsonDocument.textWith, JsonTree.text]
  have ended : ¬ IsKeyContext (document.after.bytes ++ []) := not_isKeyContext document.after.blank (by simp)
  rw [shape, redactJSONSecrets_blanks, tree_redacted document.value ended, redactJSONSecrets_blanks]
  simp [JsonDocument.textWith, redactJSONSecrets_turn, scanTurn]

end ExitfyCores.Bridge
