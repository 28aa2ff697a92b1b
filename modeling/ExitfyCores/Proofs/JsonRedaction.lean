/-
Module: ExitfyCores.Proofs.JsonRedaction
Layer: Proofs
Purpose: The main loop of `redactJSONSecrets` as a recursion over what is left of the text: every turn moves on, and no byte of a
  secret value that is incomplete or malformed is copied.
Imports: ExitfyCores.Proofs.JsonScan
Trusted boundary: none
Main exports: redactTurn, redactJSONFrom_turn, scanTurn, redactJSONFrom_eq, redactJSONSecrets_turn, SecretMember, kept,
  redactJSONSecrets_fails_closed
Open obligations: none
-/
import ExitfyCores.Proofs.JsonScan

namespace ExitfyCores.Bridge

open Json

/-! ### One turn -/

/-- What the loop carries. -/
structure Redaction where
  output : Bytes
  cursor : Nat
  index : Nat

/-- The body of the loop of `redactJSONSecrets`; without a result, the loop ends. -/
def redactTurn (value : Bytes) (state : Redaction) : Option Redaction :=
  match value[state.index]? with
  | none => none
  | some current =>
      if current ≠ byte '"' then some { state with index := state.index + 1 }
      else
        match jsonStringEnd value state.index with
        | none => none
        | some keyEnd =>
            let colon := skipJSONWhitespace value (keyEnd + 1)
            if value[colon]? ≠ some (byte ':') then some { state with index := keyEnd + 1 }
            else
              match decodeJSONKey (slice value (state.index + 1) keyEnd) with
              | none => some { state with index := keyEnd + 1 }
              | some key =>
                  if !isSecretKey key then some { state with index := keyEnd + 1 }
                  else
                    let valueEnd := jsonSecretValueEnd value (skipJSONWhitespace value (colon + 1))
                    some
                      { output := state.output ++ slice value state.cursor state.index ++ credentialMember
                        cursor := valueEnd
                        index := valueEnd }

/-- The loop takes one turn after the other. -/
theorem redactJSONFrom_turn (value : Bytes) (turns : Nat) (state : Redaction) :
    redactJSONFrom value (turns + 1) state.output state.cursor state.index =
      match redactTurn value state with
      | none => state.output ++ value.drop state.cursor
      | some next => redactJSONFrom value turns next.output next.cursor next.index := by
  rw [redactJSONFrom, redactTurn]
  cases value[state.index]? with
  | none => rfl
  | some current =>
      simp only
      split
      · rfl
      · cases jsonStringEnd value state.index with
        | none => rfl
        | some keyEnd =>
            simp only
            split
            · rfl
            · cases decodeJSONKey (slice value (state.index + 1) keyEnd) with
              | none => rfl
              | some key =>
                  simp only
                  split <;> rfl

/-- What one turn of the loop finds in what is left of the text: whether it is a secret member, and how long it is. -/
def scanTurn (text : Bytes) : Option (Bool × Nat) :=
  match text[0]? with
  | none => none
  | some current =>
      if current ≠ byte '"' then some (false, 1)
      else
        match jsonStringEnd text 0 with
        | none => none
        | some keyEnd =>
            let colon := skipJSONWhitespace text (keyEnd + 1)
            if text[colon]? ≠ some (byte ':') then some (false, keyEnd + 1)
            else
              match decodeJSONKey (slice text 1 keyEnd) with
              | none => some (false, keyEnd + 1)
              | some key =>
                  if !isSecretKey key then some (false, keyEnd + 1)
                  else some (true, jsonSecretValueEnd text (skipJSONWhitespace text (colon + 1)))

/-- The state after a turn that found something behind `index`. -/
def Redaction.after (value : Bytes) (state : Redaction) : Bool × Nat → Redaction
  | (false, n) => { state with index := state.index + n }
  | (true, n) =>
      { output := state.output ++ slice value state.cursor state.index ++ credentialMember
        cursor := state.index + n
        index := state.index + n }

/-- A turn depends on what is left of the text only, with `before` in front of `index`. -/
theorem redactTurn_append (before rest output : Bytes) (cursor : Nat) :
    redactTurn (before ++ rest) ⟨output, cursor, before.length⟩ =
      (scanTurn rest).map (Redaction.after (before ++ rest) ⟨output, cursor, before.length⟩) := by
  have head : (before ++ rest)[before.length]? = rest[0]? := getElem?_append_add before rest 0
  have quote : jsonStringEnd (before ++ rest) before.length = (jsonStringEnd rest 0).map (before.length + ·) :=
    jsonStringEnd_append before rest 0
  rw [redactTurn, scanTurn, head, quote]
  cases rest[0]? with
  | none => rfl
  | some current =>
      simp only
      split
      · rfl
      · cases jsonStringEnd rest 0 with
        | none => rfl
        | some keyEnd =>
            simp only [Option.map_some, Nat.add_assoc, skipJSONWhitespace_append, getElem?_append_add, slice_append,
              jsonSecretValueEnd_append]
            split
            · rfl
            · cases decodeJSONKey (slice rest 1 keyEnd) with
              | none => rfl
              | some key =>
                  simp only
                  split <;> rfl

/-- What stands in front of a secret value: a key that is accepted, with its separator. -/
def SecretKey (text : Bytes) (valueStart : Nat) : Prop :=
  ∃ body blanks after key, text.take valueStart = byte '"' :: body ++ byte '"' :: (blanks ++ byte ':' :: after) ∧
    Body body ∧ (∀ b ∈ blanks, IsBlank b) ∧ (∀ b ∈ after, IsBlank b) ∧ decodeJSONKey body = some key ∧
    isSecretKey key = true

/-- The value behind a separator, with its end: it is one complete token that is followed as in an object, or everything up to the
end of the text. -/
def ValueEnds (text : Bytes) (valueStart stop : Nat) : Prop :=
  valueStart ≤ stop ∧ stop ≤ text.length ∧
    (stop = text.length ∨ (Token (slice text valueStart stop) ∧ Follows (text.drop stop)))

theorem jsonSecretValueEnd_at (before rest : Bytes) :
    jsonSecretValueEnd (before ++ rest) before.length = before.length + jsonSecretValueEnd rest 0 :=
  jsonSecretValueEnd_append before rest 0

theorem valueEnds (value : Bytes) {start : Nat} (inside : start ≤ value.length) :
    ValueEnds value start (jsonSecretValueEnd value start) := by
  rcases jsonSecretValueEnd_cases value inside with whole | ⟨token, rest, split, isToken, follows, found⟩
  · rw [whole]
    exact ⟨inside, Nat.le_refl _, .inl rfl⟩
  · have size := congrArg List.length split
    rw [List.length_drop, List.length_append] at size
    have piece : slice value start (start + token.length) = token := by
      rw [slice, Nat.add_sub_cancel_left, split, List.take_left]
    have behind : value.drop (start + token.length) = rest := by
      rw [← List.drop_drop, split, List.drop_left]
    rw [found]
    refine ⟨Nat.le_add_right _ _, by omega, .inr ⟨?_, ?_⟩⟩
    · rw [piece]
      exact isToken
    · rw [behind]
      exact follows

/-- A string at the head of the text, with what stands behind its blanks. -/
theorem scanTurn_string {body : Bytes} (inside : Body body) {blanks tail : Bytes} (blank : ∀ b ∈ blanks, IsBlank b)
    (stop : ∀ b ∈ tail.head?, ¬ IsBlank b) :
    scanTurn (byte '"' :: body ++ byte '"' :: (blanks ++ tail)) =
      if tail.head? ≠ some (byte ':') then some (false, body.length + 2)
      else
        match decodeJSONKey body with
        | none => some (false, body.length + 2)
        | some key =>
            if !isSecretKey key then some (false, body.length + 2)
            else
              let valueStart := skipJSONWhitespace (byte '"' :: body ++ byte '"' :: (blanks ++ tail))
                (body.length + 2 + blanks.length + 1)
              some (true, jsonSecretValueEnd (byte '"' :: body ++ byte '"' :: (blanks ++ tail)) valueStart) := by
  have shape : byte '"' :: body ++ byte '"' :: (blanks ++ tail) =
      (byte '"' :: (body ++ [byte '"'])) ++ (blanks ++ tail) := by simp
  have quote : jsonStringEnd (byte '"' :: body ++ byte '"' :: (blanks ++ tail)) 0 = some (body.length + 1) := by
    have found := stringEndFrom_add 1 0 (body ++ byte '"' :: (blanks ++ tail))
    rw [stringEndFrom_body inside, Option.map_some, Nat.add_comm 1 body.length] at found
    exact found
  have key : slice (byte '"' :: body ++ byte '"' :: (blanks ++ tail)) 1 (body.length + 1) = body := by
    rw [slice, Nat.add_sub_cancel]
    exact List.take_left
  have size : (byte '"' :: (body ++ [byte '"'])).length = body.length + 1 + 1 := by simp
  have colon : skipJSONWhitespace (byte '"' :: body ++ byte '"' :: (blanks ++ tail)) (body.length + 1 + 1) =
      body.length + 2 + blanks.length := by
    have moved := skipJSONWhitespace_append (byte '"' :: (body ++ [byte '"'])) (blanks ++ tail) 0
    rw [skip_blanks blank stop, Nat.add_zero, size] at moved
    rw [shape]
    exact moved
  have head : (byte '"' :: body ++ byte '"' :: (blanks ++ tail))[body.length + 2 + blanks.length]? = tail.head? := by
    have moved := getElem?_append_add (byte '"' :: (body ++ [byte '"'])) (blanks ++ tail) blanks.length
    rw [getElem?_length_append, size] at moved
    rw [shape]
    exact moved
  have first : (byte '"' :: body ++ byte '"' :: (blanks ++ tail))[0]? = some (byte '"') := rfl
  rw [scanTurn, first]
  simp only
  rw [if_neg (not_not.mpr rfl), quote]
  simp only
  rw [colon, head, key]

/-- A string with a separator behind it. -/
theorem scanTurn_member {body : Bytes} (inside : Body body) {blanks after tail : Bytes} (blank : ∀ b ∈ blanks, IsBlank b)
    (blankAfter : ∀ b ∈ after, IsBlank b) (stop : ∀ b ∈ tail.head?, ¬ IsBlank b) :
    scanTurn (byte '"' :: body ++ byte '"' :: (blanks ++ byte ':' :: (after ++ tail))) =
      if (decodeJSONKey body).any isSecretKey then
        some (true, (byte '"' :: body ++ byte '"' :: (blanks ++ byte ':' :: after)).length + jsonSecretValueEnd tail 0)
      else some (false, body.length + 2) := by
  have colon : ∀ b ∈ (byte ':' :: (after ++ tail)).head?, ¬ IsBlank b := by
    rintro b ⟨⟩
    decide
  have shape : byte '"' :: body ++ byte '"' :: (blanks ++ byte ':' :: (after ++ tail)) =
      (byte '"' :: body ++ byte '"' :: (blanks ++ [byte ':'])) ++ (after ++ tail) := by simp
  have size : (byte '"' :: body ++ byte '"' :: (blanks ++ [byte ':'])).length = body.length + 2 + blanks.length + 1 := by
    simp
    omega
  have start : skipJSONWhitespace (byte '"' :: body ++ byte '"' :: (blanks ++ byte ':' :: (after ++ tail)))
      (body.length + 2 + blanks.length + 1) =
        (byte '"' :: body ++ byte '"' :: (blanks ++ byte ':' :: after)).length := by
    have moved := skipJSONWhitespace_append (byte '"' :: body ++ byte '"' :: (blanks ++ [byte ':'])) (after ++ tail) 0
    rw [skip_blanks blankAfter stop, Nat.add_zero, size] at moved
    rw [shape, moved]
    simp
    omega
  have value : jsonSecretValueEnd (byte '"' :: body ++ byte '"' :: (blanks ++ byte ':' :: (after ++ tail)))
      (byte '"' :: body ++ byte '"' :: (blanks ++ byte ':' :: after)).length =
        (byte '"' :: body ++ byte '"' :: (blanks ++ byte ':' :: after)).length + jsonSecretValueEnd tail 0 := by
    rw [← jsonSecretValueEnd_at]
    simp
  have separator : (byte ':' :: (after ++ tail)).head? = some (byte ':') := rfl
  rw [scanTurn_string inside blank colon, if_neg (not_not.mpr separator)]
  simp only [start, value]
  cases decodeJSONKey body with
  | none => rfl
  | some key => cases secret : isSecretKey key <;> simp [secret]

/-- A string without a separator behind it. -/
theorem scanTurn_value {body : Bytes} (inside : Body body) {rest : Bytes}
    (bare : ∀ blanks tail, rest = blanks ++ byte ':' :: tail → ¬ ∀ b ∈ blanks, IsBlank b) :
    scanTurn (byte '"' :: body ++ byte '"' :: rest) = some (false, body.length + 2) := by
  obtain ⟨blanks, tail, rfl, blank, stop⟩ := blanks_cases rest
  have noColon : tail.head? ≠ some (byte ':') := by
    intro head
    obtain ⟨others, rfl⟩ := List.head?_eq_some_iff.mp head
    exact bare blanks others rfl blank
  rw [scanTurn_string inside blank stop, if_pos noColon]

theorem scanTurn_other {b : UInt8} (notQuote : b ≠ byte '"') (rest : Bytes) :
    scanTurn (b :: rest) = some (false, 1) := by
  rw [scanTurn, List.getElem?_cons_zero]
  exact if_pos notQuote

theorem scanTurn_unterminated {rest : Bytes} (unterminated : stringEndFrom 0 rest = none) :
    scanTurn (byte '"' :: rest) = none := by
  have quote : jsonStringEnd (byte '"' :: rest) 0 = none := by
    have found := stringEndFrom_add 1 0 rest
    rw [unterminated] at found
    exact found
  have first : (byte '"' :: rest)[0]? = some (byte '"') := rfl
  rw [scanTurn, first]
  simp only
  rw [if_neg (not_not.mpr rfl), quote]

/-- What a turn can find: the end of the loop, a piece to be kept, or a secret member with its value. -/
theorem scanTurn_cases (text : Bytes) : scanTurn text = none ∨
    (∃ n, scanTurn text = some (false, n) ∧ 0 < n ∧ n ≤ text.length) ∨
    ∃ n valueStart, scanTurn text = some (true, n) ∧ 0 < valueStart ∧ SecretKey text valueStart ∧
      ValueEnds text valueStart n := by
  match text with
  | [] => exact .inl rfl
  | b :: rest =>
      by_cases notQuote : b ≠ byte '"'
      · exact .inr (.inl ⟨1, scanTurn_other notQuote rest, Nat.one_pos, Nat.succ_le_succ (Nat.zero_le _)⟩)
      rw [not_not] at notQuote
      subst notQuote
      rcases string_cases rest with ⟨body, rest, rfl, inside⟩ | ⟨_, unterminated⟩
      · have fits : body.length + 2 ≤ (byte '"' :: (body ++ byte '"' :: rest)).length := by simp
        by_cases bare : ∀ blanks tail, rest = blanks ++ byte ':' :: tail → ¬ ∀ b ∈ blanks, IsBlank b
        · exact .inr (.inl ⟨body.length + 2, scanTurn_value inside bare, Nat.succ_pos _, fits⟩)
        · push Not at bare
          obtain ⟨blanks, tail, rfl, blank⟩ := bare
          obtain ⟨after, tail, rfl, blankAfter, stop⟩ := blanks_cases tail
          have turn := scanTurn_member inside blank blankAfter stop
          by_cases secret : (decodeJSONKey body).any isSecretKey
          · rw [if_pos secret] at turn
            obtain ⟨key, decoded, accepted⟩ := (Option.any_eq_true _ _).mp secret
            have split : byte '"' :: (body ++ byte '"' :: (blanks ++ byte ':' :: (after ++ tail))) =
                (byte '"' :: body ++ byte '"' :: (blanks ++ byte ':' :: after)) ++ tail := by simp
            rw [List.cons_append] at turn
            rw [split] at turn ⊢
            have ends := valueEnds ((byte '"' :: body ++ byte '"' :: (blanks ++ byte ':' :: after)) ++ tail)
              (by simp : (byte '"' :: body ++ byte '"' :: (blanks ++ byte ':' :: after)).length ≤ _)
            rw [jsonSecretValueEnd_at] at ends
            exact .inr (.inr ⟨_, _, turn, by simp, ⟨body, blanks, after, key, List.take_left, inside, blank, blankAfter,
              decoded, accepted⟩, ends⟩)
          · rw [if_neg secret] at turn
            exact .inr (.inl ⟨body.length + 2, turn, Nat.succ_pos _, fits⟩)
      · exact .inl (scanTurn_unterminated unterminated)

theorem scanTurn_advances {text : Bytes} {secret : Bool} {n : Nat} (turn : scanTurn text = some (secret, n)) :
    0 < n ∧ n ≤ text.length := by
  rcases scanTurn_cases text with ended | ⟨m, kept, bounds⟩ | ⟨m, valueStart, found, positive, _, low, high, _⟩
  · cases ended.symm.trans turn
  · cases kept.symm.trans turn
    exact bounds
  · cases found.symm.trans turn
    exact ⟨Nat.lt_of_lt_of_le positive low, high⟩

/-- A turn moves on, and not over the end. -/
theorem redactTurn_advances {value : Bytes} {state next : Redaction} (turn : redactTurn value state = some next) :
    state.index < next.index ∧ next.index ≤ value.length := by
  have inside : state.index ≤ value.length := by
    by_contra outside
    have nothing : value[state.index]? = none := List.getElem?_eq_none (by omega)
    rw [redactTurn, nothing] at turn
    cases turn
  have front : (value.take state.index).length = state.index := List.length_take_of_le inside
  have seen := redactTurn_append (value.take state.index) (value.drop state.index) state.output state.cursor
  rw [List.take_append_drop, front] at seen
  obtain ⟨⟨secret, n⟩, found, rfl⟩ := Option.map_eq_some_iff.mp (seen.symm.trans turn)
  obtain ⟨positive, fits⟩ := scanTurn_advances found
  rw [List.length_drop] at fits
  cases secret with
  | false =>
      simp only [Redaction.after]
      omega
  | true =>
      simp only [Redaction.after]
      omega

/-! ### The whole run -/

/-- The loop as a recursion over what is left of the text. -/
def redactText : Nat → Bytes → Bytes
  | 0, text => text
  | turns + 1, text =>
      match scanTurn text with
      | none => text
      | some (false, n) => text.take n ++ redactText turns (text.drop n)
      | some (true, n) => credentialMember ++ redactText turns (text.drop n)

theorem drop_eq_slice_append {before rest : Bytes} {cursor : Nat} (behind : cursor ≤ before.length) :
    (before ++ rest).drop cursor = slice (before ++ rest) cursor before.length ++ rest := by
  rw [slice, List.drop_append_of_le_length behind, List.take_append_of_le_length (by simp),
    List.take_of_length_le (by simp)]

/-- From `index` on, the loop writes what is between `cursor` and `index`, and then what the recursion gives. -/
theorem redactJSONFrom_eq (turns : Nat) (before rest output : Bytes) {cursor : Nat} (behind : cursor ≤ before.length) :
    redactJSONFrom (before ++ rest) turns output cursor before.length =
      output ++ slice (before ++ rest) cursor before.length ++ redactText turns rest := by
  induction turns generalizing before rest output cursor with
  | zero =>
      rw [redactJSONFrom, redactText, drop_eq_slice_append behind, List.append_assoc]
  | succ turns ih =>
      have taken := redactJSONFrom_turn (before ++ rest) turns ⟨output, cursor, before.length⟩
      simp only [redactTurn_append] at taken
      rw [taken, redactText]
      cases turn : scanTurn rest with
      | none =>
          simp only [Option.map_none]
          rw [drop_eq_slice_append behind, List.append_assoc]
      | some found =>
          obtain ⟨secret, n⟩ := found
          obtain ⟨_, fits⟩ := scanTurn_advances turn
          have split : before ++ rest = before ++ rest.take n ++ rest.drop n := by
            rw [List.append_assoc, List.take_append_drop]
          have size : before.length + n = (before ++ rest.take n).length := by
            rw [List.length_append, List.length_take_of_le fits]
          cases secret with
          | false =>
              have joined : slice (before ++ rest) cursor (before.length + n) =
                  slice (before ++ rest) cursor before.length ++ rest.take n := by
                have moved := @drop_eq_slice_append before rest cursor behind
                have inner : before.length + n - cursor = (slice (before ++ rest) cursor before.length).length + n := by
                  rw [slice, List.length_take, List.length_drop, List.length_append]
                  omega
                rw [slice, moved, inner, List.take_length_add_append]
              simp only [Option.map_some, Redaction.after]
              rw [split, size, ih (before ++ rest.take n) (rest.drop n) output (by rw [← size]; omega), ← split, ← size,
                joined]
              simp only [List.append_assoc]
          | true =>
              have nothing : slice (before ++ rest) (before.length + n) (before.length + n) = [] := by
                rw [slice, Nat.sub_self, List.take_zero]
              simp only [Option.map_some, Redaction.after]
              rw [split, size, ih (before ++ rest.take n) (rest.drop n) _ (Nat.le_refl _), ← split, ← size, nothing]
              simp only [List.append_assoc, List.nil_append]

/-- More turns than the text is long change nothing. -/
theorem redactText_enough {turns others : Nat} {text : Bytes} (enough : text.length < turns)
    (enoughOthers : text.length < others) : redactText turns text = redactText others text := by
  induction turns generalizing others text with
  | zero => exact absurd enough (Nat.not_lt_zero _)
  | succ turns ih =>
      cases others with
      | zero => exact absurd enoughOthers (Nat.not_lt_zero _)
      | succ others =>
          rw [redactText, redactText]
          cases turn : scanTurn text with
          | none => rfl
          | some found =>
              obtain ⟨secret, n⟩ := found
              obtain ⟨positive, fits⟩ := scanTurn_advances turn
              have left : (text.drop n).length < turns ∧ (text.drop n).length < others := by
                rw [List.length_drop]
                omega
              cases secret with
              | false => simp only [ih left.1 left.2]
              | true => simp only [ih left.1 left.2]

theorem redactJSONFrom_start (value : Bytes) (turns : Nat) : redactJSONFrom value turns [] 0 0 = redactText turns value := by
  have started := redactJSONFrom_eq turns [] value [] (Nat.le_refl 0)
  rw [List.nil_append, List.length_nil, List.nil_append] at started
  rw [started]
  rfl

/-- The loop ends: more turns than the source can take change nothing. -/
theorem redactJSONFrom_enough {value : Bytes} {turns : Nat} (enough : value.length < turns) :
    redactJSONFrom value turns [] 0 0 = redactJSONSecrets value := by
  rw [redactJSONSecrets, redactJSONFrom_start, redactJSONFrom_start]
  exact redactText_enough enough (Nat.lt_succ_self _)

/-- One turn of the redaction of a text. -/
theorem redactJSONSecrets_turn (text : Bytes) : redactJSONSecrets text =
    match scanTurn text with
    | none => text
    | some (false, n) => text.take n ++ redactJSONSecrets (text.drop n)
    | some (true, n) => credentialMember ++ redactJSONSecrets (text.drop n) := by
  have recursion : ∀ n, 0 < n → n ≤ text.length →
      redactText text.length (text.drop n) = redactJSONSecrets (text.drop n) := by
    intro n positive fits
    rw [redactJSONSecrets, redactJSONFrom_start]
    refine redactText_enough ?_ (Nat.lt_succ_self _)
    rw [List.length_drop]
    omega
  rw [redactJSONSecrets, redactJSONFrom_start, redactText]
  cases turn : scanTurn text with
  | none => rfl
  | some found =>
      obtain ⟨secret, n⟩ := found
      obtain ⟨positive, fits⟩ := scanTurn_advances turn
      cases secret with
      | false => simp only [recursion n positive fits]
      | true => simp only [recursion n positive fits]

/-! ### What is copied -/

/-- A secret member that the loop finds: where its key starts, where its value starts and where that ends. -/
structure Member where
  start : Nat
  valueStart : Nat
  stop : Nat

/-- The key is accepted, and the value is one complete token that is followed as in an object, or everything up to the end of the
text. -/
structure SecretMember (value : Bytes) (member : Member) : Prop where
  opens : member.start < member.valueStart
  key : SecretKey (value.drop member.start) (member.valueStart - member.start)
  ends : ValueEnds value member.valueStart member.stop

/-- The bytes from `cursor` on with the members replaced. -/
def kept (value : Bytes) : Nat → List Member → Bytes
  | cursor, [] => value.drop cursor
  | cursor, member :: rest =>
      slice value cursor member.start ++ credentialMember ++ kept value member.stop rest

/-- Each member starts behind the one before it. -/
def Ascending : Nat → List Member → Prop
  | _, [] => True
  | cursor, member :: rest => cursor ≤ member.start ∧ Ascending member.stop rest

/-- Members of a suffix, seen from the whole text. -/
def Member.shift (distance : Nat) (member : Member) : Member :=
  ⟨distance + member.start, distance + member.valueStart, distance + member.stop⟩

theorem SecretMember.shift {before rest : Bytes} {member : Member} (secret : SecretMember rest member) :
    SecretMember (before ++ rest) (member.shift before.length) := by
  obtain ⟨opens, key, low, high, ends⟩ := secret
  refine ⟨Nat.add_lt_add_left opens _, ?_, Nat.add_le_add_left low _, ?_, ?_⟩
  · rw [Member.shift, List.drop_length_add_append, Nat.add_sub_add_left]
    exact key
  · rw [Member.shift, List.length_append]
    exact Nat.add_le_add_left high _
  · rcases ends with whole | ⟨token, follows⟩
    · rw [Member.shift, List.length_append, whole]
      exact .inl rfl
    · rw [Member.shift, slice_append, List.drop_length_add_append]
      exact .inr ⟨token, follows⟩

theorem Ascending.shift {distance cursor : Nat} {members : List Member} (ascending : Ascending cursor members) :
    Ascending (distance + cursor) (members.map (Member.shift distance)) := by
  induction members generalizing cursor with
  | nil => trivial
  | cons member rest ih => exact ⟨Nat.add_le_add_left ascending.1 _, ih ascending.2⟩

theorem Ascending.weaken {low high : Nat} {members : List Member} (ascending : Ascending high members)
    (lower : low ≤ high) : Ascending low members := by
  cases members with
  | nil => trivial
  | cons member rest => exact ⟨Nat.le_trans lower ascending.1, ascending.2⟩

theorem kept_shift (before rest : Bytes) (cursor : Nat) (members : List Member) :
    kept (before ++ rest) (before.length + cursor) (members.map (Member.shift before.length)) = kept rest cursor members := by
  induction members generalizing cursor with
  | nil => rw [List.map_nil, kept, kept, List.drop_length_add_append]
  | cons member others ih =>
      rw [List.map_cons, kept, kept, Member.shift, slice_append]
      simp only [ih]

theorem slice_join (value : Bytes) {low middle high : Nat} (lower : low ≤ middle) (upper : middle ≤ high) :
    slice value low high = slice value low middle ++ slice value middle high := by
  have distance : high - low = (middle - low) + (high - middle) := by omega
  have moved : low + (middle - low) = middle := by omega
  rw [slice, slice, slice, distance, List.take_add, List.drop_drop, moved]

/-- What is kept from an earlier cursor on. -/
theorem kept_before {value : Bytes} {low high : Nat} (lower : low ≤ high) {members : List Member}
    (ascending : Ascending high members) : kept value low members = slice value low high ++ kept value high members := by
  cases members with
  | nil =>
      have moved : low + (high - low) = high := by omega
      have split := List.take_append_drop (high - low) (value.drop low)
      rw [List.drop_drop, moved] at split
      exact split.symm
  | cons member rest =>
      rw [kept, kept, slice_join value lower ascending.1]
      simp only [List.append_assoc]

/-- Members behind a piece of the text, as members of the whole. -/
theorem members_behind {value : Bytes} {n : Nat} (fits : n ≤ value.length) {members : List Member}
    (ascending : Ascending 0 members) (secret : ∀ member ∈ members, SecretMember (value.drop n) member) :
    ∃ moved, Ascending n moved ∧ (∀ member ∈ moved, SecretMember value member) ∧
      kept value n moved = kept (value.drop n) 0 members := by
  have split := List.take_append_drop n value
  have front : (value.take n).length = n := List.length_take_of_le fits
  refine ⟨members.map (Member.shift n), @Ascending.shift n 0 members ascending, ?_, ?_⟩
  · intro member among
    obtain ⟨behind, mem, rfl⟩ := List.mem_map.mp among
    have shifted := @SecretMember.shift (value.take n) _ _ (secret behind mem)
    rw [split, front] at shifted
    exact shifted
  · have shifted := kept_shift (value.take n) (value.drop n) 0 members
    rw [split, front] at shifted
    exact shifted

/-- The redacted text is the text with secret members replaced, and nothing else. -/
theorem redactJSONSecrets_kept (value : Bytes) : ∃ members, Ascending 0 members ∧
    (∀ member ∈ members, SecretMember value member) ∧ redactJSONSecrets value = kept value 0 members := by
  induction size : value.length using Nat.strongRecOn generalizing value with
  | _ length ih =>
      have behind : ∀ n, 0 < n → n ≤ value.length → ∃ members, Ascending n members ∧
          (∀ member ∈ members, SecretMember value member) ∧ redactJSONSecrets (value.drop n) = kept value n members := by
        intro n positive fits
        obtain ⟨members, ascending, secret, found⟩ := ih (value.drop n).length (by rw [List.length_drop]; omega)
          (value.drop n) rfl
        obtain ⟨moved, ascendingMoved, secretMoved, same⟩ := members_behind fits ascending secret
        exact ⟨moved, ascendingMoved, secretMoved, found.trans same.symm⟩
      rw [redactJSONSecrets_turn]
      rcases scanTurn_cases value with ended | ⟨n, turn, positive, fits⟩ | ⟨n, valueStart, turn, positive, key, ends⟩
      · rw [ended]
        exact ⟨[], trivial, by simp, rfl⟩
      · obtain ⟨members, ascending, secret, found⟩ := behind n positive fits
        refine ⟨members, ascending.weaken (Nat.zero_le n), secret, ?_⟩
        rw [turn, kept_before (Nat.zero_le n) ascending]
        simp only [found]
        rfl
      · obtain ⟨members, ascending, secret, found⟩ := behind n (Nat.lt_of_lt_of_le positive ends.1) ends.2.1
        have nothing : slice value 0 0 = [] := rfl
        refine ⟨⟨0, valueStart, n⟩ :: members, ⟨Nat.zero_le _, ascending⟩,
          List.forall_mem_cons.mpr ⟨⟨positive, key, ends⟩, secret⟩, ?_⟩
        rw [turn, kept]
        simp only [found, nothing, List.nil_append]

end ExitfyCores.Bridge
