/-
Module: ExitfyCores.Bridge.JsonScanner
Layer: Bridge
Purpose: `redactJSONSecrets` of `internal/bridge/bridge.go` and the byte scanners under it. The sing-box
  bridge carries the same text. Positions are byte indices into `value`, as in the source; a loop over an
  index is a recursion over the bytes from that index on.
Imports: ExitfyCores.Bridge.SecretPatterns
Trusted boundary: human-reviewed spec
Main exports: jsonStringEnd, skipJSONWhitespace, decodeJSONKey, jsonSecretValueEnd, redactJSONSecrets
Open obligations: none
-/
import ExitfyCores.Bridge.SecretPatterns

namespace ExitfyCores.Bridge

/-- `value[start:stop]` -/
def slice (value : Bytes) (start stop : Nat) : Bytes := (value.drop start).take (stop - start)

/-- The loop of `jsonStringEnd` over the bytes from `index` on. -/
def stringEndFrom : Nat → Bytes → Option Nat
  | _, [] => none
  | index, current :: rest =>
      if current = byte '\\' then
        match rest with
        | [] => none
        | _ :: rest => stringEndFrom (index + 2) rest
      else if current = byte '"' then some index
      else stringEndFrom (index + 1) rest

/-- `jsonStringEnd`; `none` stands for `-1`. -/
def jsonStringEnd (value : Bytes) (quote : Nat) : Option Nat :=
  stringEndFrom (quote + 1) (value.drop (quote + 1))

/-- `' ', '\t', '\r', '\n'` -/
def isJSONWhitespace (b : UInt8) : Bool :=
  b == byte ' ' || b == byte '\t' || b == byte '\r' || b == byte '\n'

/-- `skipJSONWhitespace` -/
def skipJSONWhitespace (value : Bytes) (start : Nat) : Nat :=
  start + ((value.drop start).takeWhile isJSONWhitespace).length

/-- The digit switch of `decodeHexQuad`. -/
def hexDigit (current : UInt8) : Option Nat :=
  if byte '0' ≤ current ∧ current ≤ byte '9' then some (current - byte '0').toNat
  else if byte 'a' ≤ current ∧ current ≤ byte 'f' then some (current - byte 'a' + 10).toNat
  else if byte 'A' ≤ current ∧ current ≤ byte 'F' then some (current - byte 'A' + 10).toNat
  else none

/-- `decodeHexQuad`; four digits stay below `2^16`, so `result<<4 | digit` never overflows. -/
def decodeHexQuad (value : Bytes) : Option Nat :=
  if value.length ≠ 4 then none
  else value.foldlM (fun result current => (hexDigit current).map (result * 16 + ·)) 0

/-- The case `'u'` of `decodeJSONKey` behind the letter: the bytes written and the bytes read. -/
def decodeUnicodeEscape (rest : Bytes) : Option (Bytes × Nat) := do
  if rest.length < 4 then none
  let codepoint ← decodeHexQuad (rest.take 4)
  if 0xd800 ≤ codepoint ∧ codepoint ≤ 0xdbff then
    if rest.length < 10 ∨ rest[4]? ≠ some (byte '\\') ∨ rest[5]? ≠ some (byte 'u') then none
    let low ← decodeHexQuad (slice rest 6 10)
    if low < 0xdc00 ∨ 0xdfff < low then none
    some (String.utf8EncodeChar (.ofNat (0x10000 + (codepoint - 0xd800) <<< 10 + (low - 0xdc00))), 10)
  else if 0xdc00 ≤ codepoint ∧ codepoint ≤ 0xdfff then none
  else some (String.utf8EncodeChar (.ofNat codepoint), 4)

/-- The switch of `decodeJSONKey` behind a backslash: the bytes written and the bytes read. -/
def decodeEscape : Bytes → Option (Bytes × Nat)
  | [] => none
  | escape :: rest =>
      if escape = byte '"' ∨ escape = byte '\\' ∨ escape = byte '/' then some ([escape], 1)
      else if escape = byte 'b' then some ([0x08], 1)
      else if escape = byte 'f' then some ([0x0C], 1)
      else if escape = byte 'n' then some ([byte '\n'], 1)
      else if escape = byte 'r' then some ([byte '\r'], 1)
      else if escape = byte 't' then some ([byte '\t'], 1)
      else if escape = byte 'u' then
        (decodeUnicodeEscape rest).map fun decoded => (decoded.1, decoded.2 + 1)
      else none

/-- The loop of `decodeJSONKey`; `skip` bytes still belong to the escape read last. -/
def decodeFrom : Nat → Bytes → Option Bytes
  | _, [] => some []
  | skip + 1, _ :: rest => decodeFrom skip rest
  | 0, current :: rest =>
      if current ≠ byte '\\' then (decodeFrom 0 rest).map (current :: ·)
      else
        match decodeEscape rest with
        | none => none
        | some (decoded, read) => (decodeFrom read rest).map (decoded ++ ·)

/-- `decodeJSONKey`; `none` stands for `"", false`. -/
def decodeJSONKey (raw : Bytes) : Option Bytes :=
  if byte '\\' ∉ raw then some raw else decodeFrom 0 raw

/-- `matchingJSONCloser` -/
def matchingJSONCloser (opener : UInt8) : UInt8 :=
  if opener = byte '{' then byte '}' else byte ']'

/-- `plainSecretValueEnd` -/
def plainSecretValueEnd (value : Bytes) (_start : Nat) : Nat := value.length

/-- `jsonObjectValueEnd` -/
def jsonObjectValueEnd (value : Bytes) (tokenEnd : Nat) : Nat :=
  match value[skipJSONWhitespace value tokenEnd]? with
  | none => tokenEnd
  | some current =>
      if current = byte ',' ∨ current = byte '}' then tokenEnd else value.length

/-- The string loop of `jsonSecretValueEnd`: the index behind the closing quote. -/
def quotedEndFrom : Bool → Nat → Bytes → Option Nat
  | _, _, [] => none
  | escaped, index, current :: rest =>
      if escaped then quotedEndFrom false (index + 1) rest
      else if current = byte '\\' then quotedEndFrom true (index + 1) rest
      else if current = byte '"' then some (index + 1)
      else quotedEndFrom false (index + 1) rest

/-- The bracket loop of `jsonSecretValueEnd`: the index behind the closer of the first bracket. -/
def compositeEndFrom : Bytes → Bool → Bool → Nat → Bytes → Option Nat
  | _, _, _, _, [] => none
  | stack, true, escaped, index, current :: rest =>
      if escaped then compositeEndFrom stack true false (index + 1) rest
      else if current = byte '\\' then compositeEndFrom stack true true (index + 1) rest
      else if current = byte '"' then compositeEndFrom stack false false (index + 1) rest
      else compositeEndFrom stack true false (index + 1) rest
  | stack, false, escaped, index, current :: rest =>
      if current = byte '"' then compositeEndFrom stack true escaped (index + 1) rest
      else if current = byte '{' ∨ current = byte '[' then
        compositeEndFrom (matchingJSONCloser current :: stack) false escaped (index + 1) rest
      else if current = byte '}' ∨ current = byte ']' then
        match stack with
        | [] => none
        | top :: stack =>
            if current ≠ top then none
            else if stack = [] then some (index + 1)
            else compositeEndFrom stack false escaped (index + 1) rest
      else compositeEndFrom stack false escaped (index + 1) rest

/-- `'0' <= b && b <= '9'` -/
def isDigit (b : UInt8) : Bool := byte '0' ≤ b && b ≤ byte '9'

/-- A digit loop: the first index from `index` on that holds no digit. -/
def digitsEnd (value : Bytes) (index : Nat) : Nat :=
  index + ((value.drop index).takeWhile isDigit).length

/-- The integer part in `jsonPrimitiveValueEnd`. -/
def integerEnd (value : Bytes) (index : Nat) : Option Nat :=
  match value[index]? with
  | none => none
  | some current =>
      if current = byte '0' then some (index + 1)
      else if isDigit current then some (digitsEnd value index)
      else none

/-- The fraction in `jsonPrimitiveValueEnd`. -/
def fractionEnd (value : Bytes) (index : Nat) : Option Nat :=
  if value[index]? = some (byte '.') then
    let fractionStart := index + 1
    let index := digitsEnd value fractionStart
    if index = fractionStart then none else some index
  else some index

/-- The exponent in `jsonPrimitiveValueEnd`. -/
def exponentEnd (value : Bytes) (index : Nat) : Option Nat :=
  if value[index]? = some (byte 'e') ∨ value[index]? = some (byte 'E') then
    let index := index + 1
    let exponentStart :=
      if value[index]? = some (byte '+') ∨ value[index]? = some (byte '-') then index + 1 else index
    let index := digitsEnd value exponentStart
    if index = exponentStart then none else some index
  else some index

/-- `jsonPrimitiveValueEnd`; `none` stands for `-1`. -/
def jsonPrimitiveValueEnd (value : Bytes) (start : Nat) : Option Nat :=
  match [lit "true", lit "false", lit "null"].find? (·.isPrefixOf (value.drop start)) with
  | some literal => some (jsonObjectValueEnd value (start + literal.length))
  | none => do
      let index := if value[start]? = some (byte '-') then start + 1 else start
      let index ← integerEnd value index
      let index ← fractionEnd value index
      let index ← exponentEnd value index
      some (jsonObjectValueEnd value index)

/-- `jsonSecretValueEnd` -/
def jsonSecretValueEnd (value : Bytes) (start : Nat) : Nat :=
  match value[start]? with
  | none => value.length
  | some opener =>
      if opener = byte '"' then
        match quotedEndFrom false (start + 1) (value.drop (start + 1)) with
        | some tokenEnd => jsonObjectValueEnd value tokenEnd
        | none => value.length
      else if opener = byte '{' ∨ opener = byte '[' then
        match compositeEndFrom [matchingJSONCloser opener] false false (start + 1)
            (value.drop (start + 1)) with
        | some tokenEnd => jsonObjectValueEnd value tokenEnd
        | none => value.length
      else
        match jsonPrimitiveValueEnd value start with
        | some valueEnd => valueEnd
        | none => plainSecretValueEnd value start

/-- The member written in place of a redacted one. -/
def credentialMember : Bytes := lit "\"credential\":\"<redacted>\""

/-- The loop of `redactJSONSecrets`. Every turn moves `index` forward, so the length of `value` bounds the
    turns. The flag `changed` only saves a copy: without a change, `output` is empty and `cursor` is 0. -/
def redactJSONFrom (value : Bytes) : Nat → Bytes → Nat → Nat → Bytes
  | 0, output, cursor, _ => output ++ value.drop cursor
  | turns + 1, output, cursor, index =>
      match value[index]? with
      | none => output ++ value.drop cursor
      | some current =>
          if current ≠ byte '"' then redactJSONFrom value turns output cursor (index + 1)
          else
            match jsonStringEnd value index with
            | none => output ++ value.drop cursor
            | some keyEnd =>
                let colon := skipJSONWhitespace value (keyEnd + 1)
                if value[colon]? ≠ some (byte ':') then
                  redactJSONFrom value turns output cursor (keyEnd + 1)
                else
                  match decodeJSONKey (slice value (index + 1) keyEnd) with
                  | none => redactJSONFrom value turns output cursor (keyEnd + 1)
                  | some key =>
                      if !isSecretKey key then
                        redactJSONFrom value turns output cursor (keyEnd + 1)
                      else
                        let valueStart := skipJSONWhitespace value (colon + 1)
                        let valueEnd := jsonSecretValueEnd value valueStart
                        redactJSONFrom value turns
                          (output ++ slice value cursor index ++ credentialMember) valueEnd valueEnd

/-- `redactJSONSecrets` -/
def redactJSONSecrets (value : Bytes) : Bytes :=
  redactJSONFrom value (value.length + 1) [] 0 0

end ExitfyCores.Bridge
