/-
Module: ExitfyCores.Bridge.SafeError
Layer: Bridge
Purpose: `SafeError`, the sanitizer of every error text that crosses the native boundary. The Xray and the
  sing-box bridge share it but for the text that replaces an empty result.
Imports: ExitfyCores.Bridge.JsonScanner
Trusted boundary: human-reviewed spec
Main exports: boundedSanitizeInput, redactPlainSecrets, redactURIs, sanitize, Xray.safeError,
  SingBox.safeError
Open obligations: none
-/
import ExitfyCores.Bridge.JsonScanner

namespace ExitfyCores.Bridge

/-- `maxSanitizeInputBytes` -/
def maxSanitizeInputBytes : Nat := 64 <<< 10

/-- `maxErrorRunes` -/
def maxErrorRunes : Nat := 1024

/-- `maxErrorBytes` -/
def maxErrorBytes : Nat := 4096

/-- `regexp.ReplaceAllString`, for a replacement without `$`. -/
def replaceAllString (pattern : Regex Symbol) (value replacement : Bytes) : Bytes :=
  raw (pattern.replaceAll (symbols replacement) (symbols value))

/-- `regexp.FindAllStringIndex(value, -1)`: byte offsets of all matches. -/
def findAllStringIndex (pattern : Regex Symbol) (value : Bytes) : List (Nat × Nat) :=
  let byteOffset := fun index => (raw ((symbols value).take index)).length
  (pattern.findAll (symbols value)).map fun found => (byteOffset found.1, byteOffset found.2)

/-- The loop of `boundedSanitizeInput`. -/
def sequenceStart (value : Bytes) : Nat → Nat
  | 0 => 0
  | index + 1 =>
      if (value[index + 1]?).any isContinuation then sequenceStart value index else index + 1

/-- `boundedSanitizeInput` -/
def boundedSanitizeInput (value : Bytes) : Bytes :=
  if value.length ≤ maxSanitizeInputBytes then value
  else value.take (sequenceStart value maxSanitizeInputBytes)

/-- `proxy://<redacted>` -/
def proxyMarker : Bytes := lit "proxy://<redacted>"

/-- `https://<redacted>` -/
def httpMarker : Bytes := lit "https://<redacted>"

/-- `credential=<redacted>` -/
def credentialField : Bytes := lit "credential=<redacted>"

/-- The loop of `redactPlainSecrets` over the matches, on the output and the cursor. -/
def redactMatches (value : Bytes) : List (Nat × Nat) → Bytes → Nat → Bytes
  | [], output, cursor => output ++ value.drop cursor
  | found :: rest, output, cursor =>
      if found.1 < cursor then redactMatches value rest output cursor
      else
        redactMatches value rest (output ++ slice value cursor found.1 ++ credentialField)
          (plainSecretValueEnd value found.2)

/-- `redactPlainSecrets` -/
def redactPlainSecrets (value : Bytes) : Bytes :=
  redactMatches value (findAllStringIndex secretFieldKey value) [] 0

/-- The mapping of `strings.Map` in `SafeError`. -/
def dropControl (r : Char) : Option Char :=
  if isControl r && r != '\n' && r != '\t' then none else some r

/-- The loop that drops trailing runes while the text has more than `maxErrorBytes` bytes. -/
def dropToErrorBytes : Nat → List Char → List Char
  | 0, text => text
  | turns + 1, text =>
      if 0 < text.length ∧ maxErrorBytes < (encodeRunes text).length then
        dropToErrorBytes turns text.dropLast
      else text

/-- The two URI replacements at the head of `SafeError`. -/
def redactURIs (value : Bytes) : Bytes :=
  replaceAllString httpURL (replaceAllString proxyURI value proxyMarker) httpMarker

/-- Everything `SafeError` does behind the four redactions. -/
def boundedText (unknown value : Bytes) : Bytes :=
  let text := (runes (trimSpace (mapRunes dropControl value))).take maxErrorRunes
  let text := dropToErrorBytes text.length text
  if text = [] then unknown else encodeRunes text

/-- `SafeError`, with the text that stands for an empty result. -/
def sanitize (unknown value : Bytes) : Bytes :=
  boundedText unknown
    (redactPlainSecrets (redactJSONSecrets (redactURIs (boundedSanitizeInput value))))

/-- `SafeError` of `internal/bridge/bridge.go`. -/
def Xray.safeError (value : Bytes) : Bytes := sanitize (lit "unknown Xray error") value

/-- `SafeError` of `singbox/internal/bridge/bridge.go`. -/
def SingBox.safeError (value : Bytes) : Bytes := sanitize (lit "unknown SB core error") value

example : Xray.safeError (lit "to\x00 id=\"a b\" c") = lit "to credential=<redacted>" := by
  decide +kernel

end ExitfyCores.Bridge
