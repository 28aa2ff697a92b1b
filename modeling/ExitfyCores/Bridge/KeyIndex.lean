/-
Module: ExitfyCores.Bridge.KeyIndex
Layer: Bridge
Purpose: `decodeJSONKey` of `internal/bridge/bridge.go` with the index of the source, where every read outside of the
  string stops the run as it does in Go.
Imports: ExitfyCores.Bridge.JsonScanner
Trusted boundary: human-reviewed spec
Main exports: Stop, readAt, sliceAt, decodeUnicodeAt, decodeEscapeAt, decodeKeyAt
Open obligations: none
-/
import ExitfyCores.Bridge.JsonScanner

namespace ExitfyCores.Bridge

/-- What stops a run without a result: the panics of Go, and a loop that is not done within its turns. -/
inductive Stop where
  | indexOutOfRange
  | sliceOutOfRange
  | outOfTurns
deriving DecidableEq, Repr

/-- `raw[index]` -/
def readAt (raw : Bytes) (index : Nat) : Except Stop UInt8 :=
  match raw[index]? with
  | some b => .ok b
  | none => .error .indexOutOfRange

/-- `raw[start:stop]` -/
def sliceAt (raw : Bytes) (start stop : Nat) : Except Stop Bytes :=
  if start ≤ stop ∧ stop ≤ raw.length then .ok (slice raw start stop) else .error .sliceOutOfRange

/-- The low half of a surrogate pair, with `index` at the last digit of the high half. -/
def decodeLowAt (raw : Bytes) (index codepoint : Nat) : Except Stop (Option (Bytes × Nat)) :=
  if raw.length ≤ index + 6 then pure none
  else do
    let backslash ← readAt raw (index + 1)
    if backslash ≠ byte '\\' then pure none
    else
      let letter ← readAt raw (index + 2)
      if letter ≠ byte 'u' then pure none
      else
        let digits ← sliceAt raw (index + 3) (index + 7)
        match decodeHexQuad digits with
        | none => pure none
        | some low =>
            if low < 0xdc00 ∨ 0xdfff < low then pure none
            else
              pure (some (String.utf8EncodeChar (.ofNat (0x10000 + (codepoint - 0xd800) <<< 10 + (low - 0xdc00))),
                index + 6))

/-- The case `'u'` with `index` at the letter: the bytes written and the index after it. -/
def decodeUnicodeAt (raw : Bytes) (index : Nat) : Except Stop (Option (Bytes × Nat)) :=
  if raw.length ≤ index + 4 then pure none
  else do
    let digits ← sliceAt raw (index + 1) (index + 5)
    match decodeHexQuad digits with
    | none => pure none
    | some codepoint =>
        let index := index + 4
        if 0xd800 ≤ codepoint ∧ codepoint ≤ 0xdbff then decodeLowAt raw index codepoint
        else if 0xdc00 ≤ codepoint ∧ codepoint ≤ 0xdfff then pure none
        else pure (some (String.utf8EncodeChar (.ofNat codepoint), index))

/-- The switch with `index` at the byte behind the backslash: the bytes written and the index after it. -/
def decodeEscapeAt (raw : Bytes) (index : Nat) : Except Stop (Option (Bytes × Nat)) := do
  let escape ← readAt raw index
  if escape = byte '"' ∨ escape = byte '\\' ∨ escape = byte '/' then pure (some ([escape], index))
  else if escape = byte 'b' then pure (some ([0x08], index))
  else if escape = byte 'f' then pure (some ([0x0C], index))
  else if escape = byte 'n' then pure (some ([byte '\n'], index))
  else if escape = byte 'r' then pure (some ([byte '\r'], index))
  else if escape = byte 't' then pure (some ([byte '\t'], index))
  else if escape = byte 'u' then decodeUnicodeAt raw index
  else pure none

/-- The loop over `index`. -/
def decodeLoopAt (raw : Bytes) : Nat → Nat → Bytes → Except Stop (Option Bytes)
  | 0, _, _ => .error .outOfTurns
  | turns + 1, index, output =>
      if index < raw.length then do
        let current ← readAt raw index
        if current ≠ byte '\\' then decodeLoopAt raw turns (index + 1) (output ++ [current])
        else if raw.length ≤ index + 1 then pure none
        else
          match ← decodeEscapeAt raw (index + 1) with
          | none => pure none
          | some (written, index) => decodeLoopAt raw turns (index + 1) (output ++ written)
      else pure (some output)

/-- `decodeJSONKey`, index by index -/
def decodeKeyAt (raw : Bytes) : Except Stop (Option Bytes) :=
  if byte '\\' ∉ raw then pure (some raw) else decodeLoopAt raw (raw.length + 1) 0 []

end ExitfyCores.Bridge
