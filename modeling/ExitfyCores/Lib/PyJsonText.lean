/-
Module: ExitfyCores.Lib.PyJsonText
Layer: Lib
Purpose: `json.dumps` and `json.loads` of Python on texts. Both end; the first argument of a scanner bounds how many
  characters it looks at.
Imports: ExitfyCores.Lib.PyJson, Mathlib.Data.List.Lex, Mathlib.Data.List.Sort
Trusted boundary: human-reviewed spec; the position in an error and the recursion limit of the interpreter are left out
Main exports: Style, compact, indented, dumps, sortKeys, LoadsError, scanString, scanNumber, parseValue, loadsText
Open obligations: none
-/
import ExitfyCores.Lib.PyJson
import Mathlib.Data.List.Lex
import Mathlib.Data.List.Sort

namespace ExitfyCores.Py

/-- `[ \t\n\r]` -/
def isJsonSpace (c : Nat) : Bool := c == 32 || c == 9 || c == 10 || c == 13

/-! ### Writing -/

/-- The digits of `\uXXXX`. -/
def hexQuad (code : Nat) : Text :=
  [code / 4096, code / 256, code / 16, code].map fun digit => (Nat.digitChar (digit % 16)).toNat

/-- One character of a string under `ensure_ascii`. -/
def escape (c : Nat) : Text :=
  if c = 34 then text "\\\""
  else if c = 92 then text "\\\\"
  else if c = 10 then text "\\n"
  else if c = 13 then text "\\r"
  else if c = 9 then text "\\t"
  else if c = 12 then text "\\f"
  else if c = 8 then text "\\b"
  else if 32 ≤ c ∧ c ≤ 126 then [c]
  else if c < 0x10000 then text "\\u" ++ hexQuad c
  else text "\\u" ++ hexQuad (0xD800 + (c - 0x10000) / 1024) ++ text "\\u" ++ hexQuad (0xDC00 + (c - 0x10000) % 1024)

/-- A string with its quotes. -/
def quote (value : Text) : Text := 34 :: (value.flatMap escape ++ [34])

/-- `str` of an integer -/
def intText : Int → Text
  | .ofNat value => decimal value
  | .negSucc value => 45 :: decimal (value + 1)

/-- Where lines break in front of an item at a depth, and what stands behind a colon. -/
structure Style where
  newline : Nat → Text
  space : Text
  blank : ∀ depth, (newline depth).all isJsonSpace = true
  spaceBlank : space.all isJsonSpace = true

/-- `separators=(",", ":")` -/
def compact : Style where
  newline := fun _ => []
  space := []
  blank := fun _ => rfl
  spaceBlank := rfl

/-- `indent=2` -/
def indented : Style where
  newline := fun depth => 10 :: List.replicate (2 * depth) 32
  space := [32]
  blank := by
    intro depth
    simp [isJsonSpace]
  spaceBlank := rfl

mutual

/-- `json.dumps` of a value at a depth -/
def dumps (style : Style) (depth : Nat) : Value → Text
  | .none => text "null"
  | .bool true => text "true"
  | .bool false => text "false"
  | .int value => intText value
  | .float literal => literal
  | .str value => quote value
  | .list [] => text "[]"
  | .list (item :: items) =>
      91 :: (style.newline (depth + 1) ++ (dumps style (depth + 1) item ++
        (dumpsItems style (depth + 1) items ++ (style.newline depth ++ [93]))))
  | .dict [] => text "\x7b\x7d"
  | .dict ((key, value) :: entries) =>
      123 :: (style.newline (depth + 1) ++ (quote key ++ (58 :: (style.space ++ (dumps style (depth + 1) value ++
        (dumpsEntries style (depth + 1) entries ++ (style.newline depth ++ [125])))))))

/-- Further items, each behind its comma. -/
def dumpsItems (style : Style) (depth : Nat) : List Value → Text
  | [] => []
  | item :: items => 44 :: (style.newline depth ++ (dumps style depth item ++ dumpsItems style depth items))

/-- Further entries, each behind its comma. -/
def dumpsEntries (style : Style) (depth : Nat) : List (Text × Value) → Text
  | [] => []
  | (key, value) :: entries =>
      44 :: (style.newline depth ++ (quote key ++ (58 :: (style.space ++ (dumps style depth value ++
        dumpsEntries style depth entries)))))

end

mutual

/-- `sort_keys=True` -/
def sortKeys : Value → Value
  | .list items => .list (sortItems items)
  | .dict entries => .dict ((sortEntries entries).insertionSort fun first second => first.1 ≤ second.1)
  | value => value

def sortItems : List Value → List Value
  | [] => []
  | item :: items => sortKeys item :: sortItems items

def sortEntries : List (Text × Value) → List (Text × Value)
  | [] => []
  | (key, value) :: entries => (key, sortKeys value) :: sortEntries entries

end

/-! ### Reading -/

/-- `JSONDecodeError`, `UnicodeDecodeError`, and the `ValueError` of an integer with too many digits. -/
inductive LoadsError where
  | decode
  | unicode
  | digits (message : Text)

def skipSpace (value : Text) : Text := value.dropWhile isJsonSpace

/-- `[0-9A-Fa-f]` -/
def hexValue (c : Nat) : Option Nat :=
  if 48 ≤ c ∧ c ≤ 57 then some (c - 48)
  else if 97 ≤ c ∧ c ≤ 102 then some (c - 87)
  else if 65 ≤ c ∧ c ≤ 70 then some (c - 55)
  else none

/-- The code of `XXXX` behind `\u`, and what follows it. -/
def scanHexQuad : Text → Except LoadsError (Nat × Text)
  | a :: b :: c :: d :: rest =>
      match hexValue a, hexValue b, hexValue c, hexValue d with
      | some a, some b, some c, some d => .ok (4096 * a + 256 * b + 16 * c + d, rest)
      | _, _, _, _ => .error .decode
  | _ => .error .decode

/-- The character behind a backslash, and what follows it; a surrogate pair is one character. -/
def scanEscape : Text → Except LoadsError (Nat × Text)
  | 34 :: rest => .ok (34, rest)
  | 92 :: rest => .ok (92, rest)
  | 47 :: rest => .ok (47, rest)
  | 98 :: rest => .ok (8, rest)
  | 102 :: rest => .ok (12, rest)
  | 110 :: rest => .ok (10, rest)
  | 114 :: rest => .ok (13, rest)
  | 116 :: rest => .ok (9, rest)
  | 117 :: rest => do
      let (high, rest) ← scanHexQuad rest
      match rest with
      | 92 :: 117 :: more =>
          if 0xD800 ≤ high ∧ high ≤ 0xDBFF then do
            let (low, more) ← scanHexQuad more
            if 0xDC00 ≤ low ∧ low ≤ 0xDFFF then return (0x10000 + 1024 * (high - 0xD800) + (low - 0xDC00), more)
            else return (high, rest)
          else return (high, rest)
      | _ => return (high, rest)
  | _ => .error .decode

/-- `py_scanstring` behind the opening quote. -/
def scanString : Nat → Text → Except LoadsError (Text × Text)
  | 0, _ => .error .decode
  | _ + 1, [] => .error .decode
  | fuel + 1, c :: rest =>
      if c = 34 then .ok ([], rest)
      else if c = 92 then do
        let (char, rest) ← scanEscape rest
        let (value, rest) ← scanString fuel rest
        return (char :: value, rest)
      else if c < 32 then .error .decode
      else do
        let (value, rest) ← scanString fuel rest
        return (c :: value, rest)

/-- `(\.[0-9]+)?` -/
def scanFraction : Text → Text × Text
  | 46 :: rest => if rest.takeWhile isDigit = [] then ([], 46 :: rest)
      else (46 :: rest.takeWhile isDigit, rest.dropWhile isDigit)
  | rest => ([], rest)

/-- `([eE][-+]?[0-9]+)?` -/
def scanExponent (value : Text) : Text × Text :=
  match value with
  | c :: rest =>
      if c = 101 ∨ c = 69 then
        let sign := rest.takeWhile (fun s => s == 43 || s == 45) |>.take 1
        let rest := rest.drop sign.length
        if rest.takeWhile isDigit = [] then ([], value)
        else (c :: sign ++ rest.takeWhile isDigit, rest.dropWhile isDigit)
      else ([], value)
  | [] => ([], [])

/-- `0|[1-9][0-9]*` -/
def scanDigits : Text → Option (Text × Text)
  | 48 :: rest => some ([48], rest)
  | c :: rest => if 49 ≤ c ∧ c ≤ 57 then some (c :: rest.takeWhile isDigit, rest.dropWhile isDigit) else none
  | [] => none

/-- A number whose digits and rest have been told apart. -/
def finishNumber (negative : Bool) (digits rest : Text) : Except LoadsError (Value × Text) :=
  let (fraction, rest) := scanFraction rest
  let (exponent, rest) := scanExponent rest
  if fraction = [] ∧ exponent = [] then
    match parseInt digits with
    | .ok value => .ok (.int (if negative then -(value : Int) else value), rest)
    | .error message => .error (.digits message)
  else .ok (.float ((if negative then [45] else []) ++ digits ++ fraction ++ exponent), rest)

/-- `(-?(?:0|[1-9][0-9]*))(\.[0-9]+)?([eE][-+]?[0-9]+)?` -/
def scanNumber (value : Text) : Option (Except LoadsError (Value × Text)) :=
  match value with
  | 45 :: rest => (scanDigits rest).map fun digits => finishNumber true digits.1 digits.2
  | _ => (scanDigits value).map fun digits => finishNumber false digits.1 digits.2

/-- The words that stand for a value. -/
def constants : List (Text × Value) :=
  [(text "null", .none), (text "true", .bool true), (text "false", .bool false),
    (text "NaN", .float (text "NaN")), (text "Infinity", .float (text "Infinity")),
    (text "-Infinity", .float (text "-Infinity"))]

/-- A value that is no string, array or object. -/
def scanScalar (value : Text) : Except LoadsError (Value × Text) :=
  match scanNumber value with
  | some outcome => outcome
  | none =>
      match constants.find? fun constant => constant.1.isPrefixOf value with
      | some constant => .ok (constant.2, value.drop constant.1.length)
      | none => .error .decode

/-- `dict(pairs)`: a later value for a key takes the place of an earlier one. -/
def insertEntry (entries : List (Text × Value)) (entry : Text × Value) : List (Text × Value) :=
  if entries.any fun old => old.1 = entry.1 then
    entries.map fun old => if old.1 = entry.1 then entry else old
  else entries ++ [entry]

mutual

/-- `scan_once` -/
def parseValue : Nat → Text → Except LoadsError (Value × Text)
  | 0, _ => .error .decode
  | fuel + 1, 34 :: rest => do
      let (value, rest) ← scanString fuel rest
      return (.str value, rest)
  | fuel + 1, 91 :: rest =>
      match skipSpace rest with
      | 93 :: rest => .ok (.list [], rest)
      | rest => do
          let (items, rest) ← parseItems fuel rest
          return (.list items, rest)
  | fuel + 1, 123 :: rest =>
      match skipSpace rest with
      | 125 :: rest => .ok (.dict [], rest)
      | rest => do
          let (entries, rest) ← parseEntries fuel rest
          return (.dict (entries.foldl insertEntry []), rest)
  | _ + 1, rest => scanScalar rest

/-- The items of an array, up to its bracket. -/
def parseItems : Nat → Text → Except LoadsError (List Value × Text)
  | 0, _ => .error .decode
  | fuel + 1, rest => do
      let (item, rest) ← parseValue fuel rest
      match skipSpace rest with
      | 44 :: rest => do
          let (items, rest) ← parseItems fuel (skipSpace rest)
          return (item :: items, rest)
      | 93 :: rest => return ([item], rest)
      | _ => .error .decode

/-- The entries of an object, up to its brace. -/
def parseEntries : Nat → Text → Except LoadsError (List (Text × Value) × Text)
  | 0, _ => .error .decode
  | fuel + 1, 34 :: rest => do
      let (key, rest) ← scanString fuel rest
      match skipSpace rest with
      | 58 :: rest => do
          let (value, rest) ← parseValue fuel (skipSpace rest)
          match skipSpace rest with
          | 44 :: rest => do
              let (entries, rest) ← parseEntries fuel (skipSpace rest)
              return ((key, value) :: entries, rest)
          | 125 :: rest => return ([(key, value)], rest)
          | _ => .error .decode
      | _ => .error .decode
  | _ + 1, _ => .error .decode

end

/-- `json.loads` of a text -/
def loadsText (value : Text) : Except LoadsError Value := do
  let (parsed, rest) ← parseValue (value.length + 1) (skipSpace value)
  if skipSpace rest = [] then return parsed else .error .decode

end ExitfyCores.Py
