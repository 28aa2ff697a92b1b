/-
Module: ExitfyCores.Lib.JsonTokens
Layer: Lib
Purpose: The tokens that end a JSON value for a scanner without a parse tree: strings up to their closing quote, composites up to
  the bracket that balances the first one, literals and numbers.
Imports: ExitfyCores.Lib.GoString
Trusted boundary: human-reviewed spec
Main exports: IsBlank, IsDigit, Body, Quoted, Balanced, Composite, Closes, IsNumber, Primitive, Token, Follows
Open obligations: none
-/
import ExitfyCores.Lib.GoString

namespace ExitfyCores.Json

def IsBlank (b : UInt8) : Prop := b = byte ' ' ∨ b = byte '\t' ∨ b = byte '\r' ∨ b = byte '\n'

instance (b : UInt8) : Decidable (IsBlank b) := inferInstanceAs (Decidable (_ ∨ _))

def IsDigit (b : UInt8) : Prop := byte '0' ≤ b ∧ b ≤ byte '9'

instance (b : UInt8) : Decidable (IsDigit b) := inferInstanceAs (Decidable (_ ∧ _))

/-! ### Strings -/

/-- The inside of a string: every quote in it stands behind a backslash. -/
inductive Body : Bytes → Prop where
  | nil : Body []
  | plain {b : UInt8} {rest : Bytes} (notQuote : b ≠ byte '"') (notBackslash : b ≠ byte '\\') (others : Body rest) :
      Body (b :: rest)
  | escape (b : UInt8) {rest : Bytes} (others : Body rest) : Body (byte '\\' :: b :: rest)

theorem Body.append {left right : Bytes} (first : Body left) (second : Body right) : Body (left ++ right) := by
  induction first with
  | nil => exact second
  | plain notQuote notBackslash _ ih => exact .plain notQuote notBackslash ih
  | escape b _ ih => exact .escape b ih

/-- One complete string. -/
def Quoted (token : Bytes) : Prop := ∃ body, token = byte '"' :: body ++ [byte '"'] ∧ Body body

/-! ### Composites -/

def IsOpener (b : UInt8) : Prop := b = byte '{' ∨ b = byte '['

instance (b : UInt8) : Decidable (IsOpener b) := inferInstanceAs (Decidable (_ ∨ _))

def IsCloser (b : UInt8) : Prop := b = byte '}' ∨ b = byte ']'

instance (b : UInt8) : Decidable (IsCloser b) := inferInstanceAs (Decidable (_ ∨ _))

/-- The bracket that closes an opening one. -/
def closer (opener : UInt8) : UInt8 := if opener = byte '{' then byte '}' else byte ']'

/-- Brackets are balanced, those inside of strings aside. -/
inductive Balanced : Bytes → Prop where
  | nil : Balanced []
  | plain {b : UInt8} {rest : Bytes} (notQuote : b ≠ byte '"') (notOpener : ¬ IsOpener b) (notCloser : ¬ IsCloser b)
      (others : Balanced rest) : Balanced (b :: rest)
  | string {body rest : Bytes} (inside : Body body) (others : Balanced rest) :
      Balanced (byte '"' :: body ++ byte '"' :: rest)
  | nested {opener : UInt8} {inner rest : Bytes} (isOpener : IsOpener opener) (inside : Balanced inner)
      (others : Balanced rest) : Balanced (opener :: inner ++ closer opener :: rest)

theorem Balanced.append {left right : Bytes} (first : Balanced left) (second : Balanced right) :
    Balanced (left ++ right) := by
  induction first with
  | nil => exact second
  | plain notQuote notOpener notCloser _ ih => exact .plain notQuote notOpener notCloser ih
  | string inside _ ih =>
      rw [List.append_assoc, List.cons_append]
      exact .string inside ih
  | nested isOpener inside _ _ ih =>
      rw [List.append_assoc, List.cons_append]
      exact .nested isOpener inside ih

/-- One complete object or array, by its brackets. -/
def Composite (token : Bytes) : Prop :=
  ∃ opener inner, IsOpener opener ∧ token = opener :: inner ++ [closer opener] ∧ Balanced inner

/-- Balanced pieces that close open brackets one after the other, the innermost first. -/
inductive Closes : Bytes → Bytes → Prop where
  | last {top : UInt8} {inner : Bytes} (inside : Balanced inner) : Closes [top] (inner ++ [top])
  | more {top : UInt8} {stack inner rest : Bytes} (inside : Balanced inner) (others : Closes stack rest) :
      Closes (top :: stack) (inner ++ top :: rest)

theorem Closes.before {stack content piece : Bytes} (first : Balanced piece) (closes : Closes stack content) :
    Closes stack (piece ++ content) := by
  cases closes with
  | last inside =>
      rw [← List.append_assoc]
      exact .last (first.append inside)
  | more inside others =>
      rw [← List.append_assoc]
      exact .more (first.append inside) others

theorem Closes.opened {stack content : Bytes} {opener : UInt8} (isOpener : IsOpener opener) (filled : stack ≠ [])
    (closes : Closes (closer opener :: stack) content) : Closes stack (opener :: content) := by
  cases closes with
  | last _ => exact absurd rfl filled
  | @more _ _ inner rest inside others =>
      have nested := Closes.before (.nested isOpener inside .nil) others
      rw [List.cons_append, List.cons_append, List.append_assoc, List.singleton_append] at nested
      exact nested

theorem Closes.single {top : UInt8} {content : Bytes} (closes : Closes [top] content) :
    ∃ inner, content = inner ++ [top] ∧ Balanced inner := by
  cases closes with
  | last inside => exact ⟨_, rfl, inside⟩
  | more _ others => cases others

/-! ### Literals and numbers -/

def Digits (text : Bytes) : Prop := text ≠ [] ∧ ∀ b ∈ text, IsDigit b

def IsInteger (text : Bytes) : Prop :=
  text = [byte '0'] ∨ ∃ first rest, text = first :: rest ∧ IsDigit first ∧ first ≠ byte '0' ∧ ∀ b ∈ rest, IsDigit b

def IsFraction (text : Bytes) : Prop := text = [] ∨ ∃ digits, text = byte '.' :: digits ∧ Digits digits

def IsExponent (text : Bytes) : Prop :=
  text = [] ∨ ∃ marker sign digits, text = marker :: (sign ++ digits) ∧ (marker = byte 'e' ∨ marker = byte 'E') ∧
    (sign = [] ∨ sign = [byte '+'] ∨ sign = [byte '-']) ∧ Digits digits

def IsNumber (token : Bytes) : Prop :=
  ∃ sign integer fraction exponent, token = sign ++ (integer ++ (fraction ++ exponent)) ∧
    (sign = [] ∨ sign = [byte '-']) ∧ IsInteger integer ∧ IsFraction fraction ∧ IsExponent exponent

def Primitive (token : Bytes) : Prop :=
  token = lit "true" ∨ token = lit "false" ∨ token = lit "null" ∨ IsNumber token

/-- One complete value, as far as a scanner can tell. -/
def Token (token : Bytes) : Prop := Quoted token ∨ Composite token ∨ Primitive token

/-- What may stand behind the value of an object member: blanks, and then a comma, a closing brace or nothing. -/
def Follows (rest : Bytes) : Prop :=
  ∃ blanks tail, rest = blanks ++ tail ∧ (∀ b ∈ blanks, IsBlank b) ∧
    (tail = [] ∨ ∃ b after, tail = b :: after ∧ (b = byte ',' ∨ b = byte '}'))

end ExitfyCores.Json
