/-
Module: ExitfyCores.Lib.PyJson
Layer: Lib
Purpose: Python strings, the decimal numbers they spell, and the values that `json.loads` gives.
Imports: Mathlib.Data.List.Basic, Mathlib.Algebra.Ring.Nat
Trusted boundary: human-reviewed spec
Main exports: Text, text, isSpace, isNumeral, isHexText, numeralValue, parseInt, decimal,
  numeralValue_decimal, isNumeral_decimal, Value, Object, Object.get, Object.set, Value.get
Open obligations: none
-/
import Mathlib.Data.List.Basic
import Mathlib.Algebra.Ring.Nat

namespace ExitfyCores.Py

/-- A Python `str`: its code points, surrogates among them. -/
abbrev Text := List Nat

instance lawfulText : LawfulBEq (List Nat) := inferInstance

/-- A string constant. -/
def text (constant : String) : Text := constant.toList.map Char.toNat

theorem text_inj {constant other : String} : text constant = text other ↔ constant = other := by
  constructor
  · intro same
    exact String.toList_inj.mp (List.map_injective_iff.mpr (fun _ _ equal => Char.toNat_inj.mp equal) same)
  · exact congrArg text

/-- `str.isspace` on one character -/
def isSpace (c : Nat) : Bool :=
  (9 ≤ c && c ≤ 13) || (28 ≤ c && c ≤ 32) || c == 0x85 || c == 0xA0 || c == 0x1680 ||
    (0x2000 ≤ c && c ≤ 0x200A) || c == 0x2028 || c == 0x2029 || c == 0x202F || c == 0x205F || c == 0x3000

/-- `value[len(start):]` where `value.startswith(start)` -/
def stripStart (start value : Text) : Option Text := start.isPrefixOf? value

/-- `value.strip()` -/
def strip (value : Text) : Text := (((value.dropWhile isSpace).reverse).dropWhile isSpace).reverse

theorem stripStart_eq_some {start value rest : Text} :
    stripStart start value = some rest ↔ value = start ++ rest := by
  rw [stripStart, List.isPrefixOf?_eq_some_iff_append_eq]
  exact eq_comm

/-! ### Numerals -/

/-- `[0-9]` -/
def isDigit (c : Nat) : Bool := 48 ≤ c && c ≤ 57

/-- `[0-9a-f]` -/
def isHexDigit (c : Nat) : Bool := isDigit c || (97 ≤ c && c ≤ 102)

/-- `[0-9a-f]{count}` -/
def isHexText (count : Nat) (value : Text) : Bool := value.length == count && value.all isHexDigit

/-- `[1-9][0-9]*` -/
def isNumeral (value : Text) : Bool :=
  match value with
  | [] => false
  | c :: rest => (49 ≤ c && c ≤ 57) && rest.all isDigit

/-- The number that decimal digits spell. -/
def numeralValue (digits : Text) : Nat := digits.foldl (fun value c => 10 * value + (c - 48)) 0

/-- `sys.int_info.default_max_str_digits` -/
def maxStrDigits : Nat := 4300

/-- `int(digits)` -/
def parseInt (digits : Text) : Except Text Nat :=
  if maxStrDigits < digits.length then
    .error (text (s!"Exceeds the limit ({maxStrDigits} digits) for integer string conversion: value has " ++
      s!"{digits.length} digits; use sys.set_int_max_str_digits() to increase the limit"))
  else .ok (numeralValue digits)

theorem parseInt_eq_ok {digits : Text} {value : Nat} (parsed : parseInt digits = .ok value) :
    value = numeralValue digits := by
  unfold parseInt at parsed
  split at parsed
  · cases parsed
  · exact (Except.ok.inj parsed).symm

/-- `str(value)` of a number that is not negative -/
def decimal (value : Nat) : Text := (Nat.toDigits 10 value).map Char.toNat

theorem decimal_eq (value : Nat) :
    decimal value = if value < 10 then [48 + value] else decimal (value / 10) ++ [48 + value % 10] := by
  have digit : ∀ d, d < 10 → d.digitChar.toNat = 48 + d := fun d small => Nat.toNat_digitChar_of_lt_ten small
  unfold decimal
  split
  · rename_i small
    simp [Nat.toDigits_of_lt_base small, digit value small]
  · rename_i large
    simp [Nat.toDigits_of_base_le (by decide) (Nat.le_of_not_lt large), digit _ (Nat.mod_lt value (by decide))]

@[simp] theorem decimal_ne_nil (value : Nat) : decimal value ≠ [] := by
  simp [decimal, Nat.toDigits_ne_nil]

/-- Reading back what `str` writes. -/
@[simp] theorem numeralValue_decimal (value : Nat) : numeralValue (decimal value) = value := by
  induction value using Nat.strongRecOn with
  | ind value ih =>
      rw [decimal_eq]
      split
      · simp [numeralValue]
      · rename_i large
        have shorter := ih (value / 10) (by omega)
        unfold numeralValue at shorter ⊢
        simp only [List.foldl_append, shorter, List.foldl_cons, List.foldl_nil]
        omega

theorem all_isDigit_decimal (value : Nat) : (decimal value).all isDigit = true := by
  induction value using Nat.strongRecOn with
  | ind value ih =>
      rw [decimal_eq]
      split
      · rename_i small
        simp [isDigit]
        omega
      · rename_i large
        simp [ih (value / 10) (by omega), isDigit]
        omega

/-- No number but zero is written with a leading zero. -/
theorem isNumeral_decimal {value : Nat} (positive : 0 < value) : isNumeral (decimal value) = true := by
  induction value using Nat.strongRecOn with
  | ind value ih =>
      rw [decimal_eq]
      split
      · simp [isNumeral]
        omega
      · rename_i large
        have shorter := ih (value / 10) (by omega) (by omega)
        cases digits : decimal (value / 10) with
        | nil => exact absurd digits (decimal_ne_nil _)
        | cons c rest =>
            rw [digits] at shorter
            simp only [isNumeral, Bool.and_eq_true] at shorter
            simp [isNumeral, shorter, isDigit]
            omega

/-! ### Values -/

/-- What `json.loads` gives. A float is kept by its literal. -/
inductive Value where
  | none
  | bool (value : Bool)
  | int (value : Int)
  | float (literal : Text)
  | str (value : Text)
  | list (items : List Value)
  | dict (entries : List (Text × Value))

/-- A `dict` of `json.loads`, by its entries. -/
abbrev Object := List (Text × Value)

/-- `value.get(key)` -/
def Object.get (object : Object) (key : String) : Value :=
  ((object.find? fun entry => entry.1 = text key).map Prod.snd).getD .none

/-- `object | {key: value}` -/
def Object.set (object : Object) (key : String) (value : Value) : Object :=
  object.filter (fun entry => entry.1 ≠ text key) ++ [(text key, value)]

@[simp] theorem Object.get_set_same (object : Object) (key : String) (value : Value) :
    (object.set key value).get key = value := by
  have absent : (object.filter fun entry => entry.1 ≠ text key).find? (fun entry => entry.1 = text key) = none := by
    rw [List.find?_eq_none]
    intro entry member
    simpa using (List.mem_filter.mp member).2
  unfold Object.get Object.set
  rw [List.find?_append, absent]
  simp

theorem Object.get_set_other (object : Object) {key other : String} (value : Value) (apart : other ≠ key) :
    (object.set key value).get other = object.get other := by
  have differ : text other ≠ text key := fun same => apart (text_inj.mp same)
  have kept : (object.filter fun entry => entry.1 ≠ text key).find? (fun entry => entry.1 = text other) =
      object.find? fun entry => entry.1 = text other := by
    induction object with
    | nil => rfl
    | cons entry rest ih =>
        by_cases found : entry.1 = text other
        · simp [found, differ]
        · by_cases removed : entry.1 = text key
          · simpa [List.filter_cons, removed, Ne.symm differ] using ih
          · simpa [List.filter_cons, removed, found] using ih
  unfold Object.get Object.set
  rw [List.find?_append, kept]
  simp [Ne.symm differ]

/-- `value.get(key) if isinstance(value, dict) else None` -/
def Value.get (value : Value) (key : String) : Value :=
  match value with
  | .dict entries => Object.get entries key
  | _ => .none

/-- `value == constant` for a string constant -/
def Value.isText (constant : Text) : Value → Bool
  | .str value => value = constant
  | _ => false

/-- `type(value) is int and value == constant` -/
def Value.isInt (constant : Int) : Value → Bool
  | .int value => value = constant
  | _ => false

/-- The number of a value with `type(value) is int and value > 0` -/
def Value.positiveInt : Value → Option Nat
  | .int value => if 0 < value then some value.toNat else Option.none
  | _ => Option.none

end ExitfyCores.Py
