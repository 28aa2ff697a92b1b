/-
Module: ExitfyCores.Lib.PyFloat
Layer: Lib
Purpose: Python floats as `json` reads and writes them: the double that is nearest to a literal, and the shortest literal
  of a double.
Imports: ExitfyCores.Lib.PyJsonRoundTrip
Trusted boundary: human-reviewed spec
Main exports: PyFloat, nearestDouble, parseFloat, floatText, Wordy, floatText_wordy
Open obligations: none
-/
import ExitfyCores.Lib.PyJsonRoundTrip

namespace ExitfyCores.Py

/-- A `float`. -/
inductive PyFloat where
  | nan
  | infinity (negative : Bool)
  | finite (negative : Bool) (magnitude : Rat)
deriving DecidableEq

/-! ### Reading -/

/-- `base ** power` -/
def scale (base : Nat) (power : Int) : Rat :=
  if 0 ≤ power then ((base ^ power.toNat : Nat) : Rat) else 1 / ((base ^ (-power).toNat : Nat) : Rat)

/-- The power of two below a positive number. -/
def binaryExponent (magnitude : Rat) : Int :=
  let estimate := (Nat.log2 magnitude.num.toNat : Int) - Nat.log2 magnitude.den
  if magnitude < scale 2 estimate then estimate - 1 else estimate

/-- The nearest integer, and of two the even one. -/
def roundHalfEven (value : Rat) : Int :=
  let low := value.floor
  if value - low < 1 / 2 then low
  else if 1 / 2 < value - low then low + 1
  else if low % 2 = 0 then low
  else low + 1

/-- The nearest double of a number that is not negative, unless it overflows. -/
def nearestDouble (magnitude : Rat) : Option Rat :=
  if magnitude = 0 then some 0
  else
    let unit := scale 2 (max (binaryExponent magnitude) (-1022) - 52)
    let rounded := roundHalfEven (magnitude / unit) * unit
    if rounded < scale 2 1024 then some rounded else none

/-- The number behind `e` or `E`. -/
def exponentValue (exponent : Text) : Int :=
  match exponent.drop 1 with
  | 45 :: digits => -(numeralValue digits : Int)
  | 43 :: digits => numeralValue digits
  | digits => numeralValue digits

/-- `float(literal)` of a literal of JSON, or of one of the words that Python takes for a float -/
def parseFloat (literal : Text) : PyFloat :=
  if literal = text "NaN" then .nan
  else if literal = text "Infinity" then .infinity false
  else if literal = text "-Infinity" then .infinity true
  else
    let negative := literal.head? = some 45
    let unsigned := if negative then literal.drop 1 else literal
    let fraction := scanFraction (unsigned.dropWhile isDigit)
    let exponent := scanExponent fraction.2
    let digits := unsigned.takeWhile isDigit ++ fraction.1.drop 1
    let power := exponentValue exponent.1 - ((fraction.1.length - 1 : Nat) : Int)
    match nearestDouble (numeralValue digits * scale 10 power) with
    | some magnitude => .finite negative magnitude
    | none => .infinity negative

/-! ### Writing -/

/-- The power of ten below a positive number. -/
def decimalExponent (magnitude : Rat) : Int :=
  let estimate := ((decimal magnitude.num.toNat).length : Int) - (decimal magnitude.den).length
  if magnitude < scale 10 estimate then estimate - 1 else estimate

/-- The nearest decimal number with a count of digits: an integer and a power of ten. -/
def nearestDecimal (magnitude : Rat) (count : Nat) : Nat × Int :=
  let power := decimalExponent magnitude - ((count - 1 : Nat) : Int)
  ((roundHalfEven (magnitude / scale 10 power)).toNat, power)

/-- The decimal number with the fewest digits whose nearest double is the number. -/
def shortestDecimal (magnitude : Rat) : Nat × Int :=
  (((List.range 17).map fun count => nearestDecimal magnitude (count + 1)).find? fun candidate =>
    nearestDouble (candidate.1 * scale 10 candidate.2) = some magnitude).getD (nearestDecimal magnitude 17)

/-- The exponent with its sign and at least two digits. -/
def exponentText (exponent : Int) : Text :=
  let digits := decimal exponent.natAbs
  (if exponent < 0 then 45 else 43) :: (if digits.length < 2 then 48 :: digits else digits)

/-- The digits of a number whose decimal point stands behind the first `point` of them. -/
def placePoint (digits : Text) (point : Int) : Text :=
  if -4 < point ∧ point ≤ 16 then
    if point ≤ 0 then 48 :: 46 :: (List.replicate (-point).toNat 48 ++ digits)
    else digits.take point.toNat ++ List.replicate (point.toNat - digits.length) 48 ++
      46 :: (if digits.length ≤ point.toNat then [48] else digits.drop point.toNat)
  else
    digits.take 1 ++ (if digits.length ≤ 1 then [] else 46 :: digits.drop 1) ++ 101 :: exponentText (point - 1)

/-- `repr` of a number that is not negative -/
def magnitudeText (magnitude : Rat) : Text :=
  if magnitude = 0 then text "0.0"
  else
    let shortest := shortestDecimal magnitude
    let digits := decimal shortest.1
    placePoint ((digits.reverse.dropWhile (· = 48)).reverse) (digits.length + shortest.2)

/-- `floatstr` of `json` -/
def floatText : PyFloat → Text
  | .nan => text "NaN"
  | .infinity false => text "Infinity"
  | .infinity true => text "-Infinity"
  | .finite negative magnitude => (if negative then [45] else []) ++ magnitudeText magnitude

/-! ### Characters of a float

Behind digits and a sign stands a point, an exponent or a letter, so that no float is written like an integer. -/

/-- A digit or a minus sign. -/
def isSigned (c : Nat) : Bool := isDigit c || c == 45

theorem all_isSigned {digits : Text} (allDigits : digits.all isDigit = true) : digits.all isSigned = true := by
  rw [List.all_eq_true] at allDigits ⊢
  intro c member
  rw [isSigned, allDigits c member, Bool.true_or]

theorem ascii_digits {digits : Text} (allDigits : digits.all isDigit = true) : Ascii digits := by
  intro c member
  have digit := List.all_eq_true.mp allDigits c member
  simp only [isDigit, Bool.and_eq_true, decide_eq_true_eq] at digit
  omega

theorem ascii_exponentText (exponent : Int) : Ascii (exponentText exponent) := by
  have digits := ascii_decimal exponent.natAbs
  unfold exponentText
  refine ascii_cons (by split <;> decide) ?_
  split
  · exact ascii_cons (by decide) digits
  · exact digits

/-- A text that is ASCII and in which a point, an exponent or a letter stands behind digits and signs. -/
structure Wordy (value : Text) : Prop where
  split : ∃ head c tail, value = head ++ c :: tail ∧ head.all isSigned = true ∧ (c = 46 ∨ c = 101 ∨ c = 78 ∨ c = 73)
  ascii : Ascii value

theorem wordy_placePoint {digits : Text} (allDigits : digits.all isDigit = true) (point : Int) :
    Wordy (placePoint digits point) := by
  have ascii := ascii_digits allDigits
  have zeros : ∀ count, (List.replicate count 48).all isDigit = true := by
    intro count
    simp [isDigit]
  have taken : ∀ count, (digits.take count).all isDigit = true := fun count =>
    List.all_eq_true.mpr fun c member => List.all_eq_true.mp allDigits c (List.mem_of_mem_take member)
  have dropped : ∀ count, Ascii (digits.drop count) := fun count c member => ascii c (List.mem_of_mem_drop member)
  unfold placePoint
  split
  · split
    · refine ⟨⟨[48], 46, _, rfl, rfl, .inl rfl⟩, ?_⟩
      exact ascii_cons (by decide) (ascii_cons (by decide) (ascii_append (ascii_digits (zeros _)) ascii))
    · refine ⟨⟨_, 46, _, rfl, ?_, .inl rfl⟩, ?_⟩
      · exact all_isSigned (by rw [List.all_append, taken, zeros, Bool.true_and])
      · refine ascii_append (ascii_append (ascii_digits (taken _)) (ascii_digits (zeros _))) (ascii_cons (by decide) ?_)
        split
        · exact ascii_cons (by decide) fun c member => by cases member
        · exact dropped _
  · have exponent : Ascii (101 :: exponentText (point - 1)) := ascii_cons (by decide) (ascii_exponentText _)
    split
    · rw [List.append_nil]
      exact ⟨⟨_, 101, _, rfl, all_isSigned (taken 1), .inr (.inl rfl)⟩, ascii_append (ascii_digits (taken 1)) exponent⟩
    · rw [List.append_assoc]
      refine ⟨⟨_, 46, _, rfl, all_isSigned (taken 1), .inl rfl⟩, ?_⟩
      exact ascii_append (ascii_digits (taken 1)) (ascii_cons (by decide) (ascii_append (dropped 1) exponent))

theorem wordy_magnitudeText (magnitude : Rat) : Wordy (magnitudeText magnitude) := by
  unfold magnitudeText
  split
  · exact ⟨⟨[48], 46, [48], rfl, rfl, .inl rfl⟩, by simp [text, Ascii]⟩
  · apply wordy_placePoint
    rw [List.all_reverse]
    refine List.all_eq_true.mpr fun c member => ?_
    have among := List.mem_reverse.mp ((List.dropWhile_sublist _).subset member)
    exact List.all_eq_true.mp (all_isDigit_decimal _) c among

theorem floatText_wordy (value : PyFloat) : Wordy (floatText value) := by
  cases value with
  | nan => exact ⟨⟨[], 78, _, rfl, rfl, .inr (.inr (.inl rfl))⟩, by simp [floatText, text, Ascii]⟩
  | infinity negative =>
      cases negative with
      | false => exact ⟨⟨[], 73, _, rfl, rfl, .inr (.inr (.inr rfl))⟩, by simp [floatText, text, Ascii]⟩
      | true => exact ⟨⟨[45], 73, _, rfl, rfl, .inr (.inr (.inr rfl))⟩, by simp [floatText, text, Ascii]⟩
  | finite negative magnitude =>
      obtain ⟨⟨head, c, tail, same, signed, wordy⟩, ascii⟩ := wordy_magnitudeText magnitude
      rw [floatText]
      cases negative with
      | false => exact ⟨⟨head, c, tail, same, signed, wordy⟩, ascii⟩
      | true =>
          refine ⟨⟨45 :: head, c, tail, congrArg (45 :: ·) same, ?_, wordy⟩, ascii_cons (by decide) ascii⟩
          rw [List.all_cons, signed]
          rfl

end ExitfyCores.Py
