/-
Module: ExitfyCores.Lib.Numerals
Layer: Lib
Purpose: Digit strings with the highest digit in front: the numbers they spell, how these compare, and numbers that are
  what their own digits add to a given size.
Imports: Mathlib.Data.List.Induction, Mathlib.Data.List.Lex, Mathlib.Data.Nat.Digits.Defs
Trusted boundary: none
Main exports: value, IsDigits, Leads, value_lt_of_longer, value_lt_iff, value_injective, digitOf, isDigit,
  map_digitOf_lt_iff, CountsItself, CountsItself.next
Open obligations: none
-/
import Mathlib.Data.List.Induction
import Mathlib.Data.List.Lex
import Mathlib.Data.Nat.Digits.Defs

namespace ExitfyCores.Numerals

variable {base : Nat} {digits left right : List Nat}

/-- The number that the digits spell. -/
def value (base : Nat) (digits : List Nat) : Nat := Nat.ofDigits base digits.reverse

def IsDigits (base : Nat) (digits : List Nat) : Prop := ∀ digit ∈ digits, digit < base

/-- A zero stands in front only alone. -/
def Leads (digits : List Nat) : Prop := digits.head? = some 0 → digits.length = 1

@[simp] theorem value_nil : value base [] = 0 := by simp [value]

theorem value_cons (digit : Nat) (digits : List Nat) :
    value base (digit :: digits) = digit * base ^ digits.length + value base digits := by
  simp [value, Nat.ofDigits_append, Nat.add_comm, Nat.mul_comm]

@[simp] theorem value_zero_cons : value base (0 :: digits) = value base digits := by
  simp [value_cons]

theorem value_concat (digits : List Nat) (digit : Nat) :
    value base (digits ++ [digit]) = base * value base digits + digit := by
  simp [value, Nat.ofDigits_cons, Nat.add_comm]

/-- The usual loop over the digits. -/
theorem foldl_eq_value (digits : List Nat) :
    digits.foldl (fun sum digit => base * sum + digit) 0 = value base digits := by
  induction digits using List.reverseRecOn with
  | nil => simp
  | append_singleton digits digit ih => simp [ih, value_concat]

theorem value_lt (large : 1 < base) (isDigits : IsDigits base digits) : value base digits < base ^ digits.length := by
  have bound := Nat.ofDigits_lt_base_pow_length large fun digit member => isDigits digit (List.mem_reverse.mp member)
  simpa [value] using bound

theorem pow_le_value {digit : Nat} (nonzero : digit ≠ 0) : base ^ digits.length ≤ value base (digit :: digits) := by
  have one : 1 * base ^ digits.length ≤ digit * base ^ digits.length :=
    Nat.mul_le_mul_right _ (Nat.one_le_iff_ne_zero.mpr nonzero)
  have all := @value_cons base digit digits
  omega

/-- More digits spell a larger number. -/
theorem value_lt_of_longer (large : 1 < base) (isDigits : IsDigits base left) (filled : left ≠ []) (leads : Leads right)
    (longer : left.length < right.length) : value base left < value base right := by
  cases right with
  | nil => exact absurd longer (Nat.not_lt_zero _)
  | cons digit digits =>
      have positive := List.length_pos_of_ne_nil filled
      have nonzero : digit ≠ 0 := by
        intro zero
        have alone := leads (congrArg some zero)
        omega
      have fits : base ^ left.length ≤ base ^ digits.length :=
        Nat.pow_le_pow_right (Nat.lt_of_succ_lt large) (Nat.le_of_lt_succ longer)
      calc value base left < base ^ left.length := value_lt large isDigits
        _ ≤ base ^ digits.length := fits
        _ ≤ value base (digit :: digits) := pow_le_value nonzero

/-- As many digits compare as the strings do. -/
theorem value_lt_iff (large : 1 < base) (isLeft : IsDigits base left) (isRight : IsDigits base right)
    (same : left.length = right.length) : value base left < value base right ↔ left < right := by
  induction left generalizing right with
  | nil => simp [List.eq_nil_of_length_eq_zero same.symm]
  | cons a left ih =>
      cases right with
      | nil => cases same
      | cons b right =>
          have lengths : left.length = right.length := Nat.succ.inj same
          have restLeft : IsDigits base left := fun digit member => isLeft digit (List.mem_cons_of_mem a member)
          have restRight : IsDigits base right := fun digit member => isRight digit (List.mem_cons_of_mem b member)
          have below := value_lt large restLeft
          have beside := value_lt large restRight
          have tails := ih restLeft restRight lengths
          rw [List.cons_lt_cons_iff, ← tails, value_cons, value_cons, lengths]
          rw [lengths] at below
          -- The digit in front decides, since what stands behind it stays below one of its units.
          rcases Nat.lt_trichotomy a b with less | rfl | greater
          · have unit : (a + 1) * base ^ right.length ≤ b * base ^ right.length := Nat.mul_le_mul_right _ less
            rw [Nat.succ_mul] at unit
            simp only [less, true_or, iff_true]
            omega
          · simp
          · have unit : (b + 1) * base ^ right.length ≤ a * base ^ right.length := Nat.mul_le_mul_right _ greater
            rw [Nat.succ_mul] at unit
            have different : ¬ (a < b ∨ a = b ∧ value base left < value base right) := by omega
            simp only [different, iff_false]
            omega

/-- A number has one spelling without zeros in front. -/
theorem value_injective (large : 1 < base) (isLeft : IsDigits base left) (isRight : IsDigits base right)
    (filledLeft : left ≠ []) (filledRight : right ≠ []) (leadsLeft : Leads left) (leadsRight : Leads right)
    (same : value base left = value base right) : left = right := by
  rcases Nat.lt_trichotomy left.length right.length with shorter | equal | longer
  · exact absurd same (Nat.ne_of_lt (value_lt_of_longer large isLeft filledLeft leadsRight shorter))
  · have notLess := mt (value_lt_iff large isLeft isRight equal).mpr (Nat.not_lt_of_le (Nat.le_of_eq same.symm))
    have notMore := mt (value_lt_iff large isRight isLeft equal.symm).mpr (Nat.not_lt_of_le (Nat.le_of_eq same))
    exact le_antisymm (not_lt.mp notMore) (not_lt.mp notLess)
  · exact absurd same.symm (Nat.ne_of_lt (value_lt_of_longer large isRight filledRight leadsLeft longer))

/-! ### Digits in ASCII -/

/-- The digit that a byte stands for. -/
def digitOf (b : UInt8) : Nat := b.toNat - 0x30

/-- `[0-9]` -/
def isDigit (b : UInt8) : Bool := 0x30 ≤ b && b ≤ 0x39

theorem isDigit_iff {b : UInt8} : isDigit b = true ↔ 0x30 ≤ b.toNat ∧ b.toNat ≤ 0x39 := by
  simp [isDigit, UInt8.le_iff_toNat_le]

section

variable {field first second : List UInt8}

/-- `int(field)` of decimal digits. -/
theorem foldl_bytes_eq_value (field : List UInt8) :
    field.foldl (fun sum b => 10 * sum + (b.toNat - 0x30)) 0 = value 10 (field.map digitOf) := by
  rw [← foldl_eq_value, List.foldl_map]
  rfl

theorem isDigits_map (all : field.all isDigit = true) : IsDigits 10 (field.map digitOf) := by
  intro digit member
  rcases List.mem_map.mp member with ⟨b, inside, rfl⟩
  have range := isDigit_iff.mp (List.all_eq_true.mp all b inside)
  unfold digitOf
  omega

theorem digitOf_inj {a b : UInt8} (one : isDigit a = true) (two : isDigit b = true) : digitOf a = digitOf b ↔ a = b := by
  have low := isDigit_iff.mp one
  have high := isDigit_iff.mp two
  unfold digitOf
  rw [← UInt8.toNat_inj]
  omega

theorem leads_map (all : field.all isDigit = true) (nonzero : field.head? = some 0x30 → field.length = 1) :
    Leads (field.map digitOf) := by
  intro zero
  cases field with
  | nil => cases zero
  | cons b rest =>
      have digit := List.all_eq_true.mp all b List.mem_cons_self
      have front : b = 0x30 := (digitOf_inj digit (by decide)).mp (Option.some.inj zero)
      simpa using nonzero (congrArg some front)

/-- Strings of digits compare as what they stand for. -/
theorem map_digitOf_lt_iff (one : first.all isDigit = true) (two : second.all isDigit = true) :
    first.map digitOf < second.map digitOf ↔ first < second := by
  induction first generalizing second with
  | nil => cases second <;> simp
  | cons a first ih =>
      cases second with
      | nil => simp
      | cons b second =>
          simp only [List.all_cons, Bool.and_eq_true] at one two
          have low := isDigit_iff.mp one.1
          have high := isDigit_iff.mp two.1
          have less : digitOf a < digitOf b ↔ a < b := by
            unfold digitOf
            rw [UInt8.lt_iff_toNat_lt]
            omega
          simp only [List.map_cons, List.cons_lt_cons_iff, less, digitOf_inj one.1 two.1, ih one.2 two.2]

/-- Digits are told apart by what they stand for. -/
theorem map_digitOf_injective (one : first.all isDigit = true) (two : second.all isDigit = true)
    (same : first.map digitOf = second.map digitOf) : first = second := by
  induction first generalizing second with
  | nil => exact (List.map_eq_nil_iff.mp same.symm).symm
  | cons a first ih =>
      cases second with
      | nil => cases same
      | cons b second =>
          simp only [List.all_cons, Bool.and_eq_true] at one two
          rw [List.map_cons, List.map_cons, List.cons_eq_cons] at same
          rw [(digitOf_inj one.1 two.1).mp same.1, ih one.2 two.2 same.2]

end

/-! ### Numbers that count their own digits -/

/-- The size and the digits of the number are the number. -/
def CountsItself (base size number : Nat) : Prop := number = size + (Nat.toDigits base number).length

instance (base size number : Nat) : Decidable (CountsItself base size number) := inferInstanceAs (Decidable (_ = _))

/-- Two of them are a power of the base and the number in front of it. -/
theorem CountsItself.next {size number other : Nat} (large : 1 < base) (counts : CountsItself base size number)
    (also : CountsItself base size other) (less : number < other) :
    ∃ k, 0 < k ∧ number = size + k ∧ other = number + 1 ∧ other = base ^ k := by
  have first := counts
  have second := also
  unfold CountsItself at first second
  have positive : 0 < (Nat.toDigits base number).length := Nat.length_toDigits_pos
  have upper := (Nat.length_toDigits_le_iff large positive).mp (Nat.le_refl _)
  generalize (Nat.toDigits base number).length = k at first positive upper
  generalize count : (Nat.toDigits base other).length = m at second
  have more : k < m := by omega
  have lower : base ^ (m - 1) ≤ other := by
    have some : 0 < m - 1 := by omega
    have overrun : ¬ (Nat.toDigits base other).length ≤ m - 1 := by omega
    exact Nat.le_of_not_lt (mt (Nat.length_toDigits_le_iff large some).mpr overrun)
  obtain ⟨extra, rfl⟩ : ∃ extra, m = k + 1 + extra := ⟨m - (k + 1), by omega⟩
  have shift : k + 1 + extra - 1 = k + extra := by omega
  rw [shift, Nat.pow_add] at lower
  have two : 2 ^ extra ≤ base ^ extra := Nat.pow_le_pow_left large extra
  have steps : extra + 1 ≤ 2 ^ extra := Nat.lt_two_pow_self
  have base_le : 2 ≤ base ^ k := by
    calc 2 ≤ base := large
      _ = base ^ 1 := (Nat.pow_one base).symm
      _ ≤ base ^ k := Nat.pow_le_pow_right (Nat.lt_of_succ_lt large) positive
  have product : base ^ k * (extra + 1) ≤ base ^ k * base ^ extra := Nat.mul_le_mul_left _ (steps.trans two)
  have none : extra = 0 := by
    cases extra with
    | zero => rfl
    | succ extra =>
        have grow : 2 * (extra + 1) ≤ base ^ k * (extra + 1) := Nat.mul_le_mul_right _ base_le
        have split : base ^ k * (extra + 1 + 1) = base ^ k * (extra + 1) + base ^ k := Nat.mul_succ _ _
        omega
  subst none
  simp only [Nat.pow_zero, Nat.mul_one] at lower
  exact ⟨k, positive, first, by omega, by omega⟩

end ExitfyCores.Numerals
