/-
Module: ExitfyCores.Lib.WeakOrder
Layer: Lib
Purpose: Lists compared entry by entry as if they went on with a filler, and the greatest item that one pass over a list
  keeps.
Imports: Mathlib.Data.List.GetD, Mathlib.Data.List.Induction, Mathlib.Order.PiLex
Trusted boundary: none
Main exports: padded, padTo, padTo_lt_iff, strictWeakOrder_of_key, keepGreatest, Greatest, greatest_keepGreatest
Open obligations: none
-/
import Mathlib.Data.List.GetD
import Mathlib.Data.List.Induction
import Mathlib.Order.PiLex

namespace ExitfyCores.WeakOrder

section

variable {α : Type} [LinearOrder α] {filler : α} {left right : List α}

/-- The entries with the filler behind them, for good. -/
def padded (filler : α) (parts : List α) : Lex (Nat → α) := toLex fun i => parts.getD i filler

/-- The entries with the filler behind them, up to a number of entries. -/
def padTo (filler : α) (count : Nat) (parts : List α) : List α := parts ++ List.replicate (count - parts.length) filler

theorem padded_lt_iff : padded filler left < padded filler right ↔
    ∃ i, (∀ j, j < i → left.getD j filler = right.getD j filler) ∧ left.getD i filler < right.getD i filler := Iff.rfl

omit [LinearOrder α] in
theorem length_padTo {count : Nat} (fits : left.length ≤ count) : (padTo filler count left).length = count := by
  simp [padTo, fits]

omit [LinearOrder α] in
@[simp] theorem getD_padTo (count i : Nat) : (padTo filler count left).getD i filler = left.getD i filler := by
  simp only [padTo, List.getD_eq_getElem?_getD, List.getElem?_append]
  split
  · rfl
  · next late =>
      rw [List.getElem?_eq_none (Nat.le_of_not_lt late)]
      simp only [List.getElem?_replicate]
      split <;> rfl

/-- Lists of one length compare at the first entry that differs. -/
theorem lt_iff_getD (filler : α) (same : left.length = right.length) : left < right ↔
    ∃ i, (∀ j, j < i → left.getD j filler = right.getD j filler) ∧ left.getD i filler < right.getD i filler := by
  rw [List.lt_iff_exists]
  constructor
  · rintro (⟨_, shorter⟩ | ⟨i, insideLeft, insideRight, equal, less⟩)
    · omega
    · refine ⟨i, fun j before => ?_, ?_⟩
      · rw [List.getD_eq_getElem _ _ (before.trans insideLeft), List.getD_eq_getElem _ _ (before.trans insideRight)]
        exact equal j before
      · rwa [List.getD_eq_getElem _ _ insideLeft, List.getD_eq_getElem _ _ insideRight]
  · rintro ⟨i, equal, less⟩
    have inside : i < left.length := by
      by_contra beyond
      rw [List.getD_eq_default _ _ (Nat.le_of_not_lt beyond), List.getD_eq_default _ _ (by omega)] at less
      exact lt_irrefl _ less
    have insideRight : i < right.length := same ▸ inside
    refine Or.inr ⟨i, inside, insideRight, fun j before => ?_, ?_⟩
    · have entries := equal j before
      rwa [List.getD_eq_getElem _ _ (before.trans inside), List.getD_eq_getElem _ _ (before.trans insideRight)] at entries
    · rwa [List.getD_eq_getElem _ _ inside, List.getD_eq_getElem _ _ insideRight] at less

/-- Filled up to one length, lists compare as if they went on for good. -/
theorem padTo_lt_iff {count : Nat} (fitsLeft : left.length ≤ count) (fitsRight : right.length ≤ count) :
    padTo filler count left < padTo filler count right ↔ padded filler left < padded filler right := by
  have same : (padTo filler count left).length = (padTo filler count right).length := by
    rw [length_padTo fitsLeft, length_padTo fitsRight]
  simp only [lt_iff_getD filler same, padded_lt_iff, getD_padTo]

end

/-- Items that are compared by a key. -/
theorem strictWeakOrder_of_key {ι β : Type} [LinearOrder β] {greater : ι → ι → Prop} (key : ι → β)
    (by_key : ∀ a b, greater a b ↔ key b < key a) : IsStrictWeakOrder ι greater where
  irrefl a := by
    rw [by_key]
    exact lt_irrefl _
  trans a b c := by
    simp only [by_key]
    exact fun first second => second.trans first
  incomp_trans a b c := by
    simp only [by_key, not_lt]
    exact fun first second => ⟨first.1.trans second.1, second.2.trans first.2⟩

/-! ### One pass for the greatest -/

section

variable {α : Type} {greater : α → α → Bool}

/-- A later item takes the place of the best one only if it is greater. -/
def keepGreatest (greater : α → α → Bool) (best : Option α) (item : α) : Option α :=
  match best with
  | none => some item
  | some kept => if greater item kept then some item else some kept

/-- One of the items, and none of them is greater. -/
def Greatest (greater : α → α → Bool) (items : List α) : Option α → Prop
  | none => items = []
  | some best => best ∈ items ∧ ∀ item ∈ items, greater item best = false

theorem Greatest.keep [IsStrictOrder α fun a b => greater a b = true] {items : List α} {best : Option α}
    (greatest : Greatest greater items best) (item : α) :
    Greatest greater (items ++ [item]) (keepGreatest greater best item) := by
  have alone : greater item item = false := by simpa using irrefl_of (fun a b => greater a b = true) item
  cases best with
  | none =>
      cases greatest
      exact ⟨List.mem_singleton_self item, fun other member => by rwa [List.mem_singleton.mp member]⟩
  | some kept =>
      rcases greatest with ⟨member, top⟩
      cases isGreater : greater item kept with
      | true =>
          simp only [keepGreatest, isGreater, if_true]
          refine ⟨List.mem_append_right _ (List.mem_singleton_self item), fun other inside => ?_⟩
          rcases List.mem_append.mp inside with early | last
          · -- What is greater than the new item is greater than the old one.
            by_contra above
            have overrun := trans_of (fun a b => greater a b = true) (Bool.eq_true_of_not_eq_false above) isGreater
            simp [top other early] at overrun
          · rwa [List.mem_singleton.mp last]
      | false =>
          simp only [keepGreatest, isGreater, Bool.false_eq_true, if_false]
          refine ⟨List.mem_append_left _ member, fun other inside => ?_⟩
          rcases List.mem_append.mp inside with early | last
          · exact top other early
          · rw [List.mem_singleton.mp last]
            exact isGreater

theorem greatest_keepGreatest [IsStrictOrder α fun a b => greater a b = true] (items : List α) :
    Greatest greater items (items.foldl (keepGreatest greater) none) := by
  induction items using List.reverseRecOn with
  | nil => rfl
  | append_singleton items item ih =>
      rw [List.foldl_append]
      exact ih.keep item

end

end ExitfyCores.WeakOrder
