/-
Module: ExitfyCores.Lib.MarkedWalk
Layer: Lib
Purpose: Walks along the numbers from a start to the first marked one, where every number on the way must be readable, and
  memos of their ends.
Imports: Mathlib.Data.List.Basic
Trusted boundary: none
Main exports: Walks, Walks.unique, walks_iff, MemoSound
Open obligations: none
-/
import Mathlib.Data.List.Basic

namespace ExitfyCores

/-- A walk ends at a marked number. `verdict` is `none` where nothing can be read, and else says whether the number is
marked. -/
inductive Walks (verdict : Nat → Option Bool) : Nat → Nat → Prop where
  | stop {index : Nat} (marked : verdict index = some true) : Walks verdict index index
  | step {index last : Nat} (unmarked : verdict index = some false) (rest : Walks verdict (index + 1) last) :
      Walks verdict index last

section

variable {verdict : Nat → Option Bool}

theorem Walks.readable {index last : Nat} (walks : Walks verdict index last) : verdict index ≠ none := by
  cases walks with
  | stop marked => simp [marked]
  | step unmarked _ => simp [unmarked]

theorem Walks.le {index last : Nat} (walks : Walks verdict index last) : index ≤ last := by
  induction walks with
  | stop _ => exact Nat.le_refl _
  | step _ _ ih => exact Nat.le_of_succ_le ih

theorem Walks.unique {index last other : Nat} (walks : Walks verdict index last) (walksOther : Walks verdict index other) :
    last = other := by
  induction walks with
  | stop marked =>
      cases walksOther with
      | stop _ => rfl
      | step unmarked _ => cases marked.symm.trans unmarked
  | step unmarked _ ih =>
      cases walksOther with
      | stop marked => cases marked.symm.trans unmarked
      | step _ rest => exact ih rest

/-- A walk ends at the least marked number, and everything before it can be read. -/
theorem walks_iff {index last : Nat} : Walks verdict index last ↔
    index ≤ last ∧ verdict last = some true ∧ ∀ other, index ≤ other → other < last → verdict other = some false := by
  constructor
  · intro walks
    induction walks with
    | stop marked =>
        exact ⟨Nat.le_refl _, marked, fun other low high => absurd high (Nat.not_lt.mpr low)⟩
    | step unmarked rest ih =>
        obtain ⟨_, marked, before⟩ := ih
        refine ⟨Nat.le_of_succ_le rest.le, marked, fun other low high => ?_⟩
        rcases Nat.eq_or_lt_of_le low with rfl | later
        · exact unmarked
        · exact before other later high
  · intro ⟨low, marked, before⟩
    obtain ⟨distance, rfl⟩ := Nat.exists_eq_add_of_le low
    induction distance generalizing index with
    | zero => exact .stop marked
    | succ distance ih =>
        have far : index + (distance + 1) = index + 1 + distance := by omega
        refine .step (before index (Nat.le_refl _) (by omega)) ?_
        rw [far] at marked before ⊢
        exact ih (Nat.le_add_right _ _) marked fun other lower higher => before other (by omega) higher

/-- What a memo holds are ends of walks. -/
def MemoSound (verdict : Nat → Option Bool) (memo : List (Nat × Nat)) : Prop :=
  ∀ entry ∈ memo, Walks verdict entry.1 entry.2

theorem MemoSound.lookup {memo : List (Nat × Nat)} (sound : MemoSound verdict memo) {index last : Nat}
    (found : memo.lookup index = some last) : Walks verdict index last := by
  rw [List.lookup_eq_some_iff] at found
  obtain ⟨before, after, split, _⟩ := found
  exact sound (index, last) (split ▸ List.mem_append_right _ List.mem_cons_self)

theorem MemoSound.extend {memo : List (Nat × Nat)} (sound : MemoSound verdict memo) {visited : List Nat} {last : Nat}
    (walks : ∀ index ∈ visited, Walks verdict index last) :
    MemoSound verdict (visited.map (fun index => (index, last)) ++ memo) := by
  intro entry member
  rcases List.mem_append.mp member with new | old
  · obtain ⟨index, among, rfl⟩ := List.mem_map.mp new
    exact walks index among
  · exact sound entry old

end

end ExitfyCores
