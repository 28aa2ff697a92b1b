/-
Module: ExitfyCores.Proofs.ClosedErrors
Layer: Proofs
Purpose: What `isOnlyClosed` accepts, against the errors of which every leaf is `os.ErrClosed`. They differ where a joined
  error has nothing but nil in its list.
Imports: ExitfyCores.Lifecycle.SingBox
Trusted boundary: none
Main exports: ClosedThroughout, JoinsNil, Decisive, errOnlyClosed_iff, isOnlyClosed_exact, not_isOnlyClosed_sound
Open obligations: none
-/
import ExitfyCores.Lifecycle.SingBox

namespace ExitfyCores.SingBox

open GoError

/-- The error is nil, or every leaf of it is `os.ErrClosed` itself. -/
def ClosedThroughout : Option GoError → Prop
  | none => True
  | some err => ∀ leaf, err.HasLeaf leaf → leaf = .closed

/-- A joined error with a list that is not empty and has nothing but nil in it. -/
def JoinsNil : GoError → Prop
  | .join _ children => children ≠ [] ∧ ∀ child ∈ children, child = none
  | _ => False

/-- Such errors are none of the leaves, or there is another leaf that is not `os.ErrClosed`. -/
def Decisive : Option GoError → Prop
  | none => True
  | some err =>
      (∀ leaf, err.HasLeaf leaf → ¬ JoinsNil leaf) ∨ ∃ leaf, err.HasLeaf leaf ∧ leaf ≠ .closed ∧ ¬ JoinsNil leaf

theorem not_joinsNil_closed : ¬ JoinsNil .closed := fun impossible => impossible

/-! ### One level -/

/-- The loop over the children, by the errors among them. -/
theorem allOnlyClosed_iff {children : List (Option GoError)} :
    allOnlyClosed children = true ↔ ∀ child, some child ∈ children → errOnlyClosed child = true := by
  induction children with
  | nil => simp [allOnlyClosed]
  | cons head tail ih =>
      rw [allOnlyClosed, Bool.and_eq_true, ih]
      cases head with
      | none => simp [isOnlyClosed]
      | some err => simp [isOnlyClosed]

/-- An error with errors inside is accepted when each of them is. -/
theorem errOnlyClosed_inside {err : GoError} (inside : err.children ≠ []) :
    errOnlyClosed err = true ↔ ∀ child ∈ err.children, errOnlyClosed child = true := by
  cases err with
  | closed => exact absurd rfl inside
  | leaf text => exact absurd rfl inside
  | wrap text child =>
      cases child with
      | none => exact absurd rfl inside
      | some err => simp [errOnlyClosed, isOnlyClosed, children, unwrap, List.reduceOption]
  | join text options =>
      have filled : options ≠ [] := by
        rintro rfl
        exact inside rfl
      simp only [mem_children, unwrap, errOnlyClosed, Bool.and_eq_true, allOnlyClosed_iff]
      simp [filled]

/-- An error with nothing inside is accepted when it is `os.ErrClosed`, and when it joins nil with nil. -/
theorem errOnlyClosed_bare {err : GoError} (bare : err.children = []) :
    errOnlyClosed err = true ↔ err = .closed ∨ JoinsNil err := by
  cases err with
  | closed => simp [errOnlyClosed]
  | leaf text => simp [errOnlyClosed, JoinsNil]
  | wrap text child =>
      cases child with
      | none => simp [errOnlyClosed, JoinsNil]
      | some err => cases bare
  | join text options =>
      have nils : ∀ child ∈ options, child = none := by
        intro child member
        cases child with
        | none => rfl
        | some err =>
            have inside : err ∈ (GoError.join text options).children := mem_children.mpr member
            rw [bare] at inside
            cases inside
      have accepted : allOnlyClosed options = true := by
        rw [allOnlyClosed_iff]
        intro child member
        cases nils _ member
      have joins : JoinsNil (.join text options) ↔ options ≠ [] := ⟨And.left, fun filled => ⟨filled, nils⟩⟩
      simp [errOnlyClosed, joins, accepted]

/-! ### The whole tree -/

/-- What `isOnlyClosed` accepts: errors of which every leaf is `os.ErrClosed` or joins nil with nil. -/
theorem errOnlyClosed_iff {err : GoError} :
    errOnlyClosed err = true ↔ ∀ leaf, err.HasLeaf leaf → leaf = .closed ∨ JoinsNil leaf := by
  induction err using children_induction with
  | step err ih =>
      by_cases bare : err.children = []
      · rw [errOnlyClosed_bare bare]
        constructor
        · intro accepted leaf below
          cases below with
          | self => exact accepted
          | inside member _ =>
              rw [bare] at member
              cases member
        · intro leaves
          exact leaves err (.self bare)
      · rw [errOnlyClosed_inside bare]
        constructor
        · intro accepted leaf below
          cases below with
          | self empty => exact absurd empty bare
          | inside member below => exact (ih _ member).mp (accepted _ member) leaf below
        · intro leaves child member
          exact (ih child member).mpr fun leaf below => leaves leaf (.inside member below)

/-- The answer is the right one exactly for the decisive errors. -/
theorem isOnlyClosed_exact (err : Option GoError) :
    (isOnlyClosed err = true ↔ ClosedThroughout err) ↔ Decisive err := by
  cases err with
  | none => simp [isOnlyClosed, ClosedThroughout, Decisive]
  | some err =>
      rw [isOnlyClosed, errOnlyClosed_iff]
      constructor
      · intro agrees
        by_cases closed : ∀ leaf, err.HasLeaf leaf → leaf = .closed
        · refine Or.inl fun leaf below joins => ?_
          rw [closed leaf below] at joins
          exact not_joinsNil_closed joins
        · -- Some leaf is not `os.ErrClosed`, so the error is rejected, and not because of a leaf that joins nil.
          have rejected := mt agrees.mp closed
          push Not at rejected
          exact Or.inr rejected
      · intro decisive
        constructor
        · intro accepted leaf below
          rcases accepted leaf below with closed | joins
          · exact closed
          · rcases decisive with none | ⟨other, reached, different, solid⟩
            · exact absurd joins (none leaf below)
            · exact absurd (accepted other reached) (not_or.mpr ⟨different, solid⟩)
        · intro closed leaf below
          exact Or.inl (closed leaf below)

/-- A joined error with one nil in its list proves nothing about closing. -/
theorem not_isOnlyClosed_sound : ¬ ∀ err, isOnlyClosed err = true ↔ ClosedThroughout err := by
  intro claim
  have bare : (GoError.join [] [none]).children = [] := rfl
  have closed := (claim (some (.join [] [none]))).mp rfl _ (.self bare)
  cases closed

end ExitfyCores.SingBox
