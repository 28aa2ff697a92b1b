/-
Module: ExitfyCores.Lib.PathOrder
Layer: Library
Purpose: Paths as lists of names, ordered part by part. What lies below a path is an interval of this order, which is
  why a sorted list of paths can be read as a tree in one pass.
Imports: Mathlib.Data.List.Infix, Mathlib.Data.List.Lex, Mathlib.Data.List.Sort, Mathlib.Tactic.Tauto
Trusted boundary: none
Main exports: PathOrder.Below, PathOrder.ancestors, PathOrder.prefix_of_between, PathOrder.pairwise_flatMap
Open obligations: none
-/
import Mathlib.Data.List.Infix
import Mathlib.Data.List.Lex
import Mathlib.Data.List.Sort
import Mathlib.Tactic.Tauto

namespace ExitfyCores.PathOrder

variable {Name : Type*}

section

variable [DecidableEq Name]

/-- `path` lies below `directory`. -/
def Below (directory path : List Name) : Prop := directory <+: path ∧ directory ≠ path

instance (directory path : List Name) : Decidable (Below directory path) :=
  inferInstanceAs (Decidable (_ ∧ _))

/-- The directories above a path that have at least `least` parts. -/
def ancestors (least : Nat) (path : List Name) : List (List Name) :=
  path.inits.filter fun above => least ≤ above.length ∧ above.length < path.length

omit [DecidableEq Name] in
theorem below_iff_length {directory path : List Name} :
    Below directory path ↔ directory <+: path ∧ directory.length < path.length := by
  constructor
  · intro below
    refine ⟨below.1, Nat.lt_of_le_of_ne below.1.length_le ?_⟩
    exact fun same => below.2 (below.1.eq_of_length same)
  · rintro ⟨isPrefix, shorter⟩
    exact ⟨isPrefix, fun same => absurd shorter (same ▸ Nat.lt_irrefl _)⟩

omit [DecidableEq Name] in
theorem mem_ancestors {least : Nat} {above path : List Name} :
    above ∈ ancestors least path ↔ Below above path ∧ least ≤ above.length := by
  rw [ancestors, List.mem_filter, List.mem_inits, below_iff_length, decide_eq_true_eq]
  tauto

omit [DecidableEq Name] in
theorem Below.trans {first second third : List Name} (one : Below first second) (two : Below second third) :
    Below first third := by
  rw [below_iff_length] at one two ⊢
  exact ⟨one.1.trans two.1, one.2.trans two.2⟩

omit [DecidableEq Name] in
/-- Two directories above one path lie in one line. -/
theorem below_total {first second path : List Name} (one : Below first path) (two : Below second path) :
    Below first second ∨ first = second ∨ Below second first := by
  rcases List.prefix_or_prefix_of_prefix one.1 two.1 with isPrefix | isPrefix
  · by_cases same : first = second
    · exact Or.inr (Or.inl same)
    · exact Or.inl ⟨isPrefix, same⟩
  · by_cases same : first = second
    · exact Or.inr (Or.inl same)
    · exact Or.inr (Or.inr ⟨isPrefix, Ne.symm same⟩)

end

/-! ### The order of paths -/

variable [LinearOrder Name]

theorem cons_le_cons_iff {first second : Name} {left right : List Name} :
    first :: left ≤ second :: right ↔ first < second ∨ first = second ∧ left ≤ right := by
  rw [le_iff_lt_or_eq, List.cons_lt_cons_iff, le_iff_lt_or_eq, List.cons.injEq]
  tauto

theorem append_lt_append {base left right : List Name} (less : left < right) : base ++ left < base ++ right :=
  List.Lex.append_left _ less base

theorem lt_append_cons (path : List Name) (name : Name) (rest : List Name) : path < path ++ name :: rest := by
  have less : path ++ [] < path ++ name :: rest := append_lt_append List.Lex.nil
  rw [List.append_nil] at less
  exact less

/-- A directory comes before everything below it. -/
theorem Below.lt {directory path : List Name} (below : Below directory path) : directory < path := by
  rcases below with ⟨⟨rest, rfl⟩, different⟩
  cases rest with
  | nil => exact absurd (List.append_nil directory).symm different
  | cons name rest => exact lt_append_cons directory name rest

/-- What lies between a directory and something below it lies below it too. -/
theorem prefix_of_between {directory middle path : List Name} (lower : directory ≤ middle)
    (upper : middle ≤ path) (above : directory <+: path) : directory <+: middle := by
  induction directory generalizing middle path with
  | nil => exact List.nil_prefix
  | cons name directory ih =>
      rcases above with ⟨rest, rfl⟩
      rw [List.cons_append] at upper
      cases middle with
      | nil => exact absurd lower (not_le_of_gt List.Lex.nil)
      | cons other middle =>
          have first := cons_le_cons_iff.mp lower
          have second := cons_le_cons_iff.mp upper
          rcases first with less | ⟨rfl, tailLower⟩
          · rcases second with greater | ⟨rfl, _⟩
            · exact absurd less (lt_asymm greater)
            · exact absurd less (lt_irrefl _)
          · rcases second with greater | ⟨_, tailUpper⟩
            · exact absurd greater (lt_irrefl _)
            · exact List.cons_prefix_cons.mpr ⟨rfl, ih tailLower tailUpper (List.prefix_append directory rest)⟩

/-- Names of a sorted listing separate what lies below them. -/
theorem child_lt_child {base left right : List Name} {first second : Name} (less : first < second)
    (one : base ++ [first] <+: left) (two : base ++ [second] <+: right) : left < right := by
  rcases one with ⟨inFirst, rfl⟩
  rcases two with ⟨inSecond, rfl⟩
  rw [List.append_assoc, List.append_assoc]
  exact append_lt_append (List.Lex.rel less)

/-- Sorted listings below sorted names are a sorted listing. -/
theorem pairwise_flatMap {base : List Name} {names : List Name} {below : Name → List (List Name)}
    (sorted : names.Pairwise (· < ·)) (each : ∀ name ∈ names, (below name).Pairwise (· < ·))
    (inside : ∀ name ∈ names, ∀ path ∈ below name, base ++ [name] <+: path) :
    (names.flatMap below).Pairwise (· < ·) := by
  induction names with
  | nil => exact List.Pairwise.nil
  | cons name rest ih =>
      rw [List.flatMap_cons, List.pairwise_append]
      rw [List.pairwise_cons] at sorted
      refine ⟨each name List.mem_cons_self, ih sorted.2 ?_ ?_, ?_⟩
      · exact fun other later => each other (List.mem_cons_of_mem name later)
      · exact fun other later => inside other (List.mem_cons_of_mem name later)
      · intro left inLeft right inRight
        rcases List.mem_flatMap.mp inRight with ⟨other, later, member⟩
        exact child_lt_child (sorted.1 other later) (inside name List.mem_cons_self left inLeft)
          (inside other (List.mem_cons_of_mem name later) right member)

end ExitfyCores.PathOrder
