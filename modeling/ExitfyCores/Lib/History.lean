/-
Module: ExitfyCores.Lib.History
Layer: Lib
Purpose: Runs of a step function and past-time properties of the history that a run records: what is open
  since an event, and what every event finds in its past.
Imports: Mathlib.Data.List.Basic, Mathlib.Data.List.Induction
Trusted boundary: none
Main exports: run, run_invariant, Since, since_append, Guarded, guarded_append, Guarded.separated, Admitted,
  Admitted.invariant
Open obligations: none
-/
import Mathlib.Data.List.Basic
import Mathlib.Data.List.Induction

namespace ExitfyCores.History

variable {State Call Event : Type}

/-- The state behind a finite sequence of calls. -/
def run (step : State → Call → State) (start : State) (calls : List Call) : State :=
  calls.foldl step start

/-- What holds at the start and survives each call holds behind every run. -/
theorem run_invariant {step : State → Call → State} {invariant : State → Prop} {start : State}
    (initially : invariant start)
    (preserved : ∀ state call, invariant state → invariant (step state call)) (calls : List Call) :
    invariant (run step start calls) := by
  induction calls generalizing start with
  | nil => exact initially
  | cons call calls ih => exact ih (preserved start call initially)

@[simp] theorem run_append (step : State → Call → State) (start : State) (calls later : List Call) :
    run step start (calls ++ later) = run step (run step start calls) later :=
  List.foldl_append

/-- An event at the end of a history is its last event or an event of what came before. -/
theorem append_singleton_split {history before after : List Event} {last event : Event} :
    history ++ [last] = before ++ event :: after ↔
      (history = before ∧ last = event ∧ after = []) ∨
        ∃ middle, after = middle ++ [last] ∧ history = before ++ event :: middle := by
  constructor
  · intro split
    rcases List.eq_nil_or_concat after with empty | ⟨middle, final, concat⟩
    · rw [empty] at split
      have parts := List.append_inj' split rfl
      exact Or.inl ⟨parts.1, List.cons.inj parts.2 |>.1, empty⟩
    · rw [concat, List.concat_eq_append, ← List.cons_append, ← List.append_assoc] at split
      have parts := List.append_inj' split rfl
      have same : last = final := List.cons.inj parts.2 |>.1
      refine Or.inr ⟨middle, ?_, parts.1⟩
      rw [concat, List.concat_eq_append, same]
  · intro split
    rcases split with ⟨same, sameEvent, empty⟩ | ⟨middle, extended, earlier⟩
    · rw [same, sameEvent, empty]
    · rw [extended, earlier]
      simp

/-! ### What is open -/

/-- Something opened in the history and nothing closed it since. -/
def Since (opened closed : Event → Prop) (history : List Event) : Prop :=
  ∃ before event after, history = before ++ event :: after ∧ opened event ∧
    ∀ later ∈ after, ¬ closed later

variable {opened closed : Event → Prop}

@[simp] theorem since_nil : ¬ Since opened closed ([] : List Event) := by
  intro since
  rcases since with ⟨before, event, after, split, _⟩
  exact List.append_ne_nil_of_right_ne_nil before (List.cons_ne_nil event after) split.symm

/-- One more event opens, or leaves open what it does not close. -/
@[simp] theorem since_append (history : List Event) (last : Event) :
    Since opened closed (history ++ [last]) ↔
      opened last ∨ (Since opened closed history ∧ ¬ closed last) := by
  constructor
  · intro since
    rcases since with ⟨before, event, after, split, opening, unclosed⟩
    rcases append_singleton_split.mp split with ⟨_, same, _⟩ | ⟨middle, extended, earlier⟩
    · exact Or.inl (same ▸ opening)
    · refine Or.inr ⟨⟨before, event, middle, earlier, opening, ?_⟩, ?_⟩
      · intro later member
        exact unclosed later (by simp [extended, member])
      · exact unclosed last (by simp [extended])
  · intro parts
    rcases parts with opening | ⟨since, unclosed⟩
    · exact ⟨history, last, [], rfl, opening, by simp⟩
    · rcases since with ⟨before, event, after, split, opening, earlier⟩
      refine ⟨before, event, after ++ [last], by simp [split], opening, ?_⟩
      intro later member
      rcases List.mem_append.mp member with old | new
      · exact earlier later old
      · exact List.mem_singleton.mp new ▸ unclosed

theorem Since.exists {history : List Event} (since : Since opened closed history) :
    ∃ event ∈ history, opened event := by
  rcases since with ⟨before, event, after, split, opening, _⟩
  exact ⟨event, by simp [split], opening⟩

/-! ### What an event finds in its past -/

/-- Every event of the history is allowed by what came before it. -/
def Guarded (allowed : List Event → Event → Prop) (history : List Event) : Prop :=
  ∀ before event after, history = before ++ event :: after → allowed before event

variable {allowed : List Event → Event → Prop}

@[simp] theorem guarded_nil : Guarded allowed [] := by
  intro before event after split
  exact absurd split.symm (List.append_ne_nil_of_right_ne_nil before (List.cons_ne_nil event after))

@[simp] theorem guarded_append (history : List Event) (last : Event) :
    Guarded allowed (history ++ [last]) ↔ Guarded allowed history ∧ allowed history last := by
  constructor
  · intro guarded
    refine ⟨?_, guarded history last [] rfl⟩
    intro before event after split
    exact guarded before event (after ++ [last]) (by simp [split])
  · intro parts before event after split
    rcases append_singleton_split.mp split with ⟨same, sameEvent, _⟩ | ⟨middle, _, earlier⟩
    · exact same ▸ sameEvent ▸ parts.2
    · exact parts.1 before event middle earlier

/-- Every call of a run is allowed in the state that it meets. -/
def Admitted (step : State → Call → State) (permitted : State → Call → Prop) (start : State)
    (calls : List Call) : Prop :=
  Guarded (fun past call => permitted (run step start past) call) calls

@[simp] theorem admitted_nil {step : State → Call → State} {permitted : State → Call → Prop} {start : State} :
    Admitted step permitted start [] := guarded_nil

@[simp] theorem admitted_append {step : State → Call → State} {permitted : State → Call → Prop} {start : State}
    {calls : List Call} {last : Call} :
    Admitted step permitted start (calls ++ [last]) ↔
      Admitted step permitted start calls ∧ permitted (run step start calls) last :=
  guarded_append calls last

/-- What holds at the start and survives each permitted call holds behind every run of permitted calls. -/
theorem Admitted.invariant {step : State → Call → State} {permitted : State → Call → Prop}
    {invariant : State → Prop} {start : State} {calls : List Call} (admitted : Admitted step permitted start calls)
    (initially : invariant start)
    (preserved : ∀ state call, invariant state → permitted state call → invariant (step state call)) :
    invariant (run step start calls) := by
  induction calls using List.reverseRecOn with
  | nil => exact initially
  | append_singleton calls call ih =>
      rcases admitted_append.mp admitted with ⟨earlier, last⟩
      rw [run_append]
      exact preserved _ call (ih earlier) last

/-- Where nothing opens while something is open, a closing event lies between any two openings. -/
theorem Guarded.separated {history before middle after : List Event} {first second : Event}
    (guarded : Guarded (fun past event => opened event → ¬ Since opened closed past) history)
    (split : history = before ++ first :: (middle ++ second :: after))
    (openFirst : opened first) (openSecond : opened second) :
    ∃ event ∈ middle, closed event := by
  have notOpen : ¬ Since opened closed (before ++ first :: middle) := by
    apply guarded (before ++ first :: middle) second after _ openSecond
    simp [split]
  by_contra none
  apply notOpen
  refine ⟨before, first, middle, rfl, openFirst, ?_⟩
  intro later member closing
  exact none ⟨later, member, closing⟩

end ExitfyCores.History
