/-
Module: ExitfyCores.Lib.Interleaving
Layer: Lib
Purpose: Runs of a program in an environment that others change between its calls, and quantities that get a fresh stamp
  with every change: the same stamp at two moments means that nothing happened in between.
Imports: ExitfyCores.Lib.Interaction, Mathlib.Order.Defs.Unbundled
Trusted boundary: none
Main exports: Environment, Moment, Moves, Run, run_bind, run_attempt, Climbs, Run.climbs, Run.trace, Run.climbs_only, Yields,
  Restamps, SinceStamp, Climbs.unchanged
Open obligations: none
-/
import ExitfyCores.Lib.Interaction
import Mathlib.Order.Defs.Unbundled

namespace ExitfyCores.Interaction

variable {Query : Type} {Answer : Query → Type} {ε α β σ : Type}

/-- What others may do to the state, and how calls are answered. -/
structure Environment (Answer : Query → Type) (σ : Type) where
  move : σ → σ → Prop
  answers : σ → Exchange Answer → σ → Prop

/-- A move of the others or a call, with the state it starts from. -/
structure Moment (Answer : Query → Type) (σ : Type) where
  state : σ
  asked : Option (Exchange Answer)

variable {env : Environment Answer σ}

/-- Moves of the others, one after the other. -/
inductive Moves (env : Environment Answer σ) : σ → List (Moment Answer σ) → σ → Prop where
  | none (state : σ) : Moves env state [] state
  | more {state next final : σ} {log : List (Moment Answer σ)} (moved : env.move state next)
      (later : Moves env next log final) : Moves env state (⟨state, .none⟩ :: log) final

/-- A run of a program, with moves of the others in front of each call. -/
def Run (env : Environment Answer σ) (program : Interaction Answer ε α) (state : σ) (log : List (Moment Answer σ))
    (outcome : Except ε α) (final : σ) : Prop :=
  match program with
  | .done a => log = [] ∧ outcome = .ok a ∧ final = state
  | .raise error => log = [] ∧ outcome = .error error ∧ final = state
  | .ask query rest => ∃ before here answer next later,
      Moves env state before here ∧ env.answers here ⟨query, answer⟩ next ∧
        log = before ++ ⟨here, some ⟨query, answer⟩⟩ :: later ∧ Run env (rest answer) next later outcome final

section Run

variable {program : Interaction Answer ε α} {state final : σ} {log : List (Moment Answer σ)}

@[simp] theorem run_done {a : α} {outcome : Except ε α} :
    Run env (.done a : Interaction Answer ε α) state log outcome final ↔ log = [] ∧ outcome = .ok a ∧ final = state :=
  Iff.rfl

@[simp] theorem run_raise {error : ε} {outcome : Except ε α} :
    Run env (.raise error : Interaction Answer ε α) state log outcome final ↔
      log = [] ∧ outcome = .error error ∧ final = state := Iff.rfl

theorem run_ask {query : Query} {rest : Answer query → Interaction Answer ε α} {outcome : Except ε α} :
    Run env (.ask query rest) state log outcome final ↔ ∃ before here answer next later,
      Moves env state before here ∧ env.answers here ⟨query, answer⟩ next ∧
        log = before ++ ⟨here, some ⟨query, answer⟩⟩ :: later ∧ Run env (rest answer) next later outcome final := Iff.rfl

/-- A call that is answered at once. -/
theorem run_answered {query : Query} {rest : Answer query → Interaction Answer ε α} {answer : Answer query} {next : σ}
    {outcome : Except ε α} (answered : env.answers state ⟨query, answer⟩ next)
    (later : Run env (rest answer) next log outcome final) :
    Run env (.ask query rest) state (⟨state, some ⟨query, answer⟩⟩ :: log) outcome final :=
  ⟨[], state, answer, next, log, .none state, answered, rfl, later⟩

/-- A move in front of a call. -/
theorem run_moved {query : Query} {rest : Answer query → Interaction Answer ε α} {next : σ} {outcome : Except ε α}
    (moved : env.move state next) (later : Run env (.ask query rest) next log outcome final) :
    Run env (.ask query rest) state (⟨state, none⟩ :: log) outcome final := by
  rcases later with ⟨before, here, answer, after, later, moves, answered, rfl, run⟩
  exact ⟨⟨state, none⟩ :: before, here, answer, after, later, .more moved moves, answered, rfl, run⟩

/-- Some run of the program ends so. -/
def CanEnd (env : Environment Answer σ) (program : Interaction Answer ε α) (state : σ) (outcome : Except ε α) : Prop :=
  ∃ log final, Run env program state log outcome final

theorem canEnd_done (a : α) : CanEnd env (.done a : Interaction Answer ε α) state (.ok a) :=
  ⟨[], state, rfl, rfl, rfl⟩

theorem canEnd_answered {query : Query} {rest : Answer query → Interaction Answer ε α} {answer : Answer query} {next : σ}
    {outcome : Except ε α} (answered : env.answers state ⟨query, answer⟩ next)
    (later : CanEnd env (rest answer) next outcome) : CanEnd env (.ask query rest) state outcome := by
  rcases later with ⟨log, final, run⟩
  exact ⟨_, final, run_answered answered run⟩

theorem canEnd_moved {query : Query} {rest : Answer query → Interaction Answer ε α} {next : σ} {outcome : Except ε α}
    (moved : env.move state next) (later : CanEnd env (.ask query rest) next outcome) :
    CanEnd env (.ask query rest) state outcome := by
  rcases later with ⟨log, final, run⟩
  exact ⟨_, final, run_moved moved run⟩

/-- A sequence ends in its first part with an error, or goes on from where that part ends. -/
theorem run_bind {next : α → Interaction Answer ε β} {outcome : Except ε β} :
    Run env (program >>= next) state log outcome final ↔
      (∃ error, Run env program state log (.error error) final ∧ outcome = .error error) ∨
        ∃ a first middle later, log = first ++ later ∧ Run env program state first (.ok a) middle ∧
          Run env (next a) middle later outcome final := by
  induction program generalizing state log with
  | done a =>
      constructor
      · intro run
        exact Or.inr ⟨a, [], state, log, rfl, ⟨rfl, rfl, rfl⟩, run⟩
      · rintro (⟨_, ⟨_, impossible, _⟩, _⟩ | ⟨_, _, _, _, rfl, ⟨rfl, same, rfl⟩, run⟩)
        · cases impossible
        · cases same
          exact run
  | raise error =>
      constructor
      · intro run
        exact Or.inl ⟨error, ⟨run.1, rfl, run.2.2⟩, run.2.1⟩
      · rintro (⟨_, ⟨rfl, same, rfl⟩, rfl⟩ | ⟨_, _, _, _, _, ⟨_, impossible, _⟩, _⟩)
        · cases same
          exact ⟨rfl, rfl, rfl⟩
        · cases impossible
  | ask query rest ih =>
      rw [ask_bind, run_ask]
      constructor
      · rintro ⟨before, here, answer, after, later, moves, answered, rfl, run⟩
        rcases (ih answer).mp run with ⟨error, failed, rfl⟩ | ⟨a, first, middle, last, rfl, returned, run⟩
        · exact Or.inl ⟨error, ⟨before, here, answer, after, later, moves, answered, rfl, failed⟩, rfl⟩
        · exact Or.inr ⟨a, before ++ ⟨here, some ⟨query, answer⟩⟩ :: first, middle, last, by simp,
            ⟨before, here, answer, after, first, moves, answered, rfl, returned⟩, run⟩
      · rintro (⟨error, ⟨before, here, answer, after, later, moves, answered, rfl, failed⟩, rfl⟩ |
          ⟨a, _, middle, last, rfl, ⟨before, here, answer, after, first, moves, answered, rfl, returned⟩, run⟩)
        · exact ⟨before, here, answer, after, later, moves, answered, rfl, (ih answer).mpr (Or.inl ⟨error, failed, rfl⟩)⟩
        · exact ⟨before, here, answer, after, first ++ last, moves, answered, by simp,
            (ih answer).mpr (Or.inr ⟨a, first, middle, last, rfl, returned, run⟩)⟩

theorem run_bind_ok {next : α → Interaction Answer ε β} {b : β}
    (run : Run env (program >>= next) state log (.ok b) final) :
    ∃ a first middle later, log = first ++ later ∧ Run env program state first (.ok a) middle ∧
      Run env (next a) middle later (.ok b) final := by
  rcases run_bind.mp run with ⟨error, _, impossible⟩ | returned
  · cases impossible
  · exact returned

@[simp] theorem run_ofExcept {value outcome : Except ε α} :
    Run env (ofExcept value : Interaction Answer ε α) state log outcome final ↔
      log = [] ∧ outcome = value ∧ final = state := by
  cases value <;> simp

/-- A caught program runs as it runs uncaught. -/
@[simp] theorem run_attempt {outcome : Except ε (Except ε α)} :
    Run env program.attempt state log outcome final ↔
      ∃ result, outcome = .ok result ∧ Run env program state log result final := by
  induction program generalizing state log with
  | done a =>
      constructor
      · rintro ⟨rfl, rfl, rfl⟩
        exact ⟨.ok a, rfl, rfl, rfl, rfl⟩
      · rintro ⟨_, rfl, rfl, rfl, rfl⟩
        exact ⟨rfl, rfl, rfl⟩
  | raise error =>
      constructor
      · rintro ⟨rfl, rfl, rfl⟩
        exact ⟨.error error, rfl, rfl, rfl, rfl⟩
      · rintro ⟨_, rfl, rfl, rfl, rfl⟩
        exact ⟨rfl, rfl, rfl⟩
  | ask query rest ih =>
      constructor
      · rintro ⟨before, here, answer, next, later, moves, answered, rfl, caught⟩
        rcases (ih answer).mp caught with ⟨result, rfl, run⟩
        exact ⟨result, rfl, before, here, answer, next, later, moves, answered, rfl, run⟩
      · rintro ⟨result, rfl, before, here, answer, next, later, moves, answered, rfl, run⟩
        exact ⟨before, here, answer, next, later, moves, answered, rfl, (ih answer).mpr ⟨result, rfl, run⟩⟩

/-- A block with a cleanup returns when both have run through. -/
theorem run_finally {cleanup : Interaction Answer ε Unit} {a : α}
    (run : Run env (finally_ program cleanup) state log (.ok a) final) :
    ∃ first middle later, log = first ++ later ∧ Run env program state first (.ok a) middle ∧
      Run env cleanup middle later (.ok ()) final := by
  rcases run_bind_ok run with ⟨outcome, first, middle, later, rfl, caught, rest⟩
  rcases run_attempt.mp caught with ⟨_, same, ran⟩
  cases same
  rcases run_bind_ok rest with ⟨_, cleaned, last, nothing, rfl, closed, returned⟩
  rcases run_ofExcept.mp returned with ⟨rfl, rfl, rfl⟩
  rw [List.append_nil]
  exact ⟨first, middle, cleaned, rfl, ran, closed⟩

end Run

/-- What runs among fewer moves and answers runs among more. -/
theorem Moves.weaken {other : Environment Answer σ} (moved : ∀ before after, env.move before after → other.move before after)
    {state final : σ} {log : List (Moment Answer σ)} (moves : Moves env state log final) :
    Moves other state log final := by
  induction moves with
  | none state => exact .none state
  | more step _ ih => exact .more (moved _ _ step) ih

theorem Run.weaken {other : Environment Answer σ} (moved : ∀ before after, env.move before after → other.move before after)
    (answered : ∀ before exchange after, env.answers before exchange after → other.answers before exchange after)
    {program : Interaction Answer ε α} {state final : σ} {log : List (Moment Answer σ)} {outcome : Except ε α}
    (run : Run env program state log outcome final) : Run other program state log outcome final := by
  induction program generalizing state log with
  | done a => exact run
  | raise error => exact run
  | ask query rest ih =>
      rcases run with ⟨before, here, answer, next, later, moves, called, rfl, run⟩
      exact ⟨before, here, answer, next, later, moves.weaken moved, answered _ _ _ called, rfl, ih answer run⟩

theorem Moves.silent {state final : σ} {log : List (Moment Answer σ)} (moves : Moves env state log final) :
    log.filterMap Moment.asked = [] := by
  induction moves with
  | none => rfl
  | more _ _ ih => exact ih

/-- The environment where only good exchanges are answered. -/
def Environment.restrict (env : Environment Answer σ) (good : Exchange Answer → Prop) : Environment Answer σ where
  move := env.move
  answers before exchange after := good exchange ∧ env.answers before exchange after

theorem Moves.restrict {good : Exchange Answer → Prop} {state final : σ} {log : List (Moment Answer σ)}
    (moves : Moves env state log final) : Moves (env.restrict good) state log final := by
  induction moves with
  | none state => exact .none state
  | more step _ ih => exact .more step ih

theorem Run.restrict {good : Exchange Answer → Prop} {program : Interaction Answer ε α} {state final : σ}
    {log : List (Moment Answer σ)} {outcome : Except ε α} (allowed : ∀ exchange ∈ log.filterMap Moment.asked, good exchange)
    (run : Run env program state log outcome final) :
    Run (env.restrict good) program state log outcome final := by
  induction program generalizing state log with
  | done a => exact run
  | raise error => exact run
  | ask query rest ih =>
      rcases run with ⟨before, here, answer, next, later, moves, called, rfl, run⟩
      have asked : (before ++ ⟨here, some ⟨query, answer⟩⟩ :: later).filterMap Moment.asked =
          ⟨query, answer⟩ :: later.filterMap Moment.asked := by
        rw [List.filterMap_append, moves.silent, List.nil_append]
        rfl
      rw [asked] at allowed
      exact ⟨before, here, answer, next, later, moves.restrict,
        ⟨allowed _ List.mem_cons_self, called⟩, rfl,
        ih answer (fun exchange member => allowed exchange (List.mem_cons_of_mem _ member)) run⟩

/-! ### What holds between two moments of a run -/

section Climbs

variable {program : Interaction Answer ε α} {state middle final : σ} {log later : List (Moment Answer σ)}
  {rel : σ → σ → Prop} [IsPreorder σ rel]

/-- A relation holds from the start to the end, and every moment lies in between. -/
def Climbs (rel : σ → σ → Prop) (state : σ) (log : List (Moment Answer σ)) (final : σ) : Prop :=
  rel state final ∧ ∀ moment ∈ log, rel state moment.state ∧ rel moment.state final

theorem Climbs.nil (state : σ) : Climbs rel state ([] : List (Moment Answer σ)) state :=
  ⟨refl_of rel state, fun _ member => absurd member List.not_mem_nil⟩

theorem Climbs.one {asked : Option (Exchange Answer)} (up : rel state final) :
    Climbs rel state [⟨state, asked⟩] final := by
  refine ⟨up, fun moment member => ?_⟩
  rw [List.mem_singleton.mp member]
  exact ⟨refl_of rel state, up⟩

theorem Climbs.append (first : Climbs rel state log middle) (second : Climbs rel middle later final) :
    Climbs rel state (log ++ later) final := by
  refine ⟨trans_of rel first.1 second.1, fun moment member => ?_⟩
  rcases List.mem_append.mp member with member | member
  · exact ⟨(first.2 moment member).1, trans_of rel (first.2 moment member).2 second.1⟩
  · exact ⟨trans_of rel first.1 (second.2 moment member).1, (second.2 moment member).2⟩

/-- A preorder that every move climbs. -/
theorem Moves.climbs (moved : ∀ before after, env.move before after → rel before after)
    (moves : Moves env state log final) : Climbs rel state log final := by
  induction moves with
  | none state => exact .nil state
  | more step _ ih => exact (Climbs.one (moved _ _ step)).append ih

/-- A preorder that every move and every call climbs, the whole run climbs. -/
theorem Run.climbs (moved : ∀ before after, env.move before after → rel before after)
    (answered : ∀ before exchange after, env.answers before exchange after → rel before after) {outcome : Except ε α}
    (run : Run env program state log outcome final) : Climbs rel state log final := by
  induction program generalizing state log with
  | done a =>
      rcases run with ⟨rfl, _, rfl⟩
      exact .nil _
  | raise error =>
      rcases run with ⟨rfl, _, rfl⟩
      exact .nil _
  | ask query rest ih =>
      rcases run with ⟨before, here, answer, next, later, moves, called, rfl, run⟩
      exact (moves.climbs moved).append ((Climbs.one (answered _ _ _ called)).append (ih answer run))

/-- The exchanges of a run are a trace of the program. -/
theorem Run.trace {outcome : Except ε α} (run : Run env program state log outcome final) :
    program.Trace (log.filterMap Moment.asked) outcome := by
  induction program generalizing state log with
  | done a =>
      rcases run with ⟨rfl, same, _⟩
      exact ⟨rfl, same⟩
  | raise error =>
      rcases run with ⟨rfl, same, _⟩
      exact ⟨rfl, same⟩
  | ask query rest ih =>
      rcases run with ⟨before, here, answer, next, later, moves, _, rfl, run⟩
      refine ⟨answer, _, ?_, ih answer run⟩
      rw [List.filterMap_append, moves.silent, List.nil_append]
      rfl

/-- A preorder that the moves and the exchanges of the program climb. -/
theorem Run.climbs_only {good : Exchange Answer → Prop} {post : α → Prop} (only : Only good program post)
    (moved : ∀ before after, env.move before after → rel before after)
    (answered : ∀ before exchange after, good exchange → env.answers before exchange after → rel before after)
    {outcome : Except ε α} (run : Run env program state log outcome final) : Climbs rel state log final := by
  have restricted : Run (env.restrict good) program state log outcome final := run.restrict (only _ _ run.trace).1
  exact @Run.climbs _ _ _ _ _ (env.restrict good) _ _ _ _ _ _ moved
    (fun before exchange after both => answered before exchange after both.1 both.2) _ restricted

end Climbs

/-! ### Partial correctness -/

section Yields

/-- The others keep it. -/
def Kept (env : Environment Answer σ) (holds : σ → Prop) : Prop :=
  ∀ before after, env.move before after → holds before → holds after

theorem Moves.kept {holds : σ → Prop} (kept : Kept env holds) {state final : σ} {log : List (Moment Answer σ)}
    (moves : Moves env state log final) (start : holds state) : holds final := by
  induction moves with
  | none => exact start
  | more step _ ih => exact ih (kept _ _ step start)

theorem Run.kept {holds : σ → Prop} (kept : Kept env holds)
    (answered : ∀ before exchange after, env.answers before exchange after → holds before → holds after)
    {program : Interaction Answer ε α} {state final : σ} {log : List (Moment Answer σ)} {outcome : Except ε α}
    (run : Run env program state log outcome final) (start : holds state) : holds final := by
  induction program generalizing state log with
  | done a =>
      rcases run with ⟨_, _, rfl⟩
      exact start
  | raise error =>
      rcases run with ⟨_, _, rfl⟩
      exact start
  | ask query rest ih =>
      rcases run with ⟨before, here, answer, next, later, moves, called, _, run⟩
      exact ih answer run (answered _ _ _ called (moves.kept kept start))

/-- A run that starts with `before` and returns ends with `after`. -/
def Yields (env : Environment Answer σ) (before : σ → Prop) (program : Interaction Answer ε α)
    (after : α → σ → Prop) : Prop :=
  ∀ state log a final, before state → Run env program state log (.ok a) final → after a final

variable {before : σ → Prop} {program : Interaction Answer ε α} {after : α → σ → Prop}

theorem yields_done {a : α} (holds : ∀ state, before state → after a state) :
    Yields env before (.done a : Interaction Answer ε α) after := by
  rintro state _ _ _ start ⟨_, same, rfl⟩
  cases same
  exact holds _ start

theorem yields_raise {error : ε} : Yields env before (.raise error : Interaction Answer ε α) after := by
  rintro state _ _ _ _ ⟨_, impossible, _⟩
  exact nomatch impossible

theorem yields_throwIf {condition : Prop} [Decidable condition] {error : ε} :
    Yields env before (throwIf condition error : Interaction Answer ε Unit) fun _ state => ¬ condition ∧ before state := by
  unfold Interaction.throwIf
  split
  · exact yields_raise
  · next passed => exact yields_done fun _ holds => ⟨passed, holds⟩

theorem yields_ask {query : Query} {rest : Answer query → Interaction Answer ε α} (kept : Kept env before)
    (later : ∀ answer, Yields env (fun next => ∃ here, before here ∧ env.answers here ⟨query, answer⟩ next) (rest answer)
      after) : Yields env before (.ask query rest) after := by
  rintro state _ a final start ⟨_, here, answer, next, behind, moves, answered, rfl, run⟩
  exact later answer next behind a final ⟨here, moves.kept kept start, answered⟩ run

theorem Yields.bind {next : α → Interaction Answer ε β} {final : β → σ → Prop} (first : Yields env before program after)
    (rest : ∀ a, Yields env (after a) (next a) final) : Yields env before (program >>= next) final := by
  intro state log b last start run
  rcases run_bind_ok run with ⟨a, _, middle, later, rfl, ran, run⟩
  exact rest a middle later b last (first state _ a middle start ran) run

theorem Yields.weaken {stronger : α → σ → Prop} (yields : Yields env before program stronger)
    (weaker : ∀ a state, stronger a state → after a state) : Yields env before program after :=
  fun state log a final start run => weaker a final (yields state log a final start run)

theorem Yields.strengthen {weaker : σ → Prop} (yields : Yields env weaker program after)
    (stronger : ∀ state, before state → weaker state) : Yields env before program after :=
  fun state log a final start run => yields state log a final (stronger state start) run

/-- What a caught program returns, and anything where it raises. -/
theorem Yields.attempt {raised : ε → σ → Prop} (yields : Yields env before program after)
    (fails : ∀ state log error final, before state → Run env program state log (.error error) final → raised error final) :
    Yields env before program.attempt fun result state => match result with
      | .ok a => after a state
      | .error error => raised error state := by
  intro state log result final start run
  rcases run_attempt.mp run with ⟨_, same, ran⟩
  cases same
  cases result with
  | ok a => exact yields state log a final start ran
  | error error => exact fails state log error final start ran

/-- A program of which every exchange keeps an assertion. -/
theorem Only.yields {good : Exchange Answer → Prop} {post : α → Prop} {holds : σ → Prop} (only : Only good program post)
    (kept : Kept env holds)
    (answered : ∀ before exchange after, good exchange → env.answers before exchange after → holds before → holds after) :
    Yields env holds program fun a state => post a ∧ holds state := by
  intro state log a final start run
  have trace := only _ _ run.trace
  have restricted : Run (env.restrict good) program state log (.ok a) final := run.restrict trace.1
  have keptRestricted : Kept (env.restrict good) holds := kept
  refine ⟨trace.2 a rfl, restricted.kept keptRestricted ?_ start⟩
  exact fun before exchange after both => answered before exchange after both.1 both.2

/-- A cleanup that keeps what the block has reached. -/
theorem Yields.finally_ {cleanup : Interaction Answer ε Unit} (yields : Yields env before program after)
    (cleans : ∀ a, Yields env (after a) cleanup fun _ => after a) : Yields env before (finally_ program cleanup) after := by
  intro state log a final start run
  rcases run_finally run with ⟨first, middle, later, rfl, ran, cleaned⟩
  exact cleans a middle later () final (yields state first a middle start ran) cleaned

/-- A fact that does not depend on the state. -/
theorem yields_fact {fact : Prop} (yields : fact → Yields env before program after) :
    Yields env (fun state => fact ∧ before state) program after :=
  fun state log a final start run => yields start.1 state log a final start.2 run

end Yields

/-! ### Stamps -/

section Stamps

variable {ν : Type} {stamp clock : σ → Nat} {view : σ → ν}

/-- A step leaves a quantity and its stamp alone, or puts a stamp on it that is later than the clock. -/
def Restamps (stamp clock : σ → Nat) (view : σ → ν) (before after : σ) : Prop :=
  (stamp after = stamp before ∧ view after = view before) ∨ clock before < stamp after

/-- No stamp is older, and the same stamp stands for the same quantity. -/
def SinceStamp (stamp : σ → Nat) (view : σ → ν) (before after : σ) : Prop :=
  stamp before ≤ stamp after ∧ (stamp after = stamp before → view after = view before)

instance : IsPreorder σ (SinceStamp stamp view) where
  refl _ := ⟨Nat.le_refl _, fun _ => rfl⟩
  trans _ _ _ first second := by
    refine ⟨Nat.le_trans first.1 second.1, fun same => ?_⟩
    have middle := Nat.le_antisymm (same ▸ second.1) first.1
    rw [second.2 (same.trans middle.symm), first.2 middle]

theorem Restamps.since {before after : σ} (bound : stamp before ≤ clock before)
    (restamps : Restamps stamp clock view before after) : SinceStamp stamp view before after := by
  rcases restamps with ⟨same, unchanged⟩ | later
  · exact ⟨Nat.le_of_eq same.symm, fun _ => unchanged⟩
  · have older := Nat.lt_of_le_of_lt bound later
    exact ⟨Nat.le_of_lt older, fun same => absurd same (Nat.ne_of_gt older)⟩

/-- Where the stamp at the end is the stamp at the start, the quantity was the same all the time. -/
theorem Climbs.unchanged {state final : σ} {log : List (Moment Answer σ)}
    (climbs : Climbs (SinceStamp stamp view) state log final) (same : stamp final = stamp state) :
    ∀ moment ∈ log, view moment.state = view state := by
  intro moment member
  have around := climbs.2 moment member
  exact around.1.2 (Nat.le_antisymm (same ▸ around.2.1) around.1.1)

end Stamps

end ExitfyCores.Interaction
