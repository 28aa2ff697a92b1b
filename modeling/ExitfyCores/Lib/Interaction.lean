/-
Module: ExitfyCores.Lib.Interaction
Layer: Lib
Purpose: Programs that ask their environment and end with a value or an error: what they can exchange with any
  environment, how they run in one, and the rules for what an exchange finds in its past.
Imports: ExitfyCores.Lib.History, Mathlib.Data.List.Forall2
Trusted boundary: none
Main exports: Exchange, Interaction, Interaction.attempt, finally_, Trace, trace_bind, session, Ends, Reaches, Only, Guards and
  their rules
Open obligations: none
-/
import ExitfyCores.Lib.History
import Mathlib.Data.List.Forall2

namespace ExitfyCores

open History

/-- A question and its answer. -/
structure Exchange {Query : Type} (Answer : Query → Type) where
  query : Query
  answer : Answer query

/-- A program that asks its environment and ends with a value or an error. -/
inductive Interaction {Query : Type} (Answer : Query → Type) (ε α : Type) where
  | done (a : α)
  | raise (error : ε)
  | ask (query : Query) (next : Answer query → Interaction Answer ε α)

namespace Interaction

variable {Query : Type} {Answer : Query → Type} {ε α β σ : Type}

def bind (program : Interaction Answer ε α) (next : α → Interaction Answer ε β) : Interaction Answer ε β :=
  match program with
  | .done a => next a
  | .raise error => .raise error
  | .ask query rest => .ask query fun answer => (rest answer).bind next

instance : Monad (Interaction Answer ε) where
  pure := .done
  bind := .bind

@[simp] theorem done_bind (a : α) (next : α → Interaction Answer ε β) : (.done a >>= next) = next a := rfl

@[simp] theorem raise_bind (error : ε) (next : α → Interaction Answer ε β) :
    ((.raise error : Interaction Answer ε α) >>= next) = .raise error := rfl

@[simp] theorem ask_bind (query : Query) (rest : Answer query → Interaction Answer ε α)
    (next : α → Interaction Answer ε β) :
    (.ask query rest >>= next) = .ask query fun answer => rest answer >>= next := rfl

@[simp] theorem pure_eq (a : α) : (pure a : Interaction Answer ε α) = .done a := rfl

theorem bind_done (program : Interaction Answer ε α) : (program >>= fun a => .done a) = program := by
  induction program with
  | done a => rfl
  | raise error => rfl
  | ask query rest ih => exact congrArg (Interaction.ask query) (funext ih)

theorem bind_assoc {γ : Type} (program : Interaction Answer ε α) (next : α → Interaction Answer ε β)
    (last : β → Interaction Answer ε γ) : (program >>= next >>= last) = program >>= fun a => next a >>= last := by
  induction program with
  | done a => rfl
  | raise error => rfl
  | ask query rest ih => exact congrArg (Interaction.ask query) (funext ih)

instance : LawfulMonad (Interaction Answer ε) :=
  LawfulMonad.mk' _ bind_done (fun _ _ => rfl) bind_assoc

/-- A computation that asks nothing. -/
def ofExcept : Except ε α → Interaction Answer ε α
  | .ok a => .done a
  | .error error => .raise error

@[simp] theorem ofExcept_ok (a : α) : (ofExcept (.ok a) : Interaction Answer ε α) = .done a := rfl

@[simp] theorem ofExcept_error (error : ε) : (ofExcept (.error error) : Interaction Answer ε α) = .raise error := rfl

/-- `raise` under a condition. -/
def throwIf (condition : Prop) [Decidable condition] (error : ε) : Interaction Answer ε Unit :=
  if condition then .raise error else .done ()

/-- `try: … except`, the outcome as a value. -/
def attempt (program : Interaction Answer ε α) : Interaction Answer ε (Except ε α) :=
  match program with
  | .done a => .done (.ok a)
  | .raise error => .done (.error error)
  | .ask query rest => .ask query fun answer => (rest answer).attempt

/-- `try: … finally: …` -/
def finally_ (program : Interaction Answer ε α) (cleanup : Interaction Answer ε Unit) : Interaction Answer ε α := do
  let outcome ← program.attempt
  cleanup
  ofExcept outcome

/-! ### Traces -/

/-- What a program can exchange until it ends, and how it ends. -/
def Trace (program : Interaction Answer ε α) (log : List (Exchange Answer)) (outcome : Except ε α) : Prop :=
  match program with
  | .done a => log = [] ∧ outcome = .ok a
  | .raise error => log = [] ∧ outcome = .error error
  | .ask query rest => ∃ answer later, log = ⟨query, answer⟩ :: later ∧ (rest answer).Trace later outcome

@[simp] theorem trace_done {a : α} {log : List (Exchange Answer)} {outcome : Except ε α} :
    (.done a : Interaction Answer ε α).Trace log outcome ↔ log = [] ∧ outcome = .ok a := Iff.rfl

@[simp] theorem trace_raise {error : ε} {log : List (Exchange Answer)} {outcome : Except ε α} :
    (.raise error : Interaction Answer ε α).Trace log outcome ↔ log = [] ∧ outcome = .error error := Iff.rfl

@[simp] theorem trace_ask {query : Query} {rest : Answer query → Interaction Answer ε α}
    {log : List (Exchange Answer)} {outcome : Except ε α} :
    (.ask query rest : Interaction Answer ε α).Trace log outcome ↔
      ∃ answer later, log = ⟨query, answer⟩ :: later ∧ (rest answer).Trace later outcome := Iff.rfl

/-- A sequence ends in its first part with an error, or goes on behind it. -/
theorem trace_bind {program : Interaction Answer ε α} {next : α → Interaction Answer ε β}
    {log : List (Exchange Answer)} {outcome : Except ε β} :
    (program >>= next).Trace log outcome ↔
      (∃ error, program.Trace log (.error error) ∧ outcome = .error error) ∨
        ∃ a first later, log = first ++ later ∧ program.Trace first (.ok a) ∧ (next a).Trace later outcome := by
  induction program generalizing log with
  | done a =>
      constructor
      · intro trace
        exact Or.inr ⟨a, [], log, rfl, ⟨rfl, rfl⟩, trace⟩
      · intro parts
        rcases parts with ⟨_, ⟨_, impossible⟩, _⟩ | ⟨_, _, _, rfl, ⟨rfl, same⟩, trace⟩
        · cases impossible
        · cases same
          exact trace
  | raise error =>
      constructor
      · intro trace
        exact Or.inl ⟨error, ⟨trace.1, rfl⟩, trace.2⟩
      · intro parts
        rcases parts with ⟨_, ⟨rfl, same⟩, rfl⟩ | ⟨_, _, _, _, ⟨_, impossible⟩, _⟩
        · cases same
          exact ⟨rfl, rfl⟩
        · cases impossible
  | ask query rest ih =>
      simp only [ask_bind, trace_ask]
      constructor
      · intro trace
        obtain ⟨answer, later, rfl, trace⟩ := trace
        rcases (ih answer).mp trace with ⟨error, failed, rfl⟩ | ⟨a, first, last, rfl, returned, trace⟩
        · exact Or.inl ⟨error, ⟨answer, later, rfl, failed⟩, rfl⟩
        · exact Or.inr ⟨a, _, last, rfl, ⟨answer, first, rfl, returned⟩, trace⟩
      · intro parts
        rcases parts with ⟨error, ⟨answer, later, rfl, failed⟩, rfl⟩ | ⟨a, _, last, rfl, ⟨answer, first, rfl, returned⟩, trace⟩
        · exact ⟨answer, later, rfl, (ih answer).mpr (Or.inl ⟨error, failed, rfl⟩)⟩
        · exact ⟨answer, first ++ last, rfl, (ih answer).mpr (Or.inr ⟨a, first, last, rfl, returned, trace⟩)⟩

@[simp] theorem trace_ofExcept {value outcome : Except ε α} {log : List (Exchange Answer)} :
    (ofExcept value : Interaction Answer ε α).Trace log outcome ↔ log = [] ∧ outcome = value := by
  cases value <;> simp

/-- A caught program exchanges what it exchanges uncaught. -/
@[simp] theorem trace_attempt {program : Interaction Answer ε α} {log : List (Exchange Answer)}
    {outcome : Except ε (Except ε α)} :
    program.attempt.Trace log outcome ↔ ∃ result, outcome = .ok result ∧ program.Trace log result := by
  induction program generalizing log with
  | done a =>
      simp only [attempt, trace_done]
      constructor
      · intro trace
        exact ⟨.ok a, trace.2, trace.1, rfl⟩
      · intro parts
        obtain ⟨result, rfl, empty, rfl⟩ := parts
        exact ⟨empty, rfl⟩
  | raise error =>
      simp only [attempt, trace_done, trace_raise]
      constructor
      · intro trace
        exact ⟨.error error, trace.2, trace.1, rfl⟩
      · intro parts
        obtain ⟨result, rfl, empty, rfl⟩ := parts
        exact ⟨empty, rfl⟩
  | ask query rest ih =>
      simp only [attempt, trace_ask]
      constructor
      · intro trace
        obtain ⟨answer, later, rfl, trace⟩ := trace
        obtain ⟨result, caught, behind⟩ := (ih answer).mp trace
        exact ⟨result, caught, answer, later, rfl, behind⟩
      · intro parts
        obtain ⟨result, rfl, answer, later, rfl, trace⟩ := parts
        exact ⟨answer, later, rfl, (ih answer).mpr ⟨result, rfl, trace⟩⟩

/-! ### Sessions -/

/-- A finished run in an environment: what was exchanged, how the program ended, and the environment behind it. -/
structure Session {Query : Type} (Answer : Query → Type) (ε α σ : Type) where
  log : List (Exchange Answer)
  outcome : Except ε α
  environment : σ

/-- The run of a program in an environment that answers from a state. -/
def session (respond : (query : Query) → σ → Answer query × σ) (program : Interaction Answer ε α) (state : σ) :
    Session Answer ε α σ :=
  match program with
  | .done a => ⟨[], .ok a, state⟩
  | .raise error => ⟨[], .error error, state⟩
  | .ask query rest =>
      let (answer, state) := respond query state
      let behind := session respond (rest answer) state
      { behind with log := ⟨query, answer⟩ :: behind.log }

variable {respond : (query : Query) → σ → Answer query × σ}

@[simp] theorem session_done (a : α) (state : σ) :
    session respond (.done a : Interaction Answer ε α) state = ⟨[], .ok a, state⟩ := rfl

/-- What a run exchanges is a trace of its program. -/
theorem trace_session (program : Interaction Answer ε α) (state : σ) :
    program.Trace (session respond program state).log (session respond program state).outcome := by
  induction program generalizing state with
  | done a => exact ⟨rfl, rfl⟩
  | raise error => exact ⟨rfl, rfl⟩
  | ask query rest ih => exact ⟨_, _, rfl, ih _ _⟩

/-- How a program ends in an environment. -/
def Ends (respond : (query : Query) → σ → Answer query × σ) (program : Interaction Answer ε α) (state : σ)
    (outcome : Except ε α) (final : σ) : Prop :=
  (session respond program state).outcome = outcome ∧ (session respond program state).environment = final

theorem ends_done {a : α} {state : σ} : Ends respond (.done a : Interaction Answer ε α) state (.ok a) state :=
  ⟨rfl, rfl⟩

theorem ends_ask {query : Query} {rest : Answer query → Interaction Answer ε α} {answer : Answer query}
    {state next final : σ} {outcome : Except ε α} (answered : respond query state = (answer, next))
    (ended : Ends respond (rest answer) next outcome final) : Ends respond (.ask query rest) state outcome final := by
  unfold Ends session
  rw [answered]
  exact ended

theorem Ends.bind {program : Interaction Answer ε α} {next : α → Interaction Answer ε β} {a : α}
    {state middle final : σ} {outcome : Except ε β} (first : Ends respond program state (.ok a) middle)
    (rest : Ends respond (next a) middle outcome final) : Ends respond (program >>= next) state outcome final := by
  induction program generalizing state with
  | done b =>
      obtain ⟨same, stays⟩ := first
      cases same
      cases stays
      exact rest
  | raise error => cases first.1
  | ask query more ih => exact ih _ first

theorem Ends.attempt {program : Interaction Answer ε α} {state final : σ} {outcome : Except ε α}
    (ended : Ends respond program state outcome final) : Ends respond program.attempt state (.ok outcome) final := by
  induction program generalizing state with
  | done a =>
      obtain ⟨rfl, rfl⟩ := ended
      exact ends_done
  | raise error =>
      obtain ⟨rfl, rfl⟩ := ended
      exact ends_done
  | ask query rest ih => exact ih _ ended

theorem ends_throwIf {condition : Prop} [Decidable condition] {error : ε} {state : σ} (fails : ¬ condition) :
    Ends respond (throwIf condition error : Interaction Answer ε Unit) state (.ok ()) state := by
  rw [throwIf, if_neg fails]
  exact ends_done

/-- A loop that moves the environment item by item. -/
theorem ends_forM {body : α → Interaction Answer ε PUnit} {items : List α} {after : List α → σ}
    (turn : ∀ before a rest, items = before ++ a :: rest →
      Ends respond (body a) (after before) (.ok ()) (after (before ++ [a]))) :
    Ends respond (items.forM body) (after []) (.ok ()) (after items) := by
  have loop : ∀ rest before, items = before ++ rest →
      Ends respond (rest.forM body) (after before) (.ok ()) (after items) := by
    intro rest
    induction rest with
    | nil =>
        intro before all
        rw [all, List.append_nil]
        exact ends_done
    | cons a rest ih =>
        intro before all
        exact Ends.bind (turn before a rest all) (ih (before ++ [a]) (by simp [all]))
  exact loop items [] rfl

/-- A loop that collects one result per item and leaves the environment as it is. -/
theorem ends_mapM {body : α → Interaction Answer ε β} {result : α → β} {items : List α} {state : σ}
    (turn : ∀ a ∈ items, Ends respond (body a) state (.ok (result a)) state) :
    Ends respond (items.mapM body) state (.ok (items.map result)) state := by
  induction items with
  | nil => exact ends_done
  | cons a rest ih =>
      rw [List.mapM_cons]
      apply Ends.bind (turn a List.mem_cons_self)
      apply Ends.bind (ih fun other member => turn other (List.mem_cons_of_mem a member))
      exact ends_done

/-! ### Runs that are cut short -/

/-- A state in which a run of the program can be left, where an exchange moves the environment by a relation. -/
inductive Reaches (moves : σ → Exchange Answer → σ → Prop) : Interaction Answer ε α → σ → σ → Prop where
  | stop (program : Interaction Answer ε α) (state : σ) : Reaches moves program state state
  | step {query : Query} {rest : Answer query → Interaction Answer ε α} {answer : Answer query}
      {state next final : σ} (moved : moves state ⟨query, answer⟩ next) (later : Reaches moves (rest answer) next final) :
      Reaches moves (.ask query rest) state final

/-- What every exchange keeps, every run keeps wherever it is left. -/
theorem Reaches.invariant {moves : σ → Exchange Answer → σ → Prop} {invariant : σ → Prop}
    (kept : ∀ state exchange next, invariant state → moves state exchange next → invariant next)
    {program : Interaction Answer ε α} {state final : σ} (reached : Reaches moves program state final)
    (initially : invariant state) : invariant final := by
  induction reached with
  | stop => exact initially
  | step moved _ ih => exact ih (kept _ _ _ initially moved)

/-! ### What a program exchanges at all -/

/-- Every exchange is good, and a value is returned with `post`. -/
def Only (good : Exchange Answer → Prop) (program : Interaction Answer ε α) (post : α → Prop) : Prop :=
  ∀ log outcome, program.Trace log outcome → (∀ exchange ∈ log, good exchange) ∧ ∀ a, outcome = .ok a → post a

section

variable {good : Exchange Answer → Prop} {program : Interaction Answer ε α} {post : α → Prop}

theorem only_done {a : α} (holds : post a) : Only good (.done a : Interaction Answer ε α) post := by
  intro log outcome trace
  obtain ⟨rfl, rfl⟩ := trace
  refine ⟨by simp, ?_⟩
  intro _ same
  cases same
  exact holds

theorem only_raise {error : ε} : Only good (.raise error : Interaction Answer ε α) post := by
  intro log outcome trace
  obtain ⟨rfl, rfl⟩ := trace
  exact ⟨by simp, fun _ impossible => nomatch impossible⟩

theorem only_ofExcept {value : Except ε α} (holds : ∀ a, value = .ok a → post a) :
    Only good (ofExcept value : Interaction Answer ε α) post := by
  cases value with
  | ok a => exact only_done (holds a rfl)
  | error error => exact only_raise

theorem only_ask {query : Query} {rest : Answer query → Interaction Answer ε α}
    (asked : ∀ answer, good ⟨query, answer⟩) (later : ∀ answer, Only good (rest answer) post) :
    Only good (.ask query rest) post := by
  intro log outcome trace
  obtain ⟨answer, behind, rfl, trace⟩ := trace
  obtain ⟨goodAll, returned⟩ := later answer behind outcome trace
  exact ⟨List.forall_mem_cons.mpr ⟨asked answer, goodAll⟩, returned⟩

theorem Only.bind {next : α → Interaction Answer ε β} {final : β → Prop} (first : Only good program post)
    (rest : ∀ a, post a → Only good (next a) final) : Only good (program >>= next) final := by
  intro log outcome trace
  rcases trace_bind.mp trace with ⟨error, failed, rfl⟩ | ⟨a, early, late, rfl, returned, trace⟩
  · exact ⟨(first log _ failed).1, fun _ impossible => nomatch impossible⟩
  · obtain ⟨goodEarly, holds⟩ := first early _ returned
    obtain ⟨goodLate, result⟩ := rest a (holds a rfl) late outcome trace
    exact ⟨List.forall_mem_append.mpr ⟨goodEarly, goodLate⟩, result⟩

theorem Only.attempt (only : Only good program post) :
    Only good program.attempt fun result => ∀ a, result = .ok a → post a := by
  intro log outcome trace
  obtain ⟨result, caught, behind⟩ := trace_attempt.mp trace
  obtain ⟨goodAll, holds⟩ := only log result behind
  refine ⟨goodAll, ?_⟩
  intro _ same
  rw [caught] at same
  cases same
  exact holds

theorem only_mapM {body : α → Interaction Answer ε β} {each : α → β → Prop} {items : List α}
    (turn : ∀ a ∈ items, Only good (body a) (each a)) :
    Only good (items.mapM body) (List.Forall₂ each items) := by
  induction items with
  | nil => exact only_done List.Forall₂.nil
  | cons a rest ih =>
      rw [List.mapM_cons]
      apply Only.bind (turn a List.mem_cons_self)
      intro b first
      apply Only.bind (ih fun other member => turn other (List.mem_cons_of_mem a member))
      intro later others
      exact only_done (List.Forall₂.cons first others)

end

/-! ### What an exchange finds in its past -/

/-- From a past with `before`, every exchange of the program is allowed by what came before it, and a value is returned
with `after`. -/
def Guards (allowed : List (Exchange Answer) → Exchange Answer → Prop) (before : List (Exchange Answer) → Prop)
    (program : Interaction Answer ε α) (after : α → List (Exchange Answer) → Prop) : Prop :=
  ∀ past log outcome, before past → History.Guarded allowed past → program.Trace log outcome →
    History.Guarded allowed (past ++ log) ∧ ∀ a, outcome = .ok a → after a (past ++ log)

section

variable {allowed : List (Exchange Answer) → Exchange Answer → Prop} {before : List (Exchange Answer) → Prop}
  {program : Interaction Answer ε α} {after : α → List (Exchange Answer) → Prop}

theorem guards_done {a : α} (holds : ∀ past, before past → after a past) :
    Guards allowed before (.done a : Interaction Answer ε α) after := by
  intro past log outcome start guarded trace
  obtain ⟨rfl, rfl⟩ := trace
  rw [List.append_nil]
  refine ⟨guarded, ?_⟩
  intro _ same
  cases same
  exact holds past start

theorem guards_raise {error : ε} : Guards allowed before (.raise error : Interaction Answer ε α) after := by
  intro past log outcome _ guarded trace
  obtain ⟨rfl, rfl⟩ := trace
  rw [List.append_nil]
  exact ⟨guarded, fun _ impossible => nomatch impossible⟩

theorem guards_ofExcept {value : Except ε α} (holds : ∀ a, value = .ok a → ∀ past, before past → after a past) :
    Guards allowed before (ofExcept value : Interaction Answer ε α) after := by
  cases value with
  | ok a => exact guards_done (holds a rfl)
  | error error => exact guards_raise

theorem Guards.weaken {stronger : α → List (Exchange Answer) → Prop} (guards : Guards allowed before program stronger)
    (weaken : ∀ a past, stronger a past → after a past) : Guards allowed before program after := by
  intro past log outcome start guarded trace
  obtain ⟨allowedAll, result⟩ := guards past log outcome start guarded trace
  exact ⟨allowedAll, fun a same => weaken a _ (result a same)⟩

theorem Guards.strengthen {weaker : List (Exchange Answer) → Prop} (guards : Guards allowed weaker program after)
    (strengthen : ∀ past, before past → weaker past) : Guards allowed before program after :=
  fun past log outcome start => guards past log outcome (strengthen past start)

/-- A fact that has nothing to do with the past can be used at once. -/
theorem guards_fact {fact : Prop} (guards : fact → Guards allowed before program after) :
    Guards allowed (fun past => before past ∧ fact) program after :=
  fun past log outcome start => guards start.2 past log outcome start.1

theorem Guards.bind {next : α → Interaction Answer ε β} {final : β → List (Exchange Answer) → Prop}
    (first : Guards allowed before program after) (rest : ∀ a, Guards allowed (after a) (next a) final) :
    Guards allowed before (program >>= next) final := by
  intro past log outcome start guarded trace
  rcases trace_bind.mp trace with ⟨error, failed, rfl⟩ | ⟨a, early, late, rfl, returned, trace⟩
  · obtain ⟨allowedAll, _⟩ := first past log _ start guarded failed
    exact ⟨allowedAll, fun _ impossible => nomatch impossible⟩
  · obtain ⟨allowedEarly, middle⟩ := first past early _ start guarded returned
    rw [← List.append_assoc]
    exact rest a (past ++ early) late outcome (middle a rfl) allowedEarly trace

/-- A question, and what goes on with its answer. -/
theorem guards_ask {query : Query} {rest : Answer query → Interaction Answer ε α}
    (permitted : ∀ past answer, before past → allowed past ⟨query, answer⟩)
    (later : ∀ answer, Guards allowed (fun now => ∃ past, before past ∧ now = past ++ [⟨query, answer⟩])
      (rest answer) after) : Guards allowed before (.ask query rest) after := by
  intro past log outcome start guarded trace
  obtain ⟨answer, behind, rfl, trace⟩ := trace
  have asked := (guarded_append past _).mpr ⟨guarded, permitted past answer start⟩
  have run := later answer (past ++ [⟨query, answer⟩]) behind outcome ⟨past, start, rfl⟩ asked trace
  simpa using run

/-- A check that does not raise. -/
theorem guards_check {condition : Prop} [Decidable condition] {error : ε} {next : Interaction Answer ε α}
    (rest : ¬ condition → Guards allowed before next after) :
    Guards allowed before (throwIf condition error >>= fun _ => next) after := by
  unfold throwIf
  split
  · exact guards_raise
  · next fails => exact rest fails

/-- A program that returned has been traced. -/
theorem Guards.traced (guards : Guards allowed before program after) :
    Guards allowed before program fun a past =>
      after a past ∧ ∃ early segment, past = early ++ segment ∧ before early ∧ program.Trace segment (.ok a) := by
  intro past log outcome start guarded trace
  obtain ⟨allowedAll, result⟩ := guards past log outcome start guarded trace
  refine ⟨allowedAll, ?_⟩
  intro a same
  exact ⟨result a same, past, log, rfl, start, same ▸ trace⟩

/-- A fact about the past that more exchanges leave true. -/
def Stable (fact : List (Exchange Answer) → Prop) : Prop := ∀ past more, fact past → fact (past ++ more)

theorem Guards.stable (guards : Guards allowed before program after) (lasting : Stable before) :
    Guards allowed before program fun a past => after a past ∧ before past :=
  guards.traced.weaken fun _ _ parts => by
    obtain ⟨holds, early, segment, rfl, start, _⟩ := parts
    exact ⟨holds, lasting early segment start⟩

/-- Where good exchanges are always allowed, a program that makes no others leaves a lasting fact as it is. -/
theorem Only.guards {good : Exchange Answer → Prop} {post : α → Prop} (only : Only good program post)
    (permitted : ∀ past exchange, good exchange → allowed past exchange) (lasting : Stable before) :
    Guards allowed before program fun a past => post a ∧ before past := by
  intro past log outcome start guarded trace
  obtain ⟨goodAll, returned⟩ := only log outcome trace
  refine ⟨?_, fun a same => ⟨returned a same, lasting past log start⟩⟩
  intro early exchange later split
  rcases List.append_eq_append_iff.mp split with ⟨middle, rfl, tail⟩ | ⟨middle, rfl, tail⟩
  · exact permitted _ exchange (goodAll exchange (by simp [tail]))
  · cases middle with
    | nil =>
        have member : exchange ∈ log := by
          rw [List.nil_append] at tail
          rw [← tail]
          exact List.mem_cons_self
        exact permitted _ exchange (goodAll exchange member)
    | cons head middle =>
        obtain ⟨rfl, rfl⟩ := List.cons.inj tail
        exact guarded early exchange middle rfl

theorem guards_forM {body : α → Interaction Answer ε PUnit} {items : List α}
    (turn : ∀ a ∈ items, Guards allowed before (body a) fun _ => before) :
    Guards allowed before (items.forM body) fun _ => before := by
  induction items with
  | nil => exact guards_done fun _ start => start
  | cons a rest ih =>
      apply Guards.bind (turn a List.mem_cons_self)
      intro _
      exact ih fun other member => turn other (List.mem_cons_of_mem a member)

/-- A whole run from no past. -/
theorem Guards.guarded (guards : Guards allowed (fun _ => True) program after) {log : List (Exchange Answer)}
    {outcome : Except ε α} (trace : program.Trace log outcome) : History.Guarded allowed log := by
  have run := guards [] log outcome trivial guarded_nil trace
  exact run.1

end

end Interaction

end ExitfyCores
