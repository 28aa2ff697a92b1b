/-
Module: ExitfyCores.Lib.Moments
Layer: Library
Purpose: What holds at every moment of a run of a program among others, wherever it may be cut off, and how the run
  ends, with a value or with an error.
Imports: ExitfyCores.Lib.Interleaving
Trusted boundary: none
Main exports: Throughout, EndsWith, throughout_ask, Throughout.bind, Throughout.andThen, Throughout.attempt_bind,
  Only.throughout, run_session
Open obligations: none
-/
import ExitfyCores.Lib.Interleaving

namespace ExitfyCores.Interaction

variable {Query : Type} {Answer : Query → Type} {ε α β σ : Type}

/-- From `before` on, `always` holds at every moment of a run, and the run ends with `after`. -/
def Throughout (env : Environment Answer σ) (always : σ → Prop) (before : σ → Prop) (program : Interaction Answer ε α)
    (after : Except ε α → σ → Prop) : Prop :=
  ∀ state log outcome final, before state → Run env program state log outcome final →
    (∀ moment ∈ log, always moment.state) ∧ after outcome final

/-- How a run ends: with a value, or with an error. -/
def EndsWith (returned : α → σ → Prop) (raised : σ → Prop) : Except ε α → σ → Prop
  | .ok a => returned a
  | .error _ => raised

variable {env : Environment Answer σ} {always before : σ → Prop} {program : Interaction Answer ε α}
  {after : Except ε α → σ → Prop}

theorem Throughout.weaken {more : Except ε α → σ → Prop} (throughout : Throughout env always before program after)
    (weaker : ∀ outcome state, after outcome state → more outcome state) :
    Throughout env always before program more := by
  intro state log outcome final start run
  obtain ⟨moments, ends⟩ := throughout state log outcome final start run
  exact ⟨moments, weaker outcome final ends⟩

theorem Throughout.strengthen {weaker : σ → Prop} (throughout : Throughout env always weaker program after)
    (stronger : ∀ state, before state → weaker state) : Throughout env always before program after :=
  fun state log outcome final start run => throughout state log outcome final (stronger state start) run

theorem throughout_exists {ι : Type} {cases : ι → σ → Prop}
    (each : ∀ i, Throughout env always (cases i) program after) :
    Throughout env always (fun state => ∃ i, cases i state) program after := by
  rintro state log outcome final ⟨i, start⟩ run
  exact each i state log outcome final start run

theorem Throughout.or {other : σ → Prop} (first : Throughout env always before program after)
    (second : Throughout env always other program after) :
    Throughout env always (fun state => before state ∨ other state) program after := by
  rintro state log outcome final (start | start) run
  · exact first state log outcome final start run
  · exact second state log outcome final start run

/-- A fact that has nothing to do with the state can be used at once. -/
theorem throughout_fact {fact : Prop} (holds : fact → Throughout env always before program after) :
    Throughout env always (fun state => fact ∧ before state) program after :=
  fun state log outcome final start run => holds start.1 state log outcome final start.2 run

theorem throughout_done {a : α} (holds : ∀ state, before state → after (.ok a) state) :
    Throughout env always before (.done a) after := by
  rintro state log outcome final start ⟨rfl, rfl, rfl⟩
  exact ⟨fun _ member => absurd member List.not_mem_nil, holds _ start⟩

theorem throughout_raise {error : ε} (holds : ∀ state, before state → after (.error error) state) :
    Throughout env always before (.raise error) after := by
  rintro state log outcome final start ⟨rfl, rfl, rfl⟩
  exact ⟨fun _ member => absurd member List.not_mem_nil, holds _ start⟩

theorem throughout_throwIf {condition : Prop} [Decidable condition] {error : ε} {after : Except ε Unit → σ → Prop}
    (thrown : condition → ∀ state, before state → after (.error error) state)
    (passed : ¬ condition → ∀ state, before state → after (.ok ()) state) :
    Throughout env always before (throwIf condition error : Interaction Answer ε Unit) after := by
  unfold Interaction.throwIf
  split
  · next holds => exact throughout_raise (thrown holds)
  · next fails => exact throughout_done (passed fails)

/-- Others keep what holds in front of a call. -/
theorem Moves.moments (kept : Kept env before) (implied : ∀ state, before state → always state) {state final : σ}
    {log : List (Moment Answer σ)} (moves : Moves env state log final) (start : before state) :
    (∀ moment ∈ log, always moment.state) ∧ before final := by
  induction moves with
  | none state => exact ⟨fun _ member => absurd member List.not_mem_nil, start⟩
  | more step _ ih =>
      obtain ⟨moments, ends⟩ := ih (kept _ _ step start)
      exact ⟨List.forall_mem_cons.mpr ⟨implied _ start, moments⟩, ends⟩

theorem throughout_ask {query : Query} {rest : Answer query → Interaction Answer ε α} (kept : Kept env before)
    (implied : ∀ state, before state → always state)
    (later : ∀ answer, Throughout env always
      (fun next => ∃ here, before here ∧ env.answers here ⟨query, answer⟩ next) (rest answer) after) :
    Throughout env always before (.ask query rest) after := by
  rintro state log outcome final start ⟨early, here, answer, next, behind, moves, answered, rfl, run⟩
  obtain ⟨moments, held⟩ := moves.moments kept implied start
  obtain ⟨others, ends⟩ := later answer next behind outcome final ⟨here, held, answered⟩ run
  refine ⟨fun moment member => ?_, ends⟩
  rcases List.mem_append.mp member with among | among
  · exact moments moment among
  · rcases List.mem_cons.mp among with rfl | among
    · exact implied here held
    · exact others moment among

theorem Throughout.bind {next : α → Interaction Answer ε β} {middle : Except ε α → σ → Prop}
    {after : Except ε β → σ → Prop} (first : Throughout env always before program middle)
    (raised : ∀ error state, middle (.error error) state → after (.error error) state)
    (rest : ∀ a, Throughout env always (middle (.ok a)) (next a) after) :
    Throughout env always before (program >>= next) after := by
  intro state log outcome final start run
  rcases run_bind.mp run with ⟨error, failed, rfl⟩ | ⟨a, early, between, late, rfl, returned, run⟩
  · obtain ⟨moments, ends⟩ := first state log _ final start failed
    exact ⟨moments, raised error final ends⟩
  · obtain ⟨moments, holds⟩ := first state early _ between start returned
    obtain ⟨others, ends⟩ := rest a between late outcome final holds run
    exact ⟨List.forall_mem_append.mpr ⟨moments, others⟩, ends⟩

theorem Throughout.endsWith {holds : σ → Prop} (throughout : Throughout env always before program fun _ => holds) :
    Throughout env always before program (EndsWith (fun _ => holds) holds) := by
  apply throughout.weaken
  rintro (error | a) state ended
  · exact ended
  · exact ended

/-- Two programs that end in the same way where they raise. -/
theorem Throughout.andThen {next : α → Interaction Answer ε β} {returned : α → σ → Prop} {raised : σ → Prop}
    {last : β → σ → Prop} (first : Throughout env always before program (EndsWith returned raised))
    (rest : ∀ a, Throughout env always (returned a) (next a) (EndsWith last raised)) :
    Throughout env always before (program >>= next) (EndsWith last raised) :=
  first.bind (fun _ _ holds => holds) rest

/-- `except: …; raise` -/
theorem Throughout.reraise {error : ε} {returned : β → σ → Prop} {raised : σ → Prop}
    (first : Throughout env always before program fun _ => raised) :
    Throughout env always before (program >>= fun _ => .raise error) (EndsWith returned raised) :=
  first.bind (fun _ _ holds => holds) fun _ => throughout_raise fun _ holds => holds

/-- A caught program always returns, with its outcome. -/
theorem Throughout.attempt (throughout : Throughout env always before program after) :
    Throughout env always before program.attempt fun outcome state =>
      ∃ result, outcome = .ok result ∧ after result state := by
  intro state log outcome final start run
  obtain ⟨result, rfl, ran⟩ := run_attempt.mp run
  obtain ⟨moments, ends⟩ := throughout state log result final start ran
  exact ⟨moments, result, rfl, ends⟩

theorem Throughout.attempt_bind {next : Except ε α → Interaction Answer ε β} {final : Except ε β → σ → Prop}
    (throughout : Throughout env always before program after)
    (rest : ∀ result, Throughout env always (after result) (next result) final) :
    Throughout env always before (program.attempt >>= next) final := by
  apply throughout.attempt.bind
  · rintro error state ⟨result, impossible, _⟩
    exact nomatch impossible
  · intro result
    apply (rest result).strengthen
    rintro state ⟨_, same, ends⟩
    cases same
    exact ends

theorem Only.weaken {good : Exchange Answer → Prop} {post more : α → Prop} (only : Only good program post)
    (weaker : ∀ a, post a → more a) : Only good program more := by
  intro log outcome trace
  obtain ⟨each, returned⟩ := only log outcome trace
  exact ⟨each, fun a same => weaker a (returned a same)⟩

theorem Only.finally_ {good : Exchange Answer → Prop} {post : α → Prop} {cleanup : Interaction Answer ε Unit}
    (only : Only good program post) (cleans : Only good cleanup fun _ => True) :
    Only good (finally_ program cleanup) post := by
  apply only.attempt.bind
  intro result returned
  apply cleans.bind
  intro _ _
  exact only_ofExcept returned

/-- A program of which every exchange keeps an assertion. -/
theorem Only.throughout {good : Exchange Answer → Prop} {post : α → Prop} {holds : σ → Prop}
    (only : Only good program post) (kept : Kept env holds)
    (answered : ∀ before exchange after, good exchange → env.answers before exchange after → holds before → holds after)
    (implied : ∀ state, holds state → always state) :
    Throughout env always holds program fun outcome state => holds state ∧ ∀ a, outcome = .ok a → post a := by
  induction program with
  | done a => exact throughout_done fun _ held => ⟨held, (only [] _ ⟨rfl, rfl⟩).2⟩
  | raise error => exact throughout_raise fun _ held => ⟨held, (only [] _ ⟨rfl, rfl⟩).2⟩
  | ask query rest ih =>
      have split : ∀ answer log outcome, (rest answer).Trace log outcome →
          good ⟨query, answer⟩ ∧ (∀ exchange ∈ log, good exchange) ∧ ∀ a, outcome = .ok a → post a := by
        intro answer log outcome trace
        obtain ⟨each, returned⟩ := only (⟨query, answer⟩ :: log) outcome ⟨answer, log, rfl, trace⟩
        exact ⟨each _ List.mem_cons_self, fun exchange member => each exchange (List.mem_cons_of_mem _ member),
          returned⟩
      apply throughout_ask kept implied
      rintro answer state log outcome final ⟨here, held, called⟩ run
      have goodHere : good ⟨query, answer⟩ := (split answer _ _ run.trace).1
      exact ih answer (fun log outcome trace => (split answer log outcome trace).2) state log outcome final
        (answered here _ state goodHere called held) run

/-- A run in which a server answers, while nobody else moves. -/
theorem run_session {τ : Type} {respond : (query : Query) → τ → Answer query × τ} (view : τ → σ) (holds : τ → Prop)
    (serves : ∀ query state, holds state → holds (respond query state).2 ∧
      env.answers (view state) ⟨query, (respond query state).1⟩ (view (respond query state).2))
    (program : Interaction Answer ε α) {state : τ} (start : holds state) :
    ∃ log, Run env program (view state) log (session respond program state).outcome
      (view (session respond program state).environment) := by
  induction program generalizing state with
  | done a => exact ⟨[], rfl, rfl, rfl⟩
  | raise error => exact ⟨[], rfl, rfl, rfl⟩
  | ask query rest ih =>
      obtain ⟨stays, answered⟩ := serves query state start
      obtain ⟨log, run⟩ := ih _ stays
      exact ⟨_, run_answered answered run⟩

end ExitfyCores.Interaction
