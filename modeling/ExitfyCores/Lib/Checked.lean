/-
Module: ExitfyCores.Lib.Checked
Layer: Lib
Purpose: Computations that fail with a message or return a value and note entries on the way, as a parser
  that raises errors and reads its input piece by piece, with the rules of partial correctness for them.
Imports: Mathlib.Data.List.Forall2
Trusted boundary: none
Main exports: Checked, Checked.fail, Checked.reject, Checked.note, Ensures and its rules, outcome, Uniform and its rules
Open obligations: none
-/
import Mathlib.Data.List.Forall2

namespace ExitfyCores

/-- A computation that may fail with a message and that notes entries, the newest first. -/
abbrev Checked (Entry : Type) := StateT (List Entry) (Except String)

namespace Checked

variable {Entry α β : Type}

/-- `raise` -/
def fail (message : String) : Checked Entry α := fun _ => .error message

/-- `if condition: raise` -/
def reject (condition : Prop) [Decidable condition] (message : String) : Checked Entry Unit :=
  fun entries => if condition then .error message else .ok ((), entries)

/-- Note one entry. -/
def note (entry : Entry) : Checked Entry Unit := fun entries => .ok ((), entry :: entries)

/-- A computation without entries. -/
def lift (value : Except String α) : Checked Entry α := fun entries => value.map fun a => (a, entries)

/-- A computation on a value that may be absent. -/
def optional (value : Option α) (body : α → Checked Entry β) : Checked Entry (Option β) :=
  match value with
  | none => pure none
  | some a => do
      let b ← body a
      pure (some b)

/-- Partial correctness: a result satisfies `post`, and what was noted on the way is `good`. -/
def Ensures (good : Entry → Prop) (post : α → Prop) (m : Checked Entry α) : Prop :=
  ∀ entries result entries', m entries = .ok (result, entries') →
    post result ∧ ∀ entry ∈ entries', entry ∈ entries ∨ good entry

variable {good : Entry → Prop} {post : α → Prop}

theorem bind_ok {m : Checked Entry α} {next : α → Checked Entry β} {entries entries' : List Entry}
    {result : β} (run : (m >>= next) entries = .ok (result, entries')) :
    ∃ a middle, m entries = .ok (a, middle) ∧ next a middle = .ok (result, entries') := by
  change (m entries).bind (fun found => next found.1 found.2) = _ at run
  cases first : m entries with
  | error message =>
      rw [first] at run
      cases run
  | ok found =>
      rw [first] at run
      exact ⟨found.1, found.2, rfl, run⟩

theorem ensures_pure {a : α} (holds : post a) : Ensures good post (pure a) := by
  intro entries result entries' run
  cases run
  exact ⟨holds, fun entry member => Or.inl member⟩

theorem Ensures.bind {mid : α → Prop} {post : β → Prop} {m : Checked Entry α}
    {next : α → Checked Entry β} (first : Ensures good mid m)
    (rest : ∀ a, mid a → Ensures good post (next a)) : Ensures good post (m >>= next) := by
  intro entries result entries' run
  rcases bind_ok run with ⟨a, middle, ranFirst, ranNext⟩
  have firstResult := first entries a middle ranFirst
  have nextResult := rest a firstResult.1 middle result entries' ranNext
  refine ⟨nextResult.1, ?_⟩
  intro entry member
  cases nextResult.2 entry member with
  | inl before => exact firstResult.2 entry before
  | inr noted => exact Or.inr noted

theorem Ensures.weaken {stronger : α → Prop} {m : Checked Entry α} (ensured : Ensures good stronger m)
    (weaken : ∀ a, stronger a → post a) : Ensures good post m := by
  intro entries result entries' run
  have parts := ensured entries result entries' run
  exact ⟨weaken result parts.1, parts.2⟩

theorem ensures_fail (message : String) : Ensures good post (fail message) := by
  intro entries result entries' run
  cases run

theorem ensures_reject {condition : Prop} [Decidable condition] {message : String} :
    Ensures good (fun _ => ¬ condition) (reject condition message) := by
  intro entries result entries' run
  unfold reject at run
  split at run
  · cases run
  · next holds =>
      cases run
      exact ⟨holds, fun entry member => Or.inl member⟩

theorem ensures_note {entry : Entry} (holds : good entry) :
    Ensures good (fun _ => True) (note entry) := by
  intro entries result entries' run
  cases run
  refine ⟨trivial, ?_⟩
  intro other member
  cases List.mem_cons.mp member with
  | inl same => exact Or.inr (same ▸ holds)
  | inr earlier => exact Or.inl earlier

theorem ensures_lift {value : Except String α} (holds : ∀ a, value = .ok a → post a) :
    Ensures good post (lift value) := by
  intro entries result entries' run
  unfold lift at run
  cases found : value with
  | error message =>
      rw [found] at run
      cases run
  | ok a =>
      rw [found] at run
      cases run
      exact ⟨holds result found, fun entry member => Or.inl member⟩

theorem ensures_ite {condition : Prop} [Decidable condition] {yes no : Checked Entry α}
    (holds : condition → Ensures good post yes) (fails : ¬ condition → Ensures good post no) :
    Ensures good post (if condition then yes else no) := by
  split
  · next yes => exact holds yes
  · next no => exact fails no

theorem ensures_optional {each : α → β → Prop} {value : Option α} {body : α → Checked Entry β}
    (step : ∀ a, value = some a → Ensures good (each a) (body a)) :
    Ensures good (Option.Rel each value) (optional value body) := by
  cases value with
  | none => exact ensures_pure Option.Rel.none
  | some a =>
      apply Ensures.bind (step a rfl)
      intro b holds
      exact ensures_pure (Option.Rel.some holds)

/-- A loop for its checks. -/
theorem ensures_forM {each : α → Prop} {body : α → Checked Entry PUnit} {inputs : List α}
    (step : ∀ a ∈ inputs, Ensures good (fun _ => each a) (body a)) :
    Ensures good (fun _ => ∀ a ∈ inputs, each a) (inputs.forM body) := by
  induction inputs with
  | nil => exact ensures_pure (fun a member => absurd member List.not_mem_nil)
  | cons a rest ih =>
      apply Ensures.bind (step a List.mem_cons_self)
      intro _ first
      apply (ih fun other member => step other (List.mem_cons_of_mem a member)).weaken
      intro _ others
      exact List.forall_mem_cons.mpr ⟨first, others⟩

/-- A loop that collects one result per element. -/
theorem ensures_mapM {each : α → β → Prop} {body : α → Checked Entry β} {inputs : List α}
    (step : ∀ a ∈ inputs, Ensures good (each a) (body a)) :
    Ensures good (List.Forall₂ each inputs) (inputs.mapM body) := by
  induction inputs with
  | nil => exact ensures_pure List.Forall₂.nil
  | cons a rest ih =>
      rw [List.mapM_cons]
      apply Ensures.bind (step a List.mem_cons_self)
      intro b first
      apply Ensures.bind (ih fun other member => step other (List.mem_cons_of_mem a member))
      intro later others
      exact ensures_pure (List.Forall₂.cons first others)

/-- A loop that carries a state. -/
theorem ensures_foldlM {invariant : List α → β → Prop} {body : β → α → Checked Entry β}
    (step : ∀ a rest state, invariant (a :: rest) state →
      Ensures good (invariant rest) (body state a)) (inputs : List α) (start : β)
    (initially : invariant inputs start) :
    Ensures good (invariant []) (inputs.foldlM body start) := by
  induction inputs generalizing start with
  | nil => exact ensures_pure initially
  | cons a rest ih =>
      rw [List.foldlM_cons]
      apply Ensures.bind (step a rest start initially)
      intro state holds
      exact ih state holds

/-! ### The result alone -/

/-- The result when nothing was noted before. -/
def outcome (m : Checked Entry α) : Option α := ((m []).toOption).map Prod.fst

/-- What was noted before has no part in the result. -/
def Uniform (m : Checked Entry α) : Prop := ∀ entries, ((m entries).toOption).map Prod.fst = outcome m

theorem uniform_pure (a : α) : Uniform (pure a : Checked Entry α) := fun _ => rfl

@[simp] theorem outcome_pure (a : α) : outcome (pure a : Checked Entry α) = some a := rfl

theorem uniform_fail (message : String) : Uniform (fail message : Checked Entry α) := fun _ => rfl

@[simp] theorem outcome_fail (message : String) : outcome (fail message : Checked Entry α) = none := rfl

theorem uniform_note (entry : Entry) : Uniform (note entry) := fun _ => rfl

@[simp] theorem outcome_note (entry : Entry) : outcome (note entry) = some () := rfl

theorem outcome_reject {condition : Prop} [Decidable condition] {message : String} :
    outcome (reject condition message : Checked Entry Unit) = if condition then none else some () := by
  unfold outcome reject
  split <;> rfl

theorem uniform_reject {condition : Prop} [Decidable condition] {message : String} :
    Uniform (reject condition message : Checked Entry Unit) := by
  intro entries
  rw [outcome_reject]
  unfold reject
  split <;> rfl

@[simp] theorem outcome_lift (value : Except String α) : outcome (lift value : Checked Entry α) = value.toOption := by
  cases value <;> rfl

theorem uniform_lift (value : Except String α) : Uniform (lift value : Checked Entry α) := by
  intro entries
  cases value <;> rfl

theorem outcome_bind {m : Checked Entry α} {next : α → Checked Entry β} (uniform : ∀ a, Uniform (next a)) :
    outcome (m >>= next) = (outcome m).bind fun a => outcome (next a) := by
  change (((m []).bind fun found => next found.1 found.2).toOption).map Prod.fst = _
  unfold outcome
  cases m [] with
  | error message => rfl
  | ok found => exact uniform found.1 found.2

theorem Uniform.bind {m : Checked Entry α} {next : α → Checked Entry β} (first : Uniform m)
    (uniform : ∀ a, Uniform (next a)) : Uniform (m >>= next) := by
  intro entries
  rw [outcome_bind uniform, ← first entries]
  change (((m entries).bind fun found => next found.1 found.2).toOption).map Prod.fst = _
  cases m entries with
  | error message => rfl
  | ok found => exact uniform found.1 found.2

theorem uniform_ite {condition : Prop} [Decidable condition] {yes no : Checked Entry α} (first : Uniform yes)
    (second : Uniform no) : Uniform (if condition then yes else no) := by
  split
  · exact first
  · exact second

theorem uniform_foldlM {body : β → α → Checked Entry β} (step : ∀ state a, Uniform (body state a)) (inputs : List α)
    (start : β) : Uniform (inputs.foldlM body start) := by
  induction inputs generalizing start with
  | nil => exact uniform_pure start
  | cons a rest ih =>
      rw [List.foldlM_cons]
      exact (step start a).bind fun state => ih state

theorem uniform_mapM {body : α → Checked Entry β} (step : ∀ a, Uniform (body a)) (inputs : List α) :
    Uniform (inputs.mapM body) := by
  induction inputs with
  | nil => exact uniform_pure []
  | cons a rest ih =>
      rw [List.mapM_cons]
      exact (step a).bind fun _ => ih.bind fun _ => uniform_pure _

theorem outcome_mapM {body : α → Checked Entry β} (step : ∀ a, Uniform (body a)) (inputs : List α) :
    outcome (inputs.mapM body) = inputs.mapM fun a => outcome (body a) := by
  induction inputs with
  | nil => rfl
  | cons a rest ih =>
      rw [List.mapM_cons, List.mapM_cons,
        outcome_bind fun _ => (uniform_mapM step rest).bind fun _ => uniform_pure _]
      refine congrArg _ (funext fun b => ?_)
      rw [outcome_bind fun _ => uniform_pure _, ih]
      rfl

end Checked

/-- What a collecting loop over `range n` gives at each index. -/
theorem forall₂_range {β : Type} {each : Nat → β → Prop} {n : Nat} {results : List β}
    (all : List.Forall₂ each (List.range n) results) :
    results.length = n ∧ ∀ index result, results[index]? = some result → each index result := by
  have length := all.length_eq
  rw [List.length_range] at length
  refine ⟨length.symm, ?_⟩
  intro index result found
  rcases List.getElem?_eq_some_iff.mp found with ⟨bound, value⟩
  have step := List.forall₂_iff_get.mp all |>.2 index (by simpa [length] using bound) bound
  rw [List.get_eq_getElem, List.get_eq_getElem, value, List.getElem_range] at step
  exact step

/-- One related element for each gives a related list. -/
theorem forall₂_choose {α β : Type} {each : α → β → Prop} {inputs : List α} (step : ∀ a ∈ inputs, ∃ b, each a b) :
    ∃ results, List.Forall₂ each inputs results := by
  induction inputs with
  | nil => exact ⟨[], .nil⟩
  | cons a rest ih =>
      obtain ⟨b, first⟩ := step a List.mem_cons_self
      obtain ⟨results, others⟩ := ih fun other member => step other (List.mem_cons_of_mem a member)
      exact ⟨b :: results, .cons first others⟩

end ExitfyCores
