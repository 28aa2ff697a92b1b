/-
Module: ExitfyCores.Lib.Raise
Layer: Lib
Purpose: A run of checks that raise messages: what a passed check says, what a successful bind says, and the rules
  for a loop over a list.
Imports: Mathlib.Data.List.Forall2
Trusted boundary: none
Main exports: raiseIf, raiseIf_eq_ok, throwIf, throwIf_eq_ok, bind_eq_ok, bind_eq_ok_iff, check_bind_eq_ok, exists_unit,
  pure_eq_ok, forM_eq_ok, forM_ok, forM_iff, mapM_eq_ok, mapM_iff, mapM_ok, exists_of_forall₂, forall₂_mem,
  foldlM_rule, foldlM_done, RaisesOnly and its rules
Open obligations: none
-/
import Mathlib.Data.List.Forall2

namespace ExitfyCores

/-- `if condition: raise ValueError(message)` -/
def raiseIf (condition : Prop) [Decidable condition] (message : String) : Except String Unit :=
  if condition then .error message else .ok ()

@[simp] theorem raiseIf_eq_ok {condition : Prop} [Decidable condition] {message : String} :
    raiseIf condition message = .ok () ↔ ¬ condition := by
  unfold raiseIf
  split <;> simp_all

/-- `if condition: raise` of an exception of any kind. -/
def throwIf {ε : Type} (condition : Prop) [Decidable condition] (error : ε) : Except ε Unit :=
  if condition then .error error else .ok ()

@[simp] theorem throwIf_eq_ok {ε : Type} {condition : Prop} [Decidable condition] {error : ε} :
    throwIf condition error = .ok () ↔ ¬ condition := by
  unfold throwIf
  split <;> simp_all

theorem ok_bind {ε α β : Type} (a : α) (next : α → Except ε β) :
    ((.ok a : Except ε α) >>= next) = next a := rfl

theorem bind_eq_ok {ε α β : Type} {first : Except ε α} {next : α → Except ε β} {result : β}
    (run : (first >>= next) = .ok result) : ∃ a, first = .ok a ∧ next a = .ok result := by
  cases first with
  | error message => cases run
  | ok a => exact ⟨a, rfl, run⟩

theorem bind_eq_ok_iff {ε α β : Type} {first : Except ε α} {next : α → Except ε β} {result : β} :
    (first >>= next) = .ok result ↔ ∃ a, first = .ok a ∧ next a = .ok result := by
  constructor
  · exact bind_eq_ok
  · intro ⟨a, done, run⟩
    rw [done, ok_bind, run]

/-- A check and what comes after it. -/
theorem check_bind_eq_ok {ε β : Type} {check : Except ε Unit} {next : Unit → Except ε β} {result : β} :
    (check >>= next) = .ok result ↔ check = .ok () ∧ next () = .ok result := by
  rw [bind_eq_ok_iff]
  exact ⟨fun ⟨_, passed, run⟩ => ⟨passed, run⟩, fun ⟨passed, run⟩ => ⟨(), passed, run⟩⟩

/-- What a check gives says nothing. -/
theorem exists_unit {holds : Unit → Prop} : (∃ a, holds a) ↔ holds () :=
  ⟨fun ⟨_, held⟩ => held, fun held => ⟨(), held⟩⟩

theorem pure_eq_ok {ε α : Type} {a b : α} : (pure a : Except ε α) = .ok b ↔ a = b := Except.ok.injEq a b ▸ Iff.rfl

/-- An outcome is compared by what it returns, whatever its errors are. -/
theorem eq_ok_of_toOption {ε α : Type} {outcome : Except ε α} {a : α} (returned : outcome.toOption = some a) :
    outcome = .ok a := by
  cases outcome with
  | error e => cases returned
  | ok b => exact congrArg _ (Option.some.inj returned)

/-- A loop of checks passes where every check does. -/
theorem forM_eq_ok {ε α : Type} {check : α → Except ε Unit} {items : List α} (passed : items.forM check = .ok ()) :
    ∀ a ∈ items, check a = .ok () := by
  induction items with
  | nil => simp
  | cons first rest ih =>
      rcases bind_eq_ok passed with ⟨_, head, tail⟩
      intro a member
      rcases List.mem_cons.mp member with same | later
      · exact same ▸ head
      · exact ih tail a later

theorem forM_ok {ε α : Type} {check : α → Except ε Unit} {items : List α} (each : ∀ a ∈ items, check a = .ok ()) :
    items.forM check = .ok () := by
  induction items with
  | nil => rfl
  | cons a rest ih =>
      change (check a >>= fun _ => rest.forM check) = .ok ()
      rw [each a List.mem_cons_self, ok_bind]
      exact ih fun other member => each other (List.mem_cons_of_mem a member)

theorem forM_iff {ε α : Type} {check : α → Except ε Unit} {items : List α} :
    items.forM check = .ok () ↔ ∀ a ∈ items, check a = .ok () := ⟨forM_eq_ok, forM_ok⟩

/-- A loop that collects results gives one for each item. -/
theorem mapM_eq_ok {ε α β : Type} {body : α → Except ε β} {items : List α} {results : List β}
    (run : items.mapM body = .ok results) : List.Forall₂ (fun a b => body a = .ok b) items results := by
  induction items generalizing results with
  | nil =>
      cases run
      exact List.Forall₂.nil
  | cons a rest ih =>
      rw [List.mapM_cons] at run
      obtain ⟨b, first, run⟩ := bind_eq_ok run
      obtain ⟨others, tail, run⟩ := bind_eq_ok run
      cases run
      exact List.Forall₂.cons first (ih tail)

theorem mapM_iff {ε α β : Type} {body : α → Except ε β} {items : List α} {results : List β} :
    items.mapM body = .ok results ↔ List.Forall₂ (fun a b => body a = .ok b) items results := by
  refine ⟨mapM_eq_ok, fun all => ?_⟩
  induction all with
  | nil => rfl
  | cons first _ ih =>
      rw [List.mapM_cons, first, ok_bind, ih]
      rfl

/-- Related lists: what is on the right has something on the left. -/
theorem exists_of_forall₂ {α β : Type} {related : α → β → Prop} {items : List α} {results : List β}
    (all : List.Forall₂ related items results) : ∀ b ∈ results, ∃ a ∈ items, related a b := by
  induction all with
  | nil => simp
  | cons first _ ih =>
      intro b member
      rcases List.mem_cons.mp member with rfl | later
      · exact ⟨_, List.mem_cons_self, first⟩
      · obtain ⟨a, memberA, holds⟩ := ih b later
        exact ⟨a, List.mem_cons_of_mem _ memberA, holds⟩

theorem forall₂_mem {α β : Type} {related : α → β → Prop} {items : List α} {results : List β}
    (all : List.Forall₂ related items results) : List.Forall₂ (fun a b => b ∈ results ∧ related a b) items results := by
  induction all with
  | nil => exact .nil
  | cons first _ ih =>
      exact .cons ⟨List.mem_cons_self, first⟩ (ih.imp fun _ _ found => ⟨List.mem_cons_of_mem _ found.1, found.2⟩)

/-- A loop whose turns all give a result gives the results. -/
theorem mapM_ok {ε α β : Type} {body : α → Except ε β} {result : α → β} {items : List α}
    (turn : ∀ a ∈ items, body a = .ok (result a)) : items.mapM body = .ok (items.map result) := by
  induction items with
  | nil => rfl
  | cons a rest ih =>
      rw [List.mapM_cons, turn a List.mem_cons_self, ok_bind,
        ih fun other member => turn other (List.mem_cons_of_mem a member)]
      rfl

/-- The loop rule: what one turn keeps up to the rest of the list, the whole loop keeps. -/
theorem foldlM_rule {ε σ α : Type} {step : σ → α → Except ε σ} (keeps : List α → σ → Prop)
    (turn : ∀ a rest state next, keeps (a :: rest) state → step state a = .ok next → keeps rest next)
    {items : List α} {state final : σ} (start : keeps items state)
    (run : items.foldlM step state = .ok final) : keeps [] final := by
  induction items generalizing state with
  | nil =>
      cases run
      exact start
  | cons a rest ih =>
      rw [List.foldlM_cons] at run
      rcases bind_eq_ok run with ⟨next, stepped, run⟩
      exact ih (turn a rest state next start stepped) run

/-- The loop rule by the items that were done. -/
theorem foldlM_done {ε σ α : Type} {step : σ → α → Except ε σ} (holds : List α → σ → Prop)
    (turn : ∀ done a state next, holds done state → step state a = .ok next → holds (done ++ [a]) next)
    {items : List α} {state final : σ} (start : holds [] state)
    (run : items.foldlM step state = .ok final) : holds items final := by
  have loop := foldlM_rule (fun rest state => ∃ done, done ++ rest = items ∧ holds done state) ?_
    ⟨[], rfl, start⟩ run
  · rcases loop with ⟨done, all, reached⟩
    rw [List.append_nil] at all
    exact all ▸ reached
  · rintro a rest before next ⟨done, all, reached⟩ stepped
    refine ⟨done ++ [a], ?_, turn done a before next reached stepped⟩
    rw [List.append_assoc]
    exact all

/-! ### The kinds of errors -/

/-- Every error that a run raises is of one kind. -/
def RaisesOnly {ε α : Type} (kind : ε → Prop) (run : Except ε α) : Prop := ∀ error, run = .error error → kind error

section RaisesOnly

variable {ε α β σ : Type} {kind : ε → Prop}

theorem RaisesOnly.ok (a : α) : RaisesOnly kind (.ok a : Except ε α) := fun _ raised => by cases raised

theorem RaisesOnly.error {error : ε} (allowed : kind error) : RaisesOnly kind (.error error : Except ε α) := by
  intro raised same
  cases same
  exact allowed

theorem RaisesOnly.throwIf {condition : Prop} [Decidable condition] {error : ε} (allowed : kind error) :
    RaisesOnly kind (throwIf condition error) := by
  unfold ExitfyCores.throwIf
  split
  · exact .error allowed
  · exact .ok ()

theorem RaisesOnly.bind {first : Except ε α} {next : α → Except ε β} (before : RaisesOnly kind first)
    (after : ∀ a, first = .ok a → RaisesOnly kind (next a)) : RaisesOnly kind (first >>= next) := by
  cases first with
  | error error =>
      intro raised same
      cases same
      exact before error rfl
  | ok a => exact after a rfl

/-- A loop raises what one of its turns raises. -/
theorem RaisesOnly.foldlM {step : σ → α → Except ε σ} {items : List α}
    (turn : ∀ a ∈ items, ∀ state, RaisesOnly kind (step state a)) (state : σ) :
    RaisesOnly kind (items.foldlM step state) := by
  induction items generalizing state with
  | nil => exact .ok state
  | cons a rest ih =>
      rw [List.foldlM_cons]
      exact .bind (turn a List.mem_cons_self state) fun next _ =>
        ih (fun other member => turn other (List.mem_cons_of_mem a member)) next

/-- The same for a loop with an invariant on the items that are done. -/
theorem RaisesOnly.foldlM_done {step : σ → α → Except ε σ} (holds : List α → σ → Prop) {items : List α}
    (keeps : ∀ done a state next, holds done state → step state a = .ok next → holds (done ++ [a]) next)
    (turn : ∀ done a rest state, done ++ a :: rest = items → holds done state → RaisesOnly kind (step state a))
    {state : σ} (start : holds [] state) : RaisesOnly kind (items.foldlM step state) := by
  suffices loop : ∀ rest done state, done ++ rest = items → holds done state →
      RaisesOnly kind (rest.foldlM step state) from loop items [] state rfl start
  intro rest
  induction rest with
  | nil => exact fun _ state _ _ => .ok state
  | cons a rest ih =>
      intro done state all reached
      rw [List.foldlM_cons]
      apply RaisesOnly.bind (turn done a rest state all reached)
      intro next stepped
      apply ih (done ++ [a]) next _ (keeps done a state next reached stepped)
      rw [List.append_assoc]
      exact all

theorem RaisesOnly.mapM {body : α → Except ε β} {items : List α} (turn : ∀ a ∈ items, RaisesOnly kind (body a)) :
    RaisesOnly kind (items.mapM body) := by
  induction items with
  | nil => exact .ok []
  | cons a rest ih =>
      rw [List.mapM_cons]
      exact .bind (turn a List.mem_cons_self) fun b _ =>
        .bind (ih fun other member => turn other (List.mem_cons_of_mem a member)) fun others _ => .ok (b :: others)

theorem RaisesOnly.forM {check : α → Except ε Unit} {items : List α} (turn : ∀ a ∈ items, RaisesOnly kind (check a)) :
    RaisesOnly kind (items.forM check) := by
  induction items with
  | nil => exact .ok ()
  | cons a rest ih =>
      exact .bind (turn a List.mem_cons_self) fun _ _ => ih fun other member => turn other (List.mem_cons_of_mem a member)

end RaisesOnly

end ExitfyCores
