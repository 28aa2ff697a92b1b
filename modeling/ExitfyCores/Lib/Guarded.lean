/-
Module: ExitfyCores.Lib.Guarded
Layer: Library
Purpose: Computations whose operations are guarded: one that is applied outside its domain raises a fault, which is not
  an error with a message. The rules for showing that such a computation does what an unguarded one does, so that it
  never raises a fault.
Imports: ExitfyCores.Lib.Checked
Trusted boundary: none
Main exports: Raised, Guarded, Guarded.run, check, faultIf, record, pick, Agrees and its rules
Open obligations: none
-/
import ExitfyCores.Lib.Checked

namespace ExitfyCores

/-- What a guarded computation raises. -/
inductive Raised (Fault : Type) where
  | message (text : String)
  | fault (kind : Fault)
deriving DecidableEq

/-- A computation with guarded operations. Its notes stay where it raises. -/
abbrev Guarded (Note Fault : Type) := ExceptT (Raised Fault) (StateM (List Note))

namespace Guarded

variable {Note Fault Entry α β σ : Type}

/-- The outcome and the notes, the newest first. -/
def run (m : Guarded Note Fault α) (notes : List Note) : Except (Raised Fault) α × List Note :=
  StateT.run (ExceptT.run m) notes

/-- `if condition: raise` with a message. -/
def check (condition : Prop) [Decidable condition] (message : String) : Guarded Note Fault Unit :=
  if condition then throw (.message message) else pure ()

/-- The guard of an operation. -/
def faultIf (condition : Prop) [Decidable condition] (kind : Fault) : Guarded Note Fault Unit :=
  if condition then throw (.fault kind) else pure ()

/-- Leave a note. -/
def record (note : Note) : Guarded Note Fault Unit := ExceptT.lift (modify (note :: ·))

/-- `items[index]` of an index that is neither negative nor behind the end. -/
def pick (kind : Fault) (items : List α) (index : Int) : Guarded Note Fault α :=
  match index with
  | .ofNat position =>
      match items[position]? with
      | some item => pure item
      | none => throw (.fault kind)
  | .negSucc _ => throw (.fault kind)

@[simp] theorem run_pure (a : α) (notes : List Note) : run (pure a : Guarded Note Fault α) notes = (.ok a, notes) := rfl

theorem run_bind (m : Guarded Note Fault α) (next : α → Guarded Note Fault β) (notes : List Note) :
    run (m >>= next) notes =
      match run m notes with
      | (.ok a, notes') => run (next a) notes'
      | (.error raised, notes') => (.error raised, notes') := by
  change StateT.run (ExceptT.run m >>= ExceptT.bindCont next) notes = _
  rw [StateT.run_bind]
  simp only [run]
  cases StateT.run (ExceptT.run m) notes with
  | mk outcome notes' => cases outcome <;> rfl

theorem run_record (note : Note) (notes : List Note) :
    run (record note : Guarded Note Fault Unit) notes = (.ok (), note :: notes) := rfl

/-- An index within the list is picked. -/
theorem pick_eq {kind : Fault} {items : List α} {position : Nat} (inside : position < items.length) (default : α) :
    (pick kind items position : Guarded Note Fault α) = pure (items.getD position default) := by
  simp [pick, List.getElem?_eq_getElem inside, List.getD_eq_getElem?_getD]

theorem faultIf_false {condition : Prop} [Decidable condition] {kind : Fault} (holds : ¬ condition) :
    (faultIf condition kind : Guarded Note Fault Unit) = pure () := by
  rw [faultIf, if_neg holds]

/-! ### Agreement -/

/-- A guarded computation returns what an unguarded one returns and raises a message where that one fails; every note
it leaves is good, also where it raises. -/
def Agrees (good : Note → Prop) (post : α → Prop) (m : Guarded Note Fault α) (plain : Checked Entry α) : Prop :=
  ∀ notes entries, (∀ note ∈ (run m notes).2, note ∈ notes ∨ good note) ∧
    match plain entries with
    | .ok (a, _) => (run m notes).1 = .ok a ∧ post a
    | .error _ => ∃ message, (run m notes).1 = .error (.message message)

variable {good : Note → Prop} {post : α → Prop}

theorem agrees_pure {a : α} (holds : post a) :
    Agrees good post (pure a : Guarded Note Fault α) (pure a : Checked Entry α) :=
  fun _ _ => ⟨fun _ member => .inl member, rfl, holds⟩

theorem Agrees.bind {mid : α → Prop} {post : β → Prop} {m : Guarded Note Fault α} {plain : Checked Entry α}
    {next : α → Guarded Note Fault β} {plainNext : α → Checked Entry β} (first : Agrees good mid m plain)
    (rest : ∀ a, mid a → Agrees good post (next a) (plainNext a)) :
    Agrees good post (m >>= next) (plain >>= plainNext) := by
  intro notes entries
  have head := first notes entries
  rw [run_bind]
  change (_ ∧ match (plain entries).bind fun found => plainNext found.1 found.2 with
    | .ok (a, _) => _
    | .error _ => _)
  cases ran : plain entries with
  | error message =>
      simp only [ran] at head
      obtain ⟨noted, text, raised⟩ := head
      cases outcome : run m notes with
      | mk result notes' =>
          rw [outcome] at noted raised
          simp only at raised
          subst raised
          exact ⟨noted, text, rfl⟩
  | ok found =>
      simp only [ran] at head
      obtain ⟨noted, returned, holds⟩ := head
      cases outcome : run m notes with
      | mk result notes' =>
          rw [outcome] at noted returned
          simp only at returned
          subst returned
          have tail := rest found.1 holds notes' found.2
          refine ⟨fun note member => ?_, tail.2⟩
          rcases tail.1 note member with earlier | isGood
          · exact noted note earlier
          · exact .inr isGood

theorem Agrees.weaken {stronger : α → Prop} {m : Guarded Note Fault α} {plain : Checked Entry α}
    (agrees : Agrees good stronger m plain) (weaken : ∀ a, stronger a → post a) : Agrees good post m plain := by
  intro notes entries
  obtain ⟨noted, result⟩ := agrees notes entries
  refine ⟨noted, ?_⟩
  cases ran : plain entries with
  | error message =>
      rw [ran] at result
      exact result
  | ok found =>
      rw [ran] at result
      exact ⟨result.1, weaken _ result.2⟩

theorem agrees_check {condition plainCondition : Prop} [Decidable condition] [Decidable plainCondition]
    {message plainMessage : String} (same : condition ↔ plainCondition) :
    Agrees good (fun _ => ¬ condition) (check condition message : Guarded Note Fault Unit)
      (Checked.reject plainCondition plainMessage : Checked Entry Unit) := by
  intro notes entries
  unfold check Checked.reject
  by_cases holds : condition
  · rw [if_pos holds, if_pos (same.mp holds)]
    exact ⟨fun _ member => .inl member, message, rfl⟩
  · rw [if_neg holds, if_neg fun other => holds (same.mpr other)]
    exact ⟨fun _ member => .inl member, rfl, holds⟩

/-- Both computations stop at a condition that holds. -/
theorem agrees_stop {condition : Prop} [Decidable condition] {message plainMessage : String}
    {plainNext : Unit → Checked Entry α} (holds : condition) :
    Agrees good post (throw (.message message) : Guarded Note Fault α)
      (Checked.reject condition plainMessage >>= plainNext) := by
  intro notes entries
  have stopped : (Checked.reject condition plainMessage >>= plainNext) entries = .error plainMessage := by
    change (Checked.reject condition plainMessage entries).bind (fun found => plainNext found.1 found.2) = _
    rw [Checked.reject, if_pos holds]
    rfl
  rw [stopped]
  exact ⟨fun _ member => .inl member, message, rfl⟩

/-- A condition that fails rejects nothing. -/
theorem reject_eq_pure {condition : Prop} [Decidable condition] {message : String} (fails : ¬ condition) :
    (Checked.reject condition message : Checked Entry Unit) = pure () := by
  funext entries
  simp only [Checked.reject, if_neg fails]
  rfl

theorem lift_ite {condition : Prop} [Decidable condition] (yes no : Except String α) :
    (Checked.lift (if condition then yes else no) : Checked Entry α) =
      if condition then Checked.lift yes else Checked.lift no := by
  split <;> rfl

theorem agrees_fail {message plainMessage : String} :
    Agrees good post (throw (.message message) : Guarded Note Fault α)
      (Checked.fail plainMessage : Checked Entry α) :=
  fun _ _ => ⟨fun _ member => .inl member, message, rfl⟩

/-- A value that may fail to be there. -/
def ofExcept (value : Except String α) : Guarded Note Fault α :=
  match value with
  | .ok a => pure a
  | .error message => throw (.message message)

theorem agrees_ofExcept {value : Except String α} (holds : ∀ a, value = .ok a → post a) :
    Agrees good post (ofExcept value : Guarded Note Fault α) (Checked.lift value : Checked Entry α) := by
  intro notes entries
  cases value with
  | error message => exact ⟨fun _ member => .inl member, message, rfl⟩
  | ok a => exact ⟨fun _ member => .inl member, rfl, holds a rfl⟩

/-- Notes of the unguarded computation do not matter. -/
theorem agrees_note {entry : Entry} {m : Guarded Note Fault α} {plain : Checked Entry α}
    (agrees : Agrees good post m plain) : Agrees good post m (Checked.note entry >>= fun _ => plain) :=
  fun notes entries => agrees notes (entry :: entries)

theorem agrees_ite {condition : Prop} [Decidable condition] {yes no : Guarded Note Fault α}
    {plainYes plainNo : Checked Entry α} (holds : condition → Agrees good post yes plainYes)
    (fails : ¬ condition → Agrees good post no plainNo) :
    Agrees good post (if condition then yes else no) (if condition then plainYes else plainNo) := by
  split
  · rename_i yes
    exact holds yes
  · rename_i no
    exact fails no

/-- A computation on a value that may be absent. -/
def optional (value : Option α) (body : α → Guarded Note Fault β) : Guarded Note Fault (Option β) :=
  match value with
  | none => pure none
  | some a => do
      let b ← body a
      pure (some b)

theorem agrees_optional {each : β → Prop} {value : Option α} {body : α → Guarded Note Fault β}
    {plain : α → Checked Entry β} (step : ∀ a, Agrees good each (body a) (plain a)) :
    Agrees good (fun found => ∀ b, found = some b → each b) (optional value body) (Checked.optional value plain) := by
  cases value with
  | none => exact agrees_pure fun _ absent => by cases absent
  | some a =>
      refine (step a).bind fun b holds => agrees_pure fun other same => ?_
      cases same
      exact holds

theorem agrees_forM {body : α → Guarded Note Fault PUnit} {plain : α → Checked Entry PUnit} {inputs : List α}
    {each : α → Prop} (step : ∀ a ∈ inputs, Agrees good (fun _ => each a) (body a) (plain a)) :
    Agrees good (fun _ => ∀ a ∈ inputs, each a) (inputs.forM body) (inputs.forM plain) := by
  induction inputs with
  | nil => exact agrees_pure fun a member => absurd member List.not_mem_nil
  | cons a rest ih =>
      refine (step a List.mem_cons_self).bind fun _ first => ?_
      refine (ih fun other member => step other (List.mem_cons_of_mem a member)).weaken fun _ others => ?_
      exact List.forall_mem_cons.mpr ⟨first, others⟩

theorem agrees_mapM {each : α → β → Prop} {body : α → Guarded Note Fault β} {plain : α → Checked Entry β}
    {inputs : List α} (step : ∀ a ∈ inputs, Agrees good (each a) (body a) (plain a)) :
    Agrees good (List.Forall₂ each inputs) (inputs.mapM body) (inputs.mapM plain) := by
  induction inputs with
  | nil => exact agrees_pure List.Forall₂.nil
  | cons a rest ih =>
      rw [List.mapM_cons, List.mapM_cons]
      refine (step a List.mem_cons_self).bind fun b first => ?_
      refine (ih fun other member => step other (List.mem_cons_of_mem a member)).bind fun later others => ?_
      exact agrees_pure (List.Forall₂.cons first others)

theorem agrees_foldlM {invariant : List α → σ → Prop} {body : σ → α → Guarded Note Fault σ}
    {plain : σ → α → Checked Entry σ}
    (step : ∀ a rest state, invariant (a :: rest) state → Agrees good (invariant rest) (body state a) (plain state a))
    (inputs : List α) (start : σ) (initially : invariant inputs start) :
    Agrees good (invariant []) (inputs.foldlM body start) (inputs.foldlM plain start) := by
  induction inputs generalizing start with
  | nil => exact agrees_pure initially
  | cons a rest ih =>
      rw [List.foldlM_cons, List.foldlM_cons]
      exact (step a rest start initially).bind fun state holds => ih state holds

/-- Total correctness: a computation that agrees with an unguarded one raises no fault, and its notes are good. -/
theorem Agrees.total {m : Guarded Note Fault α} {plain : Checked Entry α} (agrees : Agrees good post m plain) :
    (∀ note ∈ (run m []).2, good note) ∧
      ((∃ a, (run m []).1 = .ok a) ∨ ∃ message, (run m []).1 = .error (.message message)) := by
  obtain ⟨noted, result⟩ := agrees [] []
  refine ⟨fun note member => (noted note member).resolve_left List.not_mem_nil, ?_⟩
  cases ran : plain [] with
  | error message =>
      rw [ran] at result
      exact .inr result
  | ok found =>
      rw [ran] at result
      exact .inl ⟨found.1, result.1⟩

end Guarded

end ExitfyCores
