/-
Module: ExitfyCores.Proofs.SingBoxLifecycle
Layer: Proofs
Purpose: The lifecycle record of the sing-box adapter against the log of every run: it holds exactly the
  cores that `newCore` handed out and that are not closed, and it tells which run context is alive.
Imports: Mathlib.Data.Set.Basic, ExitfyCores.Lifecycle.SingBox
Trusted boundary: none
Main exports: Owned, Live, Transition, start_transition, stop_transition, Invariant, runCalls_invariant,
  lifecycleOwnership
Open obligations: none
-/
import Mathlib.Data.Set.Basic
import ExitfyCores.Lifecycle.SingBox

namespace ExitfyCores.SingBox

open History

variable {Options : Type}

/-- `Close` returned nil, or errors that are only `os.ErrClosed`. -/
def Completed : Callback (Option GoError) → Prop
  | .returned err => isOnlyClosed err = true
  | .panicked _ => False

/-- The event ends the ownership of `core`. -/
def Releases (core : Core) : Event → Prop
  | .coreClosed closed result => closed = core ∧ Completed result
  | _ => False

/-- `newCore` handed `core` out and no `Close` of it completed since. -/
def Owned (log : List Event) (core : Core) : Prop :=
  Since (fun event => event = .handedOut core) (Releases core) log

/-- A `Start` with the run context `ctx` returned nil and `Stop` was not called since. -/
def Live (log : List Event) (ctx : Option RunContext) : Prop :=
  Since (fun event => event = .startReturned ctx none) (fun event => event = .stopCalled) log

/-- `newCore` is called only while nothing is owned. -/
def Exclusive (past : List Event) (event : Event) : Prop :=
  ∀ ctx, event = .newCoreCalled ctx → ∀ core, ¬ Owned past core

/-- A `Start` that fails with a run context has cancelled it. -/
def Cancels (past : List Event) (event : Event) : Prop :=
  ∀ ctx err, event = .startReturned (some ctx) (some err) → .cancelled ctx ∈ past

theorem isOnlyClosed_closeCore {result : Callback (Option GoError)} :
    isOnlyClosed (closeCore result) = true ↔ Completed result := by
  cases result with
  | returned err => rfl
  | panicked recovered => simp [closeCore, isOnlyClosed, errOnlyClosed, Completed]

theorem completed_of_closeCore_eq_none {result : Callback (Option GoError)}
    (nilError : closeCore result = none) : Completed result := by
  rw [← isOnlyClosed_closeCore, nilError]
  rfl

/-! ### What one call does -/

/-- What a call leaves behind, event by event: a refused `Start`; a `Start` that was idle and ended without a
candidate, with a closed candidate, with a retained one, or with a running core; a `Stop` without a core,
one whose cancellation panicked, and one that closed its core or did not. -/
inductive Transition (world : World) : World → Prop where
  | refused (err : GoError) :
      Transition world (world.emit (.startReturned none (some err)))
  | failed (err : GoError)
      (idle : world.lifecycle.box = none ∧ world.lifecycle.stopRequired = false) :
      Transition world
        { lifecycle := world.lifecycle
          contexts := world.contexts + 1
          log := world.log ++ [.newCoreCalled world.contexts] ++ [.cancelled world.contexts] ++
            [.startReturned (some world.contexts) (some err)] }
  | dropped (candidate : Core) (result : Callback (Option GoError)) (err : GoError)
      (idle : world.lifecycle.box = none ∧ world.lifecycle.stopRequired = false)
      (completed : Completed result) :
      Transition world
        { lifecycle := world.lifecycle
          contexts := world.contexts + 1
          log := world.log ++ [.newCoreCalled world.contexts] ++ [.handedOut candidate] ++
            [.cancelled world.contexts] ++ [.coreClosed candidate result] ++
            [.startReturned (some world.contexts) (some err)] }
  | retained (candidate : Core) (result : Callback (Option GoError)) (err : GoError)
      (idle : world.lifecycle.box = none ∧ world.lifecycle.stopRequired = false)
      (incomplete : ¬ Completed result) :
      Transition world
        { lifecycle := { box := some candidate, cancel := some world.contexts, stopRequired := true }
          contexts := world.contexts + 1
          log := world.log ++ [.newCoreCalled world.contexts] ++ [.handedOut candidate] ++
            [.cancelled world.contexts] ++ [.coreClosed candidate result] ++
            [.startReturned (some world.contexts) (some err)] }
  | started (candidate : Core)
      (idle : world.lifecycle.box = none ∧ world.lifecycle.stopRequired = false) :
      Transition world
        { lifecycle := { box := some candidate, cancel := some world.contexts, stopRequired := false }
          contexts := world.contexts + 1
          log := world.log ++ [.newCoreCalled world.contexts] ++ [.handedOut candidate] ++
            [.startReturned (some world.contexts) none] }
  | stopIdle (empty : world.lifecycle.box = none) :
      Transition world
        { world with
          lifecycle := { world.lifecycle with stopRequired := false }
          log := world.log ++ [.stopCalled] }
  | stopPanicked (box : Core) (ctx : RunContext) (held : world.lifecycle.box = some box)
      (cancel : world.lifecycle.cancel = some ctx) :
      Transition world
        { world with
          lifecycle := { world.lifecycle with stopRequired := true }
          log := world.log ++ [.stopCalled] ++ [.cancelled ctx] }
  | stopped (box : Core) (world' : World) (result : Callback (Option GoError))
      (held : world.lifecycle.box = some box) (contexts : world'.contexts = world.contexts)
      (log : world'.log = world.log ++ [.stopCalled] ++
        (world.lifecycle.cancel.map Event.cancelled).toList ++ [.coreClosed box result])
      (ending : (Completed result ∧ world'.lifecycle = World.initial.lifecycle) ∨
        (¬ Completed result ∧ world'.lifecycle = { world.lifecycle with stopRequired := true })) :
      Transition world world'

/-- Giving up on a candidate: it was closed, or it is retained. -/
theorem abandon_some_transition {world : World} (callbacks : Callbacks Options) (candidate : Core)
    (err : GoError) (cleanup : GoError → GoError)
    (idle : world.lifecycle.box = none ∧ world.lifecycle.stopRequired = false) :
    Transition world
      ((world.callNewCore.emit (.handedOut candidate)).abandon callbacks (some candidate) world.contexts
        err cleanup).1 := by
  simp only [World.abandon, World.closeOrRetain]
  by_cases onlyClosed : isOnlyClosed (closeCore (callbacks.coreClose candidate)) = true
  · rw [if_pos onlyClosed]
    exact .dropped candidate _ err idle (isOnlyClosed_closeCore.mp onlyClosed)
  · rw [if_neg onlyClosed]
    have incomplete := mt isOnlyClosed_closeCore.mpr onlyClosed
    cases closeCore (callbacks.coreClose candidate) with
    | none => exact .retained candidate _ _ idle incomplete
    | some closeError => exact .retained candidate _ _ idle incomplete

theorem startCore_transition {world : World} (callbacks : Callbacks Options) (options : Options)
    (idle : world.lifecycle.box = none ∧ world.lifecycle.stopRequired = false) :
    Transition world (startCore callbacks options world).1 := by
  unfold startCore
  dsimp only
  cases callbacks.newCore world.contexts options with
  | panicked recovered => exact .failed _ idle
  | returned made =>
      rcases made with ⟨candidate, err⟩
      cases candidate with
      | none =>
          cases err with
          | none => exact .failed _ idle
          | some err => exact .failed _ idle
      | some candidate =>
          cases err with
          | some err => exact abandon_some_transition callbacks candidate _ _ idle
          | none =>
              dsimp only
              cases callbacks.coreStart candidate with
              | panicked recovered => exact abandon_some_transition callbacks candidate _ _ idle
              | returned err =>
                  cases err with
                  | some err => exact abandon_some_transition callbacks candidate _ _ idle
                  | none => exact .started candidate idle

theorem start_transition (callbacks : Callbacks Options) (configJSON : Bytes) (world : World) :
    Transition world (start callbacks configJSON world).1 := by
  unfold start
  dsimp only
  split
  · exact .refused _
  split
  · exact .refused _
  split
  · exact .refused _
  · next owed =>
      have idle : world.lifecycle.box = none ∧ world.lifecycle.stopRequired = false := by
        simpa using owed
      split
      · exact .refused _
      · exact .refused _
      · exact startCore_transition callbacks _ idle

/-- The last steps of `Stop`, in a world that has logged the call and the cancellation. -/
theorem closeBox_transition (callbacks : Callbacks Options) {world cancelling : World} {box : Core}
    (held : world.lifecycle.box = some box) (contexts : cancelling.contexts = world.contexts)
    (log : cancelling.log =
      world.log ++ [.stopCalled] ++ (world.lifecycle.cancel.map Event.cancelled).toList)
    (lifecycle : cancelling.lifecycle = { world.lifecycle with stopRequired := true }) :
    Transition world (cancelling.closeBox callbacks box).1 := by
  have logged : (cancelling.emit (.coreClosed box (callbacks.coreClose box))).log =
      world.log ++ [.stopCalled] ++ (world.lifecycle.cancel.map Event.cancelled).toList ++
        [.coreClosed box (callbacks.coreClose box)] := by
    rw [World.emit, log]
  unfold World.closeBox
  dsimp only
  split
  · next nilError =>
      have completed := completed_of_closeCore_eq_none nilError
      exact .stopped box _ _ held contexts logged (Or.inl ⟨completed, rfl⟩)
  · next closeError failed =>
      split
      · next onlyClosed =>
          have completed := isOnlyClosed_closeCore.mp (failed ▸ onlyClosed)
          exact .stopped box _ _ held contexts logged (Or.inl ⟨completed, rfl⟩)
      · next other =>
          have incomplete := mt isOnlyClosed_closeCore.mpr (failed ▸ other)
          exact .stopped box _ _ held contexts logged (Or.inr ⟨incomplete, lifecycle⟩)

theorem stopCore_transition (callbacks : Callbacks Options) {world : World} {box : Core}
    (held : world.lifecycle.box = some box) :
    Transition world (stopCore callbacks box (world.emit .stopCalled)).1 := by
  unfold stopCore World.cancelRun
  cases cancel : world.lifecycle.cancel with
  | none =>
      simp only [World.emit, cancel]
      exact closeBox_transition callbacks held rfl (by simp [cancel]) (by simp [cancel])
  | some ctx =>
      simp only [World.emit, cancel]
      cases callbacks.cancel ctx with
      | panicked recovered =>
          have panicking := Transition.stopPanicked box ctx held cancel
          simpa [cancel] using panicking
      | returned done =>
          exact closeBox_transition callbacks held rfl (by simp [cancel]) (by simp [cancel])

theorem stop_transition (callbacks : Callbacks Options) (world : World) :
    Transition world (stop callbacks world).1 := by
  unfold stop
  cases held : world.lifecycle.box with
  | none =>
      have stopping := Transition.stopIdle held
      simpa [World.emit, held] using stopping
  | some box =>
      simp only [World.emit, held]
      exact stopCore_transition callbacks held

theorem step_transition (world : World) (call : Call Options) : Transition world (step world call) := by
  cases call with
  | start callbacks configJSON => exact start_transition callbacks configJSON world
  | stop callbacks => exact stop_transition callbacks world

/-! ### The invariant -/

/-- What the record says about the log of the run so far. -/
structure Invariant (world : World) : Prop where
  owned : ∀ core, Owned world.log core ↔ world.lifecycle.box = some core
  exclusive : History.Guarded Exclusive world.log
  stopRequired : world.lifecycle.stopRequired = true → world.lifecycle.box ≠ none
  live : ∀ ctx, Live world.log ctx ↔ isRunning world.lifecycle = true ∧ world.lifecycle.cancel = ctx
  holdsCancel : isRunning world.lifecycle = true → world.lifecycle.cancel ≠ none
  uncancelled : ∀ ctx, Live world.log (some ctx) → .cancelled ctx ∉ world.log
  cancelMade : ∀ ctx, world.lifecycle.cancel = some ctx → ctx < world.contexts
  cancelledMade : ∀ ctx, .cancelled ctx ∈ world.log → ctx < world.contexts
  cancels : History.Guarded Cancels world.log

theorem Invariant.initial : Invariant World.initial where
  owned := by simp [World.initial, Owned]
  exclusive := guarded_nil
  stopRequired := by simp [World.initial]
  live := by simp [World.initial, Live, isRunning]
  holdsCancel := by simp [World.initial, isRunning]
  uncancelled := by simp [World.initial]
  cancelMade := by simp [World.initial]
  cancelledMade := by simp [World.initial]
  cancels := guarded_nil

section Preservation

variable {world : World} (invariant : Invariant world)

include invariant

/-- Nothing is owned and nothing is live in an idle record. -/
theorem Invariant.idle (idle : world.lifecycle.box = none ∧ world.lifecycle.stopRequired = false) :
    (∀ core, ¬ Owned world.log core) ∧ (∀ ctx, ¬ Live world.log ctx) := by
  constructor
  · intro core
    rw [invariant.owned, idle.1]
    exact Option.some_ne_none core ∘ Eq.symm
  · intro ctx
    rw [invariant.live]
    simp [isRunning, idle.1]

/-- A context that is cancelled by the current `Start` is a made one as well. -/
theorem Invariant.cancelledMade_of_mem {ctx : RunContext}
    (cancelled : .cancelled ctx ∈ world.log ∨ ctx = world.contexts) : ctx < world.contexts + 1 := by
  cases cancelled with
  | inl earlier => exact Nat.lt_succ_of_lt (invariant.cancelledMade ctx earlier)
  | inr now => exact now ▸ Nat.lt_succ_self _

theorem Invariant.refused (err : GoError) :
    Invariant (world.emit (.startReturned none (some err))) where
  owned := by simpa [World.emit, Owned, Releases] using invariant.owned
  exclusive := by simpa [World.emit, Exclusive] using invariant.exclusive
  stopRequired := invariant.stopRequired
  live := by simpa [World.emit, Live] using invariant.live
  holdsCancel := invariant.holdsCancel
  uncancelled := by simpa [World.emit, Live] using invariant.uncancelled
  cancelMade := invariant.cancelMade
  cancelledMade := by simpa [World.emit] using invariant.cancelledMade
  cancels := by simpa [World.emit, Cancels] using invariant.cancels

theorem Invariant.failed (err : GoError)
    (idle : world.lifecycle.box = none ∧ world.lifecycle.stopRequired = false) :
    Invariant
      { lifecycle := world.lifecycle
        contexts := world.contexts + 1
        log := world.log ++ [.newCoreCalled world.contexts] ++ [.cancelled world.contexts] ++
          [.startReturned (some world.contexts) (some err)] } := by
  have nothing := invariant.idle idle
  exact
    { owned := by simpa [-List.append_assoc, Owned, Releases] using invariant.owned
      exclusive := by simpa [-List.append_assoc, Exclusive, invariant.exclusive] using nothing.1
      stopRequired := invariant.stopRequired
      live := by simpa [-List.append_assoc, Live] using invariant.live
      holdsCancel := invariant.holdsCancel
      uncancelled := by
        intro ctx live
        exact absurd (by simpa [-List.append_assoc, Live] using live) (nothing.2 (some ctx))
      cancelMade := fun ctx made => Nat.lt_succ_of_lt (invariant.cancelMade ctx made)
      cancelledMade := by
        intro ctx member
        exact invariant.cancelledMade_of_mem (by simpa using member)
      cancels := by simp [-List.append_assoc, Cancels, invariant.cancels] }

theorem Invariant.dropped (candidate : Core) {result : Callback (Option GoError)} (err : GoError)
    (idle : world.lifecycle.box = none ∧ world.lifecycle.stopRequired = false)
    (completed : Completed result) :
    Invariant
      { lifecycle := world.lifecycle
        contexts := world.contexts + 1
        log := world.log ++ [.newCoreCalled world.contexts] ++ [.handedOut candidate] ++
          [.cancelled world.contexts] ++ [.coreClosed candidate result] ++
          [.startReturned (some world.contexts) (some err)] } := by
  have nothing := invariant.idle idle
  exact
    { owned := by
        intro core
        have unowned := nothing.1 core
        rw [Owned] at unowned
        simp [-List.append_assoc, Owned, Releases, unowned, completed, idle.1]
      exclusive := by simpa [-List.append_assoc, Exclusive, invariant.exclusive] using nothing.1
      stopRequired := invariant.stopRequired
      live := by simpa [-List.append_assoc, Live] using invariant.live
      holdsCancel := invariant.holdsCancel
      uncancelled := by
        intro ctx live
        exact absurd (by simpa [-List.append_assoc, Live] using live) (nothing.2 (some ctx))
      cancelMade := fun ctx made => Nat.lt_succ_of_lt (invariant.cancelMade ctx made)
      cancelledMade := by
        intro ctx member
        exact invariant.cancelledMade_of_mem (by simpa using member)
      cancels := by simp [-List.append_assoc, Cancels, invariant.cancels] }

theorem Invariant.retained (candidate : Core) {result : Callback (Option GoError)} (err : GoError)
    (idle : world.lifecycle.box = none ∧ world.lifecycle.stopRequired = false)
    (incomplete : ¬ Completed result) :
    Invariant
      { lifecycle := { box := some candidate, cancel := some world.contexts, stopRequired := true }
        contexts := world.contexts + 1
        log := world.log ++ [.newCoreCalled world.contexts] ++ [.handedOut candidate] ++
          [.cancelled world.contexts] ++ [.coreClosed candidate result] ++
          [.startReturned (some world.contexts) (some err)] } := by
  have nothing := invariant.idle idle
  have dead : ∀ ctx, ¬ Live (world.log ++ [.newCoreCalled world.contexts] ++ [.handedOut candidate] ++
      [.cancelled world.contexts] ++ [.coreClosed candidate result] ++
      [.startReturned (some world.contexts) (some err)]) ctx := by
    simpa [-List.append_assoc, Live] using nothing.2
  exact
    { owned := by
        intro core
        have unowned := nothing.1 core
        rw [Owned] at unowned
        simp [-List.append_assoc, Owned, Releases, unowned, incomplete, eq_comm]
      exclusive := by simpa [-List.append_assoc, Exclusive, invariant.exclusive] using nothing.1
      stopRequired := by simp
      live := by
        intro ctx
        simp [-List.append_assoc, dead ctx, isRunning]
      holdsCancel := by simp
      uncancelled := fun ctx live => absurd live (dead (some ctx))
      cancelMade := by simp
      cancelledMade := by
        intro ctx member
        exact invariant.cancelledMade_of_mem (by simpa using member)
      cancels := by simp [-List.append_assoc, Cancels, invariant.cancels] }

theorem Invariant.started (candidate : Core)
    (idle : world.lifecycle.box = none ∧ world.lifecycle.stopRequired = false) :
    Invariant
      { lifecycle := { box := some candidate, cancel := some world.contexts, stopRequired := false }
        contexts := world.contexts + 1
        log := world.log ++ [.newCoreCalled world.contexts] ++ [.handedOut candidate] ++
          [.startReturned (some world.contexts) none] } := by
  have nothing := invariant.idle idle
  have live : ∀ ctx, Live (world.log ++ [.newCoreCalled world.contexts] ++ [.handedOut candidate] ++
      [.startReturned (some world.contexts) none]) ctx ↔ some world.contexts = ctx := by
    intro ctx
    have dead := nothing.2 ctx
    rw [Live] at dead
    simp [-List.append_assoc, Live, dead]
  exact
    { owned := by
        intro core
        have unowned := nothing.1 core
        rw [Owned] at unowned
        simp [-List.append_assoc, Owned, Releases, unowned]
      exclusive := by simpa [-List.append_assoc, Exclusive, invariant.exclusive] using nothing.1
      stopRequired := by simp
      live := by
        intro ctx
        simp [-List.append_assoc, live ctx, isRunning]
      holdsCancel := by simp
      uncancelled := by
        -- a context that was cancelled before is not the new one
        intro ctx isLive member
        have new : world.contexts = ctx := Option.some.inj ((live (some ctx)).mp isLive)
        have old : .cancelled ctx ∈ world.log := by simpa using member
        exact absurd (invariant.cancelledMade ctx old) (new ▸ Nat.lt_irrefl _)
      cancelMade := by simp
      cancelledMade := by
        intro ctx member
        exact invariant.cancelledMade_of_mem (Or.inl (by simpa using member))
      cancels := by simp [-List.append_assoc, Cancels, invariant.cancels] }

theorem Invariant.stopIdle (empty : world.lifecycle.box = none) :
    Invariant
      { world with
        lifecycle := { world.lifecycle with stopRequired := false }
        log := world.log ++ [.stopCalled] } where
  owned := by simpa [Owned, Releases] using invariant.owned
  exclusive := by simpa [Exclusive] using invariant.exclusive
  stopRequired := by simp
  live := by simp [Live, isRunning, empty]
  holdsCancel := by simp [isRunning, empty]
  uncancelled := by simp [Live]
  cancelMade := invariant.cancelMade
  cancelledMade := by simpa using invariant.cancelledMade
  cancels := by simpa [Cancels] using invariant.cancels

/-- The begin of a `Stop` that holds a core. -/
theorem Invariant.stopCalled {box : Core} (held : world.lifecycle.box = some box) :
    Invariant
      { world with
        lifecycle := { world.lifecycle with stopRequired := true }
        log := world.log ++ [.stopCalled] } where
  owned := by simpa [Owned, Releases] using invariant.owned
  exclusive := by simpa [Exclusive] using invariant.exclusive
  stopRequired := by simp [held]
  live := by simp [Live, isRunning]
  holdsCancel := by simp [isRunning]
  uncancelled := by simp [Live]
  cancelMade := invariant.cancelMade
  cancelledMade := by simpa using invariant.cancelledMade
  cancels := by simpa [Cancels] using invariant.cancels

/-- The cancellation in a `Stop`, where nothing is live any more. -/
theorem Invariant.cancelled {ctx : RunContext} (stopping : world.lifecycle.stopRequired = true)
    (cancel : world.lifecycle.cancel = some ctx) : Invariant (world.emit (.cancelled ctx)) where
  owned := by simpa [World.emit, Owned, Releases] using invariant.owned
  exclusive := by simpa [World.emit, Exclusive] using invariant.exclusive
  stopRequired := invariant.stopRequired
  live := by simpa [World.emit, Live] using invariant.live
  holdsCancel := invariant.holdsCancel
  uncancelled := by
    intro other live
    have earlier : Live world.log (some other) := by simpa [World.emit, Live] using live
    have running := ((invariant.live (some other)).mp earlier).1
    simp [isRunning, stopping] at running
  cancelMade := invariant.cancelMade
  cancelledMade := by
    intro other member
    rcases (by simpa [World.emit] using member : .cancelled other ∈ world.log ∨ other = ctx) with
      earlier | now
    · exact invariant.cancelledMade other earlier
    · exact invariant.cancelMade other (now ▸ cancel)
  cancels := by simpa [World.emit, Cancels] using invariant.cancels

/-- A `Close` in a `Stop` that did not complete. -/
theorem Invariant.closeFailed (box : Core) {result : Callback (Option GoError)}
    (incomplete : ¬ Completed result) : Invariant (world.emit (.coreClosed box result)) where
  owned := by simpa [World.emit, Owned, Releases, incomplete] using invariant.owned
  exclusive := by simpa [World.emit, Exclusive] using invariant.exclusive
  stopRequired := invariant.stopRequired
  live := by simpa [World.emit, Live] using invariant.live
  holdsCancel := invariant.holdsCancel
  uncancelled := by simpa [World.emit, Live] using invariant.uncancelled
  cancelMade := invariant.cancelMade
  cancelledMade := by simpa [World.emit] using invariant.cancelledMade
  cancels := by simpa [World.emit, Cancels] using invariant.cancels

/-- A `Close` in a `Stop` that completed: the record is empty again, and so is what is owned. -/
theorem Invariant.closeCompleted {box : Core} {result : Callback (Option GoError)}
    (held : world.lifecycle.box = some box) (stopping : world.lifecycle.stopRequired = true)
    (completed : Completed result) :
    Invariant
      { world.emit (.coreClosed box result) with lifecycle := World.initial.lifecycle } := by
  have dead : ∀ ctx, ¬ Live (world.log ++ [.coreClosed box result]) ctx := by
    intro ctx live
    have earlier : Live world.log ctx := by simpa [Live] using live
    have running := ((invariant.live ctx).mp earlier).1
    simp [isRunning, stopping] at running
  exact
    { owned := by
        intro core
        have holder := invariant.owned core
        rw [Owned, held] at holder
        simp [World.emit, World.initial, Owned, Releases, completed, holder]
      exclusive := by simpa [World.emit, Exclusive] using invariant.exclusive
      stopRequired := by simp [World.initial]
      live := by simp [World.emit, World.initial, isRunning, dead]
      holdsCancel := by simp [World.initial, isRunning]
      uncancelled := fun ctx live => absurd live (dead (some ctx))
      cancelMade := by simp [World.initial]
      cancelledMade := by simpa [World.emit] using invariant.cancelledMade
      cancels := by simpa [World.emit, Cancels] using invariant.cancels }

end Preservation

/-- A `Stop` of a held core that is not interrupted: it was called, cancelled the run and closed the core. -/
theorem Invariant.stopped {world world' : World} (invariant : Invariant world) {box : Core}
    {result : Callback (Option GoError)} (held : world.lifecycle.box = some box)
    (contexts : world'.contexts = world.contexts)
    (log : world'.log = world.log ++ [.stopCalled] ++
      (world.lifecycle.cancel.map Event.cancelled).toList ++ [.coreClosed box result])
    (ending : (Completed result ∧ world'.lifecycle = World.initial.lifecycle) ∨
      (¬ Completed result ∧ world'.lifecycle = { world.lifecycle with stopRequired := true })) :
    Invariant world' := by
  let cancelling : World :=
    { lifecycle := { world.lifecycle with stopRequired := true }
      contexts := world.contexts
      log := world.log ++ [.stopCalled] ++ (world.lifecycle.cancel.map Event.cancelled).toList }
  have stopping : Invariant cancelling := by
    have called := invariant.stopCalled held
    cases cancel : world.lifecycle.cancel with
    | none => simpa [cancelling, cancel] using called
    | some ctx => simpa [cancelling, cancel, World.emit] using called.cancelled rfl cancel
  rcases world' with ⟨lifecycle, made, events⟩
  change made = world.contexts at contexts
  change events = cancelling.log ++ [.coreClosed box result] at log
  rw [contexts, log]
  rcases ending with ⟨completed, cleared⟩ | ⟨incomplete, kept⟩
  · change lifecycle = _ at cleared
    rw [cleared]
    exact stopping.closeCompleted held rfl completed
  · change lifecycle = _ at kept
    rw [kept]
    exact stopping.closeFailed box incomplete

theorem Transition.invariant {world world' : World} (transition : Transition world world')
    (invariant : Invariant world) : Invariant world' := by
  cases transition with
  | refused err => exact invariant.refused err
  | failed err idle => exact invariant.failed err idle
  | dropped candidate result err idle completed => exact invariant.dropped candidate err idle completed
  | retained candidate result err idle incomplete =>
      exact invariant.retained candidate err idle incomplete
  | started candidate idle => exact invariant.started candidate idle
  | stopIdle empty => exact invariant.stopIdle empty
  | stopPanicked box ctx held cancel => exact (invariant.stopCalled held).cancelled rfl cancel
  | stopped box world' result held contexts log ending =>
      exact invariant.stopped held contexts log ending

theorem runCalls_invariant (calls : List (Call Options)) : Invariant (runCalls calls) :=
  run_invariant Invariant.initial
    (fun world call invariant => (step_transition world call).invariant invariant) calls

/-! ### What the invariant gives -/

/-- The record says running exactly while some `Start` has returned nil and no `Stop` came since. -/
theorem Invariant.running_iff {world : World} (invariant : Invariant world) :
    isRunning world.lifecycle = true ↔ ∃ ctx, Live world.log ctx := by
  constructor
  · intro running
    exact ⟨world.lifecycle.cancel, (invariant.live _).mpr ⟨running, rfl⟩⟩
  · intro live
    rcases live with ⟨ctx, since⟩
    exact ((invariant.live ctx).mp since).1

/-- A `Start` that is live has a run context, and nobody cancelled it. -/
theorem Invariant.live_uncancelled {world : World} (invariant : Invariant world)
    {ctx : Option RunContext} (live : Live world.log ctx) :
    ∃ runCtx, ctx = some runCtx ∧ .cancelled runCtx ∉ world.log := by
  have running := (invariant.live ctx).mp live
  cases ctx with
  | none => exact absurd running.2 (invariant.holdsCancel running.1)
  | some runCtx => exact ⟨runCtx, rfl, invariant.uncancelled runCtx live⟩

end ExitfyCores.SingBox
