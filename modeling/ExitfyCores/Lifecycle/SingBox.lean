/-
Module: ExitfyCores.Lifecycle.SingBox
Layer: Lifecycle
Purpose: `Start`, `Stop`, `closeCore` and `isOnlyClosed` of `singbox/internal/bridge/bridge.go`, with every
  callback free to return or to panic. What the callbacks and the callers see is recorded in a log.
Imports: ExitfyCores.Bridge.SafeError, ExitfyCores.Lib.GoError, ExitfyCores.Lib.History
Trusted boundary: human-reviewed spec; the option decoder and the callbacks are parameters, about which
  nothing is assumed
Main exports: isOnlyClosed, closeCore, Lifecycle, Event, World, start, stop, isRunning, Call, runCalls
Open obligations: none
-/
import ExitfyCores.Bridge.SafeError
import ExitfyCores.Lib.GoError
import ExitfyCores.Lib.History

namespace ExitfyCores.SingBox

/-- `MaxConfigBytes` -/
def maxConfigBytes : Nat := 16 <<< 20

mutual

/-- `isOnlyClosed` -/
def isOnlyClosed : Option GoError → Bool
  | none => true
  | some err => errOnlyClosed err

/-- `isOnlyClosed` of an error that is not nil, by the kind of its `Unwrap`. -/
def errOnlyClosed : GoError → Bool
  | .join _ children => !children.isEmpty && allOnlyClosed children
  | .wrap _ child => child.isSome && isOnlyClosed child
  | .closed => true
  | .leaf _ => false

/-- The loop of `isOnlyClosed` over the children of a joined error. -/
def allOnlyClosed : List (Option GoError) → Bool
  | [] => true
  | child :: children => isOnlyClosed child && allOnlyClosed children

end

/-- A core, as the pointer behind the `core` interface. -/
abbrev Core := Nat

/-- A run context, together with its `cancel` function. -/
abbrev RunContext := Nat

/-- The `lifecycle` record; `box` is its field `instance`. -/
structure Lifecycle where
  box : Option Core
  cancel : Option RunContext
  stopRequired : Bool
deriving Repr, DecidableEq

/-- What the outside sees of the calls. -/
inductive Event where
  | newCoreCalled (ctx : RunContext)
  | handedOut (core : Core)
  | cancelled (ctx : RunContext)
  | coreClosed (core : Core) (result : Callback (Option GoError))
  | startReturned (ctx : Option RunContext) (err : Option GoError)
  | stopCalled

/-- The record, the number of contexts made so far (each is new) and the log. -/
structure World where
  lifecycle : Lifecycle
  contexts : Nat
  log : List Event

/-- The process before its first call. -/
def World.initial : World :=
  { lifecycle := { box := none, cancel := none, stopRequired := false }, contexts := 0, log := [] }

/-- One more event. -/
def World.emit (world : World) (event : Event) : World := { world with log := world.log ++ [event] }

/-- How the callbacks behave during one call; `newCore` gives a candidate, an error, both or neither. -/
structure Callbacks (Options : Type) where
  unmarshal : Bytes → Callback (Except GoError Options)
  newCore : RunContext → Options → Callback (Option Core × Option GoError)
  coreStart : Core → Callback (Option GoError)
  coreClose : Core → Callback (Option GoError)
  cancel : RunContext → Callback Unit

variable {Options : Type}

/-- `closeCore`, on what `Close` did. -/
def closeCore (result : Callback (Option GoError)) : Option GoError :=
  match result with
  | .returned err => err
  | .panicked recovered => some (.leaf (lit "core close panic: " ++ recovered))

/-- `recoveredError` -/
def recoveredError (pre : String) (recovered : Bytes) : GoError :=
  .leaf (Bridge.SingBox.safeError (lit pre ++ lit ": " ++ recovered))

/-- `fmt.Errorf` of a text with `%w` and a `cleanup` behind it. -/
def cleanupErrorf (pre : String) (err closeError : GoError) : GoError :=
  .wrap (lit pre ++ err.text ++ lit "; cleanup: " ++ closeError.text) (some err)

/-- The end of a `Start` that made the context `ctx`, if any. -/
def World.startReturns (world : World) (ctx : Option RunContext) (err : Option GoError) :
    World × Option GoError :=
  (world.emit (.startReturned ctx err), err)

/-- The candidate is closed; unless that ends in nil or in only closed errors it is kept for `Stop`,
and the close error is the result. -/
def World.closeOrRetain (world : World) (callbacks : Callbacks Options) (candidate : Core)
    (ctx : RunContext) : World × Option GoError :=
  let world := world.emit (.coreClosed candidate (callbacks.coreClose candidate))
  let closeError := closeCore (callbacks.coreClose candidate)
  if isOnlyClosed closeError then (world, none)
  else
    ({ world with lifecycle := { box := some candidate, cancel := some ctx, stopRequired := true } },
      closeError)

/-- The branches of `Start` that give up on a candidate: cancel, close or retain, and the error, which
mentions the close error of a retained candidate where `cleanup` is given. -/
def World.abandon (world : World) (callbacks : Callbacks Options) (candidate : Option Core)
    (ctx : RunContext) (err : GoError) (cleanup : GoError → GoError) : World × Option GoError :=
  let world := world.emit (.cancelled ctx)
  match candidate with
  | none => world.startReturns (some ctx) (some err)
  | some candidate =>
      match world.closeOrRetain callbacks candidate ctx with
      | (world, none) => world.startReturns (some ctx) (some err)
      | (world, some closeError) => world.startReturns (some ctx) (some (cleanup closeError))

/-- The deferred recovery of `Start` behind the creation of the context. -/
def World.recoverStart (world : World) (callbacks : Callbacks Options) (candidate : Option Core)
    (ctx : RunContext) (recovered : Bytes) : World × Option GoError :=
  let err := recoveredError "SB core start panic" recovered
  world.abandon callbacks candidate ctx err fun _ => err

/-- `newCore` is called with the next context. -/
def World.callNewCore (world : World) : World :=
  { world.emit (.newCoreCalled world.contexts) with contexts := world.contexts + 1 }

/-- `Start` from the call of `newCore` on. A call through the nil interface panics. -/
def startCore (callbacks : Callbacks Options) (options : Options) (world : World) :
    World × Option GoError :=
  let ctx := world.contexts
  let world := world.callNewCore
  match callbacks.newCore ctx options with
  | .panicked recovered => world.recoverStart callbacks none ctx recovered
  | .returned (none, some err) =>
      world.abandon callbacks none ctx (errorf "create SB core: " err) (cleanupErrorf "create SB core: " err)
  | .returned (some candidate, some err) =>
      (world.emit (.handedOut candidate)).abandon callbacks (some candidate) ctx
        (errorf "create SB core: " err) (cleanupErrorf "create SB core: " err)
  | .returned (none, none) =>
      world.recoverStart callbacks none ctx
        (lit "runtime error: invalid memory address or nil pointer dereference")
  | .returned (some candidate, none) =>
      let world := world.emit (.handedOut candidate)
      match callbacks.coreStart candidate with
      | .panicked recovered => world.recoverStart callbacks (some candidate) ctx recovered
      | .returned (some err) =>
          world.abandon callbacks (some candidate) ctx (errorf "start SB core: " err)
            (cleanupErrorf "start SB core: " err)
      | .returned none =>
          let lifecycle := { box := some candidate, cancel := some ctx, stopRequired := false }
          { world with lifecycle := lifecycle }.startReturns (some ctx) none

/-- `Start` -/
def start (callbacks : Callbacks Options) (configJSON : Bytes) (world : World) :
    World × Option GoError :=
  let configJSON := trimSpace configJSON
  if configJSON = [] then world.startReturns none (some (.new "empty SB core configuration"))
  else if maxConfigBytes < configJSON.length then
    world.startReturns none (some (.new s!"SB core configuration exceeds {maxConfigBytes} bytes"))
  else if world.lifecycle.box.isSome || world.lifecycle.stopRequired then
    world.startReturns none (some (.new "SB core is already running or requires StopCore"))
  else
    match callbacks.unmarshal configJSON with
    | .panicked recovered =>
        world.startReturns none (some (recoveredError "SB core start panic" recovered))
    | .returned (.error err) =>
        world.startReturns none (some (errorf "invalid SB core configuration: " err))
    | .returned (.ok options) => startCore callbacks options world

/-- The cancellation in `Stop`: what it logs, and the value it may panic with. -/
def World.cancelRun (world : World) (callbacks : Callbacks Options) : World × Callback Unit :=
  match world.lifecycle.cancel with
  | none => (world, .returned ())
  | some ctx => (world.emit (.cancelled ctx), callbacks.cancel ctx)

/-- The last steps of `Stop`: the core is closed, and the record is cleared unless that failed. -/
def World.closeBox (world : World) (callbacks : Callbacks Options) (box : Core) : World × Option GoError :=
  let world := world.emit (.coreClosed box (callbacks.coreClose box))
  match closeCore (callbacks.coreClose box) with
  | none => ({ world with lifecycle := World.initial.lifecycle }, none)
  | some closeError =>
      if isOnlyClosed (some closeError) then
        ({ world with lifecycle := World.initial.lifecycle }, none)
      else (world, some (errorf "stop SB core: " closeError))

/-- `Stop` on the core `box`. -/
def stopCore (callbacks : Callbacks Options) (box : Core) (world : World) : World × Option GoError :=
  let world := { world with lifecycle := { world.lifecycle with stopRequired := true } }
  match world.cancelRun callbacks with
  | (world, .panicked recovered) => (world, some (recoveredError "SB core stop panic" recovered))
  | (world, .returned _) => world.closeBox callbacks box

/-- `Stop` -/
def stop (callbacks : Callbacks Options) (world : World) : World × Option GoError :=
  let world := world.emit .stopCalled
  match world.lifecycle.box with
  | none => ({ world with lifecycle := { world.lifecycle with stopRequired := false } }, none)
  | some box => stopCore callbacks box world

/-- `IsRunning` -/
def isRunning (lifecycle : Lifecycle) : Bool := lifecycle.box.isSome && !lifecycle.stopRequired

/-! ### Runs -/

/-- One call of a run, with the behaviour of the callbacks during it. -/
inductive Call (Options : Type) where
  | start (callbacks : Callbacks Options) (configJSON : Bytes)
  | stop (callbacks : Callbacks Options)

/-- One call of a run. -/
def step (world : World) : Call Options → World
  | .start callbacks configJSON => (start callbacks configJSON world).1
  | .stop callbacks => (stop callbacks world).1

/-- The world behind a run of calls. -/
def runCalls (calls : List (Call Options)) : World := History.run step World.initial calls

end ExitfyCores.SingBox
