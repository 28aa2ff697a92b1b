/-
Module: ExitfyCores.Process.BoundedCommand
Layer: Process
Purpose: `bounded_command_output` of `scripts/build_singbox_source_bundle.py` and `_run_bounded` of
  `scripts/verify_build_inputs.py`: the capture of both pipes of a child under one byte budget and two deadlines.
Imports: ExitfyCores.Process.System
Trusted boundary: human-reviewed spec; times are whole milliseconds; the text that is made of stderr is the parameter
  `detail`, about which nothing is assumed
Main exports: Command, Capture, readReady, pollLoop, drainReady, drainLoop, finalizeCommandGroup, capture,
  boundedCommandOutput, runBounded
Open obligations: none
-/
import ExitfyCores.Process.System

namespace ExitfyCores.Process

open Interaction

/-- The numbers and the texts in which the two functions differ. -/
structure Command where
  maxOutputBytes : Int
  chunkBytes : Nat
  drainTime : Int
  changed : String
  timedOut : String
  tooLarge : String
  retained : String
  identity : String
  escaped : String
  terminate : String
  reap : String
  survived : String
  failed : Int → List UInt8 → String

/-- The local variables of the capture; `registered` is the map of the selector. -/
structure Capture where
  stdout : List UInt8
  stderr : List UInt8
  total : Nat
  failure : Option String
  registered : List Stream

/-- `streams[descriptor][1]` -/
def Capture.target (state : Capture) : Stream → List UInt8
  | .stdout => state.stdout
  | .stderr => state.stderr

/-- `streams[descriptor][1].extend(chunk)` -/
def Capture.extend (state : Capture) (stream : Stream) (chunk : List UInt8) : Capture :=
  match stream with
  | .stdout => { state with stdout := state.stdout ++ chunk }
  | .stderr => { state with stderr := state.stderr ++ chunk }

/-- `selector.unregister(key.fileobj)` -/
def Capture.unregister (state : Capture) (stream : Stream) : Capture :=
  { state with registered := state.registered.erase stream }

/-- `total += len(chunk)` -/
def Capture.count (state : Capture) (chunk : List UInt8) : Capture := { state with total := state.total + chunk.length }

def Capture.fail (state : Capture) (message : String) : Capture := { state with failure := some message }

/-- Before the first event. -/
def Capture.empty : Capture :=
  { stdout := [], stderr := [], total := 0, failure := none, registered := [.stdout, .stderr] }

/-! ### The leader and its group -/

/-- `verify_pinned_executable` -/
def verifyPinnedExecutable (command : Command) : Program Unit := do
  match ← (call .verify).attempt with
  | .ok (same : Bool) => if same then pure () else raise command.changed
  | .error fault => if fault.isOSError then raise command.changed else .raise fault

/-- `command_leader_exited` -/
def commandLeaderExited : Program Bool := do
  match ← (call .waitid).attempt with
  | .ok exited => pure exited
  | .error .childProcess => .raise .lost
  | .error fault => .raise fault

/-- `command_group_exists` -/
def commandGroupExists : Program Bool := do
  match ← (call (.killpg .zero)).attempt with
  | .ok _ => pure true
  | .error .processLookup => pure false
  | .error .permission => pure true
  | .error fault => .raise fault

/-- The part of `terminate_command_group` in front of the signal: whether the leader is known to have exited. -/
def checkOwnGroup (command : Command) : Program Bool := do
  match ← (call .getpgid).attempt with
  | .ok (own : Bool) => if own then pure false else raise command.escaped
  | .error .processLookup => do
      let exited ← commandLeaderExited
      if exited then pure true else .raise .lost
  | .error fault => if fault.isOSError then raise command.identity else .raise fault

/-- `terminate_command_group`: the error that is only reported when the group survives. -/
def terminateCommandGroup (command : Command) (leaderExited : Bool) : Program (Option Fault) := do
  let leaderExited ← (if leaderExited then pure true else checkOwnGroup command)
  match ← (call (.killpg .kill)).attempt with
  | .ok _ => pure none
  | .error .processLookup => pure none
  | .error fault =>
      if leaderExited = true ∧ fault = .permission then pure (some fault)
      else if fault.isOSError then raise command.terminate
      else .raise fault

/-- `process.wait(timeout=…)` -/
def reapLeader (command : Command) : Program Int := do
  match ← (call .wait).attempt with
  | .ok returnCode => pure returnCode
  | .error .timeout => raise command.reap
  | .error fault => .raise fault

/-- `finalize_command_group` -/
def finalizeCommandGroup (command : Command) (leaderExited : Bool) : Program Int := do
  let killError ← terminateCommandGroup command leaderExited
  let returnCode ← reapLeader command
  if killError ≠ none then
    let survives ← commandGroupExists
    if survives then raise command.survived
  return returnCode

/-- What the handler of the capture does. -/
def cleanUp (command : Command) (leaderExited ownershipLost : Bool) : Program Unit := do
  let returncode : Option Int ← call .returncode
  if returncode = none ∧ ownershipLost = false then
    let _ ← Interaction.attempt do
      let leaderExited ← (if leaderExited then pure true else commandLeaderExited)
      finalizeCommandGroup command leaderExited
    return ()

/-- A part of the capture under its handler: what is known of the leader there, and whether an ownership error of this part
comes from a probe that notes it. -/
def guarded {α : Type} (command : Command) (leaderExited notesLost : Bool) (part : Program α) : Program α := do
  match ← part.attempt with
  | .ok a => pure a
  | .error fault => do
      cleanUp command leaderExited (notesLost && fault = .lost)
      .raise fault

/-! ### The loops -/

/-- The events of one `select` in the first loop; `break` where the budget is exceeded. -/
def readReady (command : Command) (state : Capture) : List Stream → Program Capture
  | [] => pure state
  | stream :: rest => do
      match ← (call (.read stream command.chunkBytes)).attempt with
      | .error .blocking => readReady command state rest
      | .error fault => .raise fault
      | .ok (chunk : List UInt8) =>
          if chunk = [] then readReady command (state.unregister stream) rest
          else
            let counted := state.count chunk
            if command.maxOutputBytes < counted.total then pure (counted.fail command.tooLarge)
            else readReady command (counted.extend stream chunk) rest

/-- One turn of the first loop, up to the probe of the leader. -/
def pollTurn (command : Command) (state : Capture) : Program (Capture × Bool) := do
  let ready : List Stream ← call (.select state.registered)
  let state ← readReady command state ready
  let leaderExited ← commandLeaderExited
  return (state, leaderExited)

/-- `while not leader_exited and failure is None: …`; `recheck` is what stands behind the probe. -/
def pollLoop (command : Command) (recheck : Capture → Program Capture) (deadline : Int) :
    Nat → Capture → Program (Capture × Bool)
  | 0, _ => stall
  | turns + 1, state => do
      let now : Int ← guarded command false true (call .monotonic)
      if deadline - now ≤ 0 then return (state.fail command.timedOut, false)
      else do
        let turn ← guarded command false true (pollTurn command state)
        let state ← guarded command turn.2 true (recheck turn.1)
        if turn.2 = true ∨ state.failure ≠ none then return (state, turn.2)
        else pollLoop command recheck deadline turns state

/-- What one chunk of the second loop does. -/
def Capture.drain (command : Command) (state : Capture) (stream : Stream) (chunk : List UInt8) : Capture :=
  let counted := state.count chunk
  let checked :=
    if counted.failure = none ∧ command.maxOutputBytes < counted.total then counted.fail command.tooLarge else counted
  if (checked.total : Int) ≤ command.maxOutputBytes then checked.extend stream chunk else checked

/-- The events of one `select` in the second loop. -/
def drainReady (command : Command) (state : Capture) : List Stream → Program Capture
  | [] => pure state
  | stream :: rest => do
      match ← (call (.read stream command.chunkBytes)).attempt with
      | .error .blocking => drainReady command state rest
      | .error fault => .raise fault
      | .ok (chunk : List UInt8) =>
          if chunk = [] then drainReady command (state.unregister stream) rest
          else drainReady command (state.drain command stream chunk) rest

/-- `while selector.get_map() and time.monotonic() < drain_deadline: …` -/
def drainLoop (command : Command) (deadline : Int) : Nat → Capture → Program Capture
  | 0, _ => stall
  | turns + 1, state =>
      if state.registered = [] then pure state
      else do
        let now : Int ← call .monotonic
        if deadline ≤ now then pure state
        else do
          let ready : List Stream ← call (.select state.registered)
          let state ← drainReady command state ready
          drainLoop command deadline turns state

/-! ### The capture -/

/-- The verdict behind the second loop. -/
def conclude (command : Command) (returnCode : Int) (state : Capture) : Program (List UInt8) :=
  let failure := if state.registered ≠ [] ∧ state.failure = none then some command.retained else state.failure
  match failure with
  | some message => raise message
  | none => if returnCode ≠ 0 then raise (command.failed returnCode state.stderr) else pure state.stdout

/-- What stands behind the first loop. -/
def finish (command : Command) (turns : Nat) (state : Capture) (leaderExited : Bool) : Program (List UInt8) := do
  let leaderExited ← (if leaderExited then pure true else guarded command false true commandLeaderExited)
  guarded command leaderExited false do
    let returnCode ← finalizeCommandGroup command leaderExited
    verifyPinnedExecutable command
    let start : Int ← call .monotonic
    let state ← drainLoop command (start + command.drainTime) turns state
    conclude command returnCode state

/-- The block under `try`; `prepare` is what it does first. -/
def capture (command : Command) (prepare : Program Unit) (recheck : Capture → Program Capture) (deadline : Int)
    (turns : Nat) : Program (List UInt8) := do
  guarded command false true do
    prepare
    call (.register .stdout)
    call (.register .stderr)
  let (state, leaderExited) ← pollLoop command recheck deadline turns .empty
  finish command turns state leaderExited

/-! ### The two functions -/

/-- What `bounded_command_output` captures with. -/
def builderCommand (detail : List UInt8 → String) (maxOutputBytes : Int) : Command where
  maxOutputBytes := maxOutputBytes
  chunkBytes := 64 * 1024
  drainTime := 2000
  changed := "bounded subprocess executable changed"
  timedOut := "subprocess timed out"
  tooLarge := "subprocess output exceeds bounded limit"
  retained := "subprocess descendants retained output pipes"
  identity := "subprocess group identity could not be verified"
  escaped := "subprocess escaped its owned process group"
  terminate := "subprocess group could not be terminated"
  reap := "subprocess leader could not be reaped"
  survived := "subprocess group could not be killed"
  failed returnCode stderr := s!"subprocess failed ({returnCode}): {detail stderr}"

/-- What `_run_bounded` captures with. -/
def verifierCommand (detail : List UInt8 → String) (path : String) : Command where
  maxOutputBytes := 1024 * 1024
  chunkBytes := 64 * 1024
  drainTime := 2000
  changed := "command executable changed"
  timedOut := "command timed out"
  tooLarge := "command output is too large"
  retained := "command descendants retained output pipes"
  identity := "command group identity cannot be verified"
  escaped := "command escaped its owned process group"
  terminate := "command process group cannot be terminated"
  reap := "command leader cannot be reaped"
  survived := "command process group could not be killed"
  failed _ stderr := s!"command failed: {path}: {detail stderr}"

/-- The second look of `bounded_command_output` at the clock. -/
def checkDeadline (command : Command) (deadline : Int) (state : Capture) : Program Capture := do
  let now : Int ← call .monotonic
  return if deadline ≤ now then state.fail command.timedOut else state

/-- Pinning and starting the executable; its path is given back. -/
def startCommand (arguments : List String) (couldNotStart : String) : Program String := do
  let path : String ← call (.pin (arguments.headD ""))
  match ← (call (.spawn (path :: arguments.tail))).attempt with
  | .ok _ => pure path
  | .error fault => do
      call .release
      if fault.isOSError then raise (couldNotStart ++ path) else .raise fault

/-- `bounded_command_output`, for runs of at most so many turns of each loop. -/
def boundedCommandOutput (detail : List UInt8 → String) (arguments : List String) (maxOutputBytes timeout : Int)
    (turns : Nat) : Program (List UInt8) := do
  .throwIf (arguments = [] ∨ maxOutputBytes < 0 ∨ timeout ≤ 0 ∨ "" ∈ arguments)
    (.raised "invalid bounded subprocess request")
  let command := builderCommand detail maxOutputBytes
  let _ ← startCommand arguments "subprocess could not start: "
  match ← (verifyPinnedExecutable command).attempt with
  | .error fault => do
      finally_ (do
        call .kill
        let _ ← call .wait
        return ()) (call .release)
      .raise fault
  | .ok _ => do
      let piped : Bool ← call .hasPipes
      if piped = false then do
        let _ ← Interaction.attempt do
          let leaderExited ← commandLeaderExited
          finalizeCommandGroup command leaderExited
        call .release
        raise "subprocess pipes could not be created"
      else do
        let start : Int ← call .monotonic
        finally_ (capture command (pure ()) (checkDeadline command (start + timeout)) (start + timeout) turns)
          (call .release)

/-- `COMMAND_TIMEOUT_SECONDS` -/
def commandTimeout : Int := 90000

/-- `_run_bounded`, for runs of at most so many turns of each loop. -/
def runBounded (detail : List UInt8 → String) (arguments : List String) (turns : Nat) : Program (List UInt8) := do
  .throwIf (arguments = [] ∨ "" ∈ arguments) (.raised "command arguments are invalid")
  let path ← startCommand arguments "command could not start: "
  let command := verifierCommand detail path
  let start : Int ← call .monotonic
  let prepare : Program Unit := do
    verifyPinnedExecutable command
    let piped : Bool ← call .hasPipes
    if piped = false then raise "command output pipes were not created"
  finally_ (capture command prepare pure (start + commandTimeout) turns) (call .release)

end ExitfyCores.Process
