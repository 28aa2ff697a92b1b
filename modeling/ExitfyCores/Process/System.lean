/-
Module: ExitfyCores.Process.System
Layer: Process
Purpose: What the scripts see of a child process that leads its own group: two pipes, its exit, its reaping, and the calls
  on them.
Imports: ExitfyCores.Lib.Interleaving
Trusted boundary: human-reviewed spec; a pipe is closed for good when its last writer is gone; a call is one step; the clock
  may show anything
Main exports: Stream, Pipe, Child, System, ChildStep, Fault, Signal, Call, Answers, Raises, Program, call, raise, stall
Open obligations: none
-/
import ExitfyCores.Lib.Interleaving

namespace ExitfyCores.Process

open Interaction

/-! ### Pipes -/

inductive Stream where
  | stdout
  | stderr
deriving Repr, DecidableEq

/-- A pipe by all that was ever written to it, how much of that was read, and whether a writer is left. -/
structure Pipe where
  written : List UInt8
  consumed : Nat
  isOpen : Bool
  within : consumed ≤ written.length

/-- What is in the pipe. -/
def Pipe.buffer (pipe : Pipe) : List UInt8 := pipe.written.drop pipe.consumed

/-- What has come out of it. -/
def Pipe.taken (pipe : Pipe) : List UInt8 := pipe.written.take pipe.consumed

/-- End of file: no writer is left and nothing is in the pipe. -/
def Pipe.Ended (pipe : Pipe) : Prop := pipe.isOpen = false ∧ pipe.consumed = pipe.written.length

def Pipe.write (pipe : Pipe) (data : List UInt8) : Pipe where
  written := pipe.written ++ data
  consumed := pipe.consumed
  isOpen := pipe.isOpen
  within := by
    rw [List.length_append]
    exact Nat.le_add_right_of_le pipe.within

def Pipe.close (pipe : Pipe) : Pipe := { pipe with isOpen := false }

def Pipe.take (pipe : Pipe) (count : Nat) (inside : count ≤ pipe.buffer.length) : Pipe where
  written := pipe.written
  consumed := pipe.consumed + count
  isOpen := pipe.isOpen
  within := by
    rw [Pipe.buffer, List.length_drop] at inside
    have within := pipe.within
    omega

/-- A fresh pipe. -/
def Pipe.fresh : Pipe := { written := [], consumed := 0, isOpen := true, within := Nat.le_refl 0 }

/-! ### The child -/

/-- The leader of the group. An exit code is what `Popen.returncode` says, and `lost` is a leader that was reaped
elsewhere. -/
inductive Child where
  | absent
  | running
  | exited (code : Int)
  | reaped (code : Int)
  | lost
deriving Repr, DecidableEq

/-- The number of the group belongs to the leader as long as nobody has reaped it. -/
def Child.Unreaped : Child → Prop
  | .running | .exited _ => True
  | .absent | .reaped _ | .lost => False

/-- The signals that a group gets; 0 only asks whether it exists. -/
inductive Signal where
  | zero
  | term
  | kill
deriving Repr, DecidableEq

structure System where
  pipes : Stream → Pipe
  child : Child

def System.setPipe (system : System) (stream : Stream) (pipe : Pipe) : System :=
  { system with pipes := fun other => if other = stream then pipe else system.pipes other }

/-- What the child and its descendants do. -/
inductive ChildStep : System → System → Prop where
  | write {system : System} {stream : Stream} (data : List UInt8) (writer : (system.pipes stream).isOpen = true) :
      ChildStep system (system.setPipe stream ((system.pipes stream).write data))
  | close {system : System} (stream : Stream) : ChildStep system (system.setPipe stream (system.pipes stream).close)
  | exit {system : System} (code : Int) (alive : system.child = .running) :
      ChildStep system { system with child := .exited code }

/-! ### Calls -/

/-- The exceptions that the scripts tell apart; `lost` is their own `ProcessOwnershipLost`, and `raised` are their other
errors. -/
inductive Fault where
  | processLookup
  | permission
  | blocking
  | interrupted
  | childProcess
  | os
  | timeout
  | interrupt
  | other
  | lost
  | raised (message : String)
deriving Repr, DecidableEq

/-- `isinstance(error, OSError)` -/
def Fault.isOSError : Fault → Bool
  | .processLookup | .permission | .blocking | .interrupted | .childProcess | .os => true
  | _ => false

/-- The calls: `pin` opens the executable and gives its path, `verify` tells whether it is still the same, `returncode` is
the attribute of the process, and `release` closes what the script holds at its end. -/
inductive Call where
  | pin (command : String)
  | spawn (arguments : List String)
  | verify
  | hasPipes
  | register (stream : Stream)
  | monotonic
  | sleep
  | select (streams : List Stream)
  | read (stream : Stream) (count : Nat)
  | close (stream : Stream)
  | release
  | waitid
  | getpgid
  | killpg (signal : Signal)
  | kill
  | wait
  | returncode
  | stall
deriving Repr, DecidableEq

/-- What a call returns. -/
def Result : Call → Type
  | .pin _ => String
  | .monotonic => Int
  | .select _ => List Stream
  | .read _ _ => List UInt8
  | .verify | .hasPipes | .waitid | .getpgid => Bool
  | .wait => Int
  | .returncode => Option Int
  | .stall => Empty
  | _ => Unit

/-- What a call returns or raises. -/
abbrev Answer (query : Call) : Type := Except Fault (Result query)

/-- How calls are answered: `waitid` tells whether the leader has exited and is not reaped yet, `getpgid` whether it is
still in its own group. Behind a leader that was reaped elsewhere `wait` finds nothing and says 0. -/
inductive Answers : System → Exchange Answer → System → Prop where
  | pin (system : System) (command path : String) : Answers system ⟨.pin command, .ok path⟩ system
  | spawn {system : System} (arguments : List String) (absent : system.child = .absent) :
      Answers system ⟨.spawn arguments, .ok ()⟩ { pipes := fun _ => .fresh, child := .running }
  | verify (system : System) (same : Bool) : Answers system ⟨.verify, .ok same⟩ system
  | hasPipes (system : System) (both : Bool) : Answers system ⟨.hasPipes, .ok both⟩ system
  | register (system : System) (stream : Stream) : Answers system ⟨.register stream, .ok ()⟩ system
  | monotonic (system : System) (now : Int) : Answers system ⟨.monotonic, .ok now⟩ system
  | sleep (system : System) : Answers system ⟨.sleep, .ok ()⟩ system
  | select (system : System) {streams ready : List Stream} (registered : ready ⊆ streams) (nodup : ready.Nodup) :
      Answers system ⟨.select streams, .ok ready⟩ system
  | read {system : System} {stream : Stream} {limit : Nat} (count : Nat) (some : 0 < count) (small : count ≤ limit)
      (inside : count ≤ (system.pipes stream).buffer.length) :
      Answers system ⟨.read stream limit, .ok ((system.pipes stream).buffer.take count)⟩
        (system.setPipe stream ((system.pipes stream).take count inside))
  | ended {system : System} {stream : Stream} {limit : Nat} (ended : (system.pipes stream).Ended) :
      Answers system ⟨.read stream limit, .ok []⟩ system
  | blocked (system : System) (stream : Stream) (limit : Nat) :
      Answers system ⟨.read stream limit, .error .blocking⟩ system
  | close (system : System) (stream : Stream) : Answers system ⟨.close stream, .ok ()⟩ system
  | release (system : System) : Answers system ⟨.release, .ok ()⟩ system
  | waitidRunning {system : System} (alive : system.child = .running) : Answers system ⟨.waitid, .ok false⟩ system
  | waitidExited {system : System} {code : Int} (exited : system.child = .exited code) :
      Answers system ⟨.waitid, .ok true⟩ system
  | waitidInterrupted (system : System) : Answers system ⟨.waitid, .error .interrupted⟩ system
  | waitidGone {system : System} (gone : ¬ system.child.Unreaped) : Answers system ⟨.waitid, .error .childProcess⟩ system
  | getpgid (system : System) (own : Bool) : Answers system ⟨.getpgid, .ok own⟩ system
  | killpg (system : System) (signal : Signal) : Answers system ⟨.killpg signal, .ok ()⟩ system
  | killpgFailed (system : System) (signal : Signal) {fault : Fault} (isOSError : fault.isOSError = true) :
      Answers system ⟨.killpg signal, .error fault⟩ system
  | terminated {system : System} (code : Int) (alive : system.child = .running) :
      Answers system ⟨.killpg .term, .ok ()⟩ { system with child := .exited code }
  | killed {system : System} (alive : system.child = .running) :
      Answers system ⟨.killpg .kill, .ok ()⟩ { system with child := .exited (-9) }
  | kill (system : System) : Answers system ⟨.kill, .ok ()⟩ system
  | killedAlone {system : System} (alive : system.child = .running) :
      Answers system ⟨.kill, .ok ()⟩ { system with child := .exited (-9) }
  | wait {system : System} {code : Int} (exited : system.child = .exited code) :
      Answers system ⟨.wait, .ok code⟩ { system with child := .reaped code }
  | waitAgain {system : System} {code : Int} (reaped : system.child = .reaped code) :
      Answers system ⟨.wait, .ok code⟩ system
  | waitLost {system : System} (lost : system.child = .lost) : Answers system ⟨.wait, .ok (0 : Int)⟩ system
  | waitTimeout {system : System} (unreaped : system.child.Unreaped) : Answers system ⟨.wait, .error .timeout⟩ system
  | returncode {system : System} {code : Int} (reaped : system.child = .reaped code) :
      Answers system ⟨.returncode, .ok (some code)⟩ system
  | noReturncode {system : System} (unreaped : system.child.Unreaped) : Answers system ⟨.returncode, .ok none⟩ system

/-- A call raises, whatever its usual errors are. `ProcessOwnershipLost` is not for calls to raise, and ECHILD says that
there is no such child. A `wait` that is broken off may have reaped the leader. -/
inductive Raises : System → Exchange Answer → System → Prop where
  | here (system : System) {query : Call} {fault : Fault} (foreign : fault ≠ .lost)
      (known : query = .waitid → fault ≠ .childProcess) (called : query ≠ .stall ∧ query ≠ .returncode) :
      Raises system ⟨query, .error fault⟩ system
  | behind {system : System} {code : Int} {fault : Fault} (foreign : fault ≠ .lost)
      (exited : system.child = .exited code) : Raises system ⟨.wait, .error fault⟩ { system with child := .reaped code }

/-! ### Programs -/

abbrev Program (α : Type) : Type := Interaction Answer Fault α

/-- A call; what it raises is raised. -/
def call (query : Call) : Program (Result query) :=
  .ask query fun
    | .ok result => .done result
    | .error fault => .raise fault

/-- `raise` -/
def raise {α : Type} (message : String) : Program α := .raise (.raised message)

/-- The turns of a loop that a run is followed for are used up: it goes on and on. -/
def stall {α : Type} : Program α := .ask .stall fun
  | .ok impossible => nomatch impossible
  | .error fault => .raise fault

end ExitfyCores.Process
