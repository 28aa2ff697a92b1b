/-
Module: ExitfyCores.Proofs.BoundedCommand
Layer: Proofs
Purpose: What `bounded_command_output` and `_run_bounded` return is all that the child wrote, however its output, its exit
  and the clock are timed. The invariant `Accounted` goes through both loops.
Imports: ExitfyCores.Process.BoundedCommand
Trusted boundary: none
Main exports: bounded, Accounted, readReady_accounted, pollLoop_accounted, drainLoop_accounted, capture_delivered,
  Delivered, boundedOutput_delivered
Open obligations: none
-/
import ExitfyCores.Process.BoundedCommand

namespace ExitfyCores.Process

open Interaction

/-! ### The environment -/

/-- The child does what it likes, and every call may raise. -/
def bounded : Environment Answer System where
  move := ChildStep
  answers before exchange after := Answers before exchange after ∨ Raises before exchange after

/-- The calls that read no pipe and start no child. -/
def Quiet : Call → Prop
  | .read _ _ | .spawn _ => False
  | _ => True

theorem call_attempt (query : Call) : (call query).attempt = .ask query .done := by
  unfold call Interaction.attempt
  congr 1
  funext answer
  cases answer <;> rfl

/-- A call that is caught at once. -/
theorem yields_attempt_call {α : Type} {query : Call} {rest : Answer query → Program α} {before : System → Prop}
    {after : α → System → Prop} (kept : Kept bounded before)
    (later : ∀ answer, Yields bounded (fun next => ∃ here, before here ∧ bounded.answers here ⟨query, answer⟩ next)
      (rest answer) after) : Yields bounded before ((call query).attempt >>= rest) after := by
  rw [call_attempt]
  exact yields_ask kept later

theorem yields_any {α : Type} {program : Program α} {before : System → Prop} :
    Yields bounded before program fun _ _ => True :=
  fun _ _ _ _ _ _ => trivial

/-! ### Pipes -/

theorem Pipe.ended_close {pipe : Pipe} (ended : pipe.Ended) : pipe.close.Ended := ⟨rfl, ended.2⟩

theorem Pipe.taken_write (pipe : Pipe) (data : List UInt8) : (pipe.write data).taken = pipe.taken :=
  List.take_append_of_le_length pipe.within

theorem Pipe.taken_take {pipe : Pipe} {count : Nat} (inside : count ≤ pipe.buffer.length) :
    (pipe.take count inside).taken = pipe.taken ++ pipe.buffer.take count :=
  List.take_add

theorem Pipe.taken_ended {pipe : Pipe} (ended : pipe.Ended) : pipe.taken = pipe.written := by
  rw [Pipe.taken, ended.2, List.take_length]

theorem Pipe.buffer_ended {pipe : Pipe} (ended : pipe.Ended) : pipe.buffer = [] := by
  rw [Pipe.buffer, ended.2, List.drop_length]

theorem System.pipes_setPipe_same (system : System) (stream : Stream) (pipe : Pipe) :
    (system.setPipe stream pipe).pipes stream = pipe := if_pos rfl

theorem System.pipes_setPipe_other (system : System) {stream other : Stream} (pipe : Pipe) (different : other ≠ stream) :
    (system.setPipe stream pipe).pipes other = system.pipes other := if_neg different

/-! ### The buffers -/

theorem Capture.target_unregister (state : Capture) (stream other : Stream) :
    (state.unregister stream).target other = state.target other := by
  cases other <;> rfl

theorem Capture.target_extend_same (state : Capture) (stream : Stream) (chunk : List UInt8) :
    (state.extend stream chunk).target stream = state.target stream ++ chunk := by
  cases stream <;> rfl

theorem Capture.target_extend_other (state : Capture) {stream other : Stream} (chunk : List UInt8)
    (different : other ≠ stream) : (state.extend stream chunk).target other = state.target other := by
  cases stream <;> cases other <;> first | rfl | exact absurd rfl different

theorem Capture.total_extend (state : Capture) (stream : Stream) (chunk : List UInt8) :
    (state.extend stream chunk).total = state.total := by
  cases stream <;> rfl

theorem Capture.failure_extend (state : Capture) (stream : Stream) (chunk : List UInt8) :
    (state.extend stream chunk).failure = state.failure := by
  cases stream <;> rfl

theorem Capture.registered_extend (state : Capture) (stream : Stream) (chunk : List UInt8) :
    (state.extend stream chunk).registered = state.registered := by
  cases stream <;> rfl

/-! ### The invariant -/

/-- All that came out of the pipes is in the buffers and counted, within the limit. -/
structure Complete (limit : Int) (state : Capture) (system : System) : Prop where
  target : ∀ stream, state.target stream = (system.pipes stream).taken
  total : state.total = (system.pipes .stdout).consumed + (system.pipes .stderr).consumed
  within : (state.total : Int) ≤ limit

/-- What the capture knows of the child: a stream that is not watched any more has ended, nothing is lost as long as no
failure is noted, and the leader is reaped with the code that was read, if one was. -/
structure Accounted (limit : Int) (code : Option Int) (state : Capture) (system : System) : Prop where
  owned : system.child ≠ .lost
  child : ∀ returnCode, code = some returnCode → system.child = .reaped returnCode
  ended : ∀ stream, stream ∉ state.registered → (system.pipes stream).Ended
  complete : state.failure = none → Complete limit state system

section

variable {limit : Int} {code : Option Int} {state : Capture} {system next : System}

/-- The invariant looks at the child and at what has come out of the pipes. -/
theorem Accounted.transfer (accounted : Accounted limit code state system) (owned : next.child ≠ .lost)
    (child : ∀ returnCode, system.child = .reaped returnCode → next.child = .reaped returnCode)
    (taken : ∀ stream, (next.pipes stream).taken = (system.pipes stream).taken)
    (consumed : ∀ stream, (next.pipes stream).consumed = (system.pipes stream).consumed)
    (ended : ∀ stream, (system.pipes stream).Ended → (next.pipes stream).Ended) : Accounted limit code state next where
  owned := owned
  child returnCode known := child returnCode (accounted.child returnCode known)
  ended stream unwatched := ended stream (accounted.ended stream unwatched)
  complete unfailed := by
    have complete := accounted.complete unfailed
    refine ⟨fun stream => (complete.target stream).trans (taken stream).symm, ?_, complete.within⟩
    rw [consumed, consumed]
    exact complete.total

theorem Accounted.setPipe {stream : Stream} {pipe : Pipe} (accounted : Accounted limit code state system)
    (taken : pipe.taken = (system.pipes stream).taken) (consumed : pipe.consumed = (system.pipes stream).consumed)
    (ended : (system.pipes stream).Ended → pipe.Ended) : Accounted limit code state (system.setPipe stream pipe) := by
  have cases : ∀ other, (system.setPipe stream pipe).pipes other = system.pipes other ∨
      (other = stream ∧ (system.setPipe stream pipe).pipes other = pipe) := by
    intro other
    by_cases here : other = stream
    · subst here
      exact Or.inr ⟨rfl, System.pipes_setPipe_same _ _ _⟩
    · exact Or.inl (System.pipes_setPipe_other _ _ here)
  refine accounted.transfer accounted.owned (fun _ reaped => reaped) (fun other => ?_) (fun other => ?_)
    fun other wasEnded => ?_
  · rcases cases other with same | ⟨rfl, same⟩
    · rw [same]
    · rw [same, taken]
  · rcases cases other with same | ⟨rfl, same⟩
    · rw [same]
    · rw [same, consumed]
  · rcases cases other with same | ⟨rfl, same⟩
    · rwa [same]
    · rw [same]
      exact ended wasEnded

theorem childStep_accounted (step : ChildStep system next) (accounted : Accounted limit code state system) :
    Accounted limit code state next := by
  cases step with
  | write data writer =>
      refine accounted.setPipe (Pipe.taken_write _ _) rfl fun ended => ?_
      exact absurd (ended.1.symm.trans writer) Bool.false_ne_true
  | close stream => exact accounted.setPipe rfl rfl Pipe.ended_close
  | exit exitCode alive =>
      refine accounted.transfer (fun impossible => nomatch impossible) ?_ (fun _ => rfl) (fun _ => rfl) fun _ ended => ended
      intro returnCode reaped
      exact nomatch alive.symm.trans reaped

theorem kept_accounted : Kept bounded (Accounted limit code state) :=
  fun _ _ step accounted => childStep_accounted step accounted

/-- What a quiet call does to the system: nothing to the pipes, and a leader that is reaped stays so. -/
theorem answers_quiet {exchange : Exchange Answer} (quiet : Quiet exchange.query)
    (answered : bounded.answers system exchange next) :
    next.pipes = system.pipes ∧ (system.child ≠ .lost → next.child ≠ .lost) ∧
      ∀ returnCode, system.child = .reaped returnCode → next.child = .reaped returnCode := by
  rcases answered with answered | raised
  · cases answered with
    | spawn | read | ended | blocked => exact quiet.elim
    | terminated _ alive | killed alive | killedAlone alive | wait alive =>
        refine ⟨rfl, (fun _ impossible => nomatch impossible), fun returnCode reaped => ?_⟩
        exact nomatch alive.symm.trans reaped
    | _ => exact ⟨rfl, id, fun _ reaped => reaped⟩
  · cases raised with
    | here => exact ⟨rfl, id, fun _ reaped => reaped⟩
    | behind _ exited =>
        refine ⟨rfl, (fun _ impossible => nomatch impossible), fun returnCode reaped => ?_⟩
        exact nomatch exited.symm.trans reaped

theorem quiet_accounted {exchange : Exchange Answer} (quiet : Quiet exchange.query)
    (answered : bounded.answers system exchange next) (accounted : Accounted limit code state system) :
    Accounted limit code state next := by
  obtain ⟨pipes, owned, reaped⟩ := answers_quiet quiet answered
  refine accounted.transfer (owned accounted.owned) reaped ?_ ?_ ?_
  · intro stream
    rw [pipes]
  · intro stream
    rw [pipes]
  · intro stream ended
    rwa [pipes]

/-- A stream that is at its end is not watched any more. -/
theorem Accounted.unregister {stream : Stream} (accounted : Accounted limit code state system)
    (ended : (system.pipes stream).Ended) : Accounted limit code (state.unregister stream) system where
  owned := accounted.owned
  child := accounted.child
  ended other unwatched := by
    by_cases same : other = stream
    · rwa [same]
    · exact accounted.ended other fun watched => unwatched ((List.mem_erase_of_ne same).mpr watched)
  complete unfailed :=
    have complete := accounted.complete unfailed
    ⟨fun other => (Capture.target_unregister ..).trans (complete.target other), complete.total, complete.within⟩

/-- A failure is noted, and the streams are watched as before. -/
theorem Accounted.failed {other : Capture} (accounted : Accounted limit code state system)
    (watched : other.registered = state.registered) (failed : other.failure ≠ none) :
    Accounted limit code other system where
  owned := accounted.owned
  child := accounted.child
  ended stream unwatched := accounted.ended stream (watched ▸ unwatched)
  complete unfailed := absurd unfailed failed

/-- What `os.read` gives: end of file, or the next bytes of the pipe. -/
theorem answers_read {stream : Stream} {count : Nat} {chunk : List UInt8}
    (answered : bounded.answers system ⟨.read stream count, .ok chunk⟩ next) :
    (chunk = [] ∧ next = system ∧ (system.pipes stream).Ended) ∨ (chunk ≠ [] ∧
      ∃ taken inside, next = system.setPipe stream ((system.pipes stream).take taken inside) ∧
        chunk = (system.pipes stream).buffer.take taken) := by
  rcases answered with answered | raised
  · cases answered with
    | read taken positive _ inside =>
        refine Or.inr ⟨?_, taken, inside, rfl, rfl⟩
        refine List.ne_nil_of_length_pos ?_
        rwa [List.length_take, Nat.min_eq_left inside]
    | ended ended => exact Or.inl ⟨rfl, rfl, ended⟩
  · cases raised

/-- A chunk comes out of a pipe: the pipe had not ended, and its bytes are behind those that came before. -/
structure Received (stream : Stream) (chunk : List UInt8) (system next : System) : Prop where
  child : next.child = system.child
  other : ∀ other, other ≠ stream → next.pipes other = system.pipes other
  taken : (next.pipes stream).taken = (system.pipes stream).taken ++ chunk
  consumed : (next.pipes stream).consumed = (system.pipes stream).consumed + chunk.length
  notEnded : ¬ (system.pipes stream).Ended

theorem received_of_read {stream : Stream} {count : Nat} {chunk : List UInt8} (filled : chunk ≠ [])
    (answered : bounded.answers system ⟨.read stream count, .ok chunk⟩ next) : Received stream chunk system next := by
  rcases answers_read answered with ⟨empty, _⟩ | ⟨_, taken, inside, rfl, rfl⟩
  · exact absurd empty filled
  · refine ⟨rfl, fun other different => System.pipes_setPipe_other _ _ different, ?_, ?_, fun ended => ?_⟩
    · rw [System.pipes_setPipe_same]
      exact Pipe.taken_take inside
    · rw [System.pipes_setPipe_same, List.length_take, Nat.min_eq_left inside]
      rfl
    · rw [Pipe.buffer_ended ended, List.take_nil] at filled
      exact filled rfl

/-- The invariant but for what is in the buffers. -/
theorem Received.accounted {stream : Stream} {chunk : List UInt8} (received : Received stream chunk system next)
    (accounted : Accounted limit code state system) {other : Capture} (watched : other.registered = state.registered)
    (complete : other.failure = none → Complete limit other next) : Accounted limit code other next where
  owned := received.child ▸ accounted.owned
  child returnCode known := received.child.trans (accounted.child returnCode known)
  ended unwatched notWatched := by
    have wasEnded := accounted.ended unwatched (watched ▸ notWatched)
    by_cases same : unwatched = stream
    · subst same
      exact absurd wasEnded received.notEnded
    · rwa [received.other unwatched same]
  complete := complete

/-- The chunk is put behind the buffer and counted, where it is within the limit. -/
theorem Received.complete {stream : Stream} {chunk : List UInt8} (received : Received stream chunk system next)
    (complete : Complete limit state system) (within : ((state.count chunk).total : Int) ≤ limit) :
    Complete limit ((state.count chunk).extend stream chunk) next where
  target other := by
    by_cases same : other = stream
    · subst same
      rw [Capture.target_extend_same, received.taken, ← complete.target other]
      cases other <;> rfl
    · rw [Capture.target_extend_other _ _ same, received.other other same, ← complete.target other]
      cases other <;> rfl
  total := by
    have total := complete.total
    have consumed := received.consumed
    have others := received.other
    rw [Capture.total_extend, Capture.count]
    cases stream with
    | stdout =>
        rw [consumed, others .stderr (by decide), total]
        exact Nat.add_right_comm _ _ _
    | stderr =>
        rw [consumed, others .stdout (by decide), total]
        exact Nat.add_assoc _ _ _
  within := by rwa [Capture.total_extend]

/-- A read that raises has read nothing. -/
theorem answers_read_error {stream : Stream} {count : Nat} {fault : Fault}
    (answered : bounded.answers system ⟨.read stream count, .error fault⟩ next) : next = system := by
  rcases answered with answered | raised
  · cases answered
    rfl
  · cases raised
    rfl

/-- A read that is caught: what its continuation does with each of its answers. -/
theorem yields_read {α : Type} {stream : Stream} {count : Nat} {rest : Except Fault (List UInt8) → Program α}
    {after : α → System → Prop}
    (blocked : Yields bounded (Accounted limit code state) (rest (.error .blocking)) after)
    (raised : ∀ fault, fault ≠ .blocking → ∀ before, Yields bounded before (rest (.error fault)) after)
    (ended : Yields bounded (Accounted limit code (state.unregister stream)) (rest (.ok [])) after)
    (received : ∀ chunk, chunk ≠ [] → Yields bounded (fun next => ∃ here, Accounted limit code state here ∧
      Received stream chunk here next) (rest (.ok chunk)) after) :
    Yields bounded (Accounted limit code state) ((call (.read stream count)).attempt >>= rest) after := by
  refine yields_attempt_call kept_accounted fun answer => ?_
  cases answer with
  | error fault =>
      by_cases blocking : fault = .blocking
      · rw [blocking]
        refine blocked.strengthen ?_
        rintro _ ⟨here, accounted, answered⟩
        rwa [answers_read_error answered]
      · exact raised fault blocking _
  | ok chunk =>
      by_cases empty : chunk = ([] : List UInt8)
      · rw [empty]
        refine ended.strengthen ?_
        rintro next ⟨here, accounted, answered⟩
        rcases answers_read answered with ⟨_, rfl, atEnd⟩ | ⟨filled, _⟩
        · exact accounted.unregister atEnd
        · exact absurd rfl filled
      · refine (received chunk empty).strengthen ?_
        rintro next ⟨here, accounted, answered⟩
        exact ⟨here, accounted, received_of_read empty answered⟩

end

/-! ### The first loop -/

section

variable {command : Command} {code : Option Int} {state : Capture}

theorem readReady_accounted {ready : List Stream} :
    Yields bounded (Accounted command.maxOutputBytes code state) (readReady command state ready) fun result system =>
      Accounted command.maxOutputBytes code result system := by
  induction ready generalizing state with
  | nil => exact yields_done fun _ accounted => accounted
  | cons stream rest ih =>
      refine yields_read ih (fun fault other before => ?_) ih fun chunk filled => ?_
      · cases fault <;> first | exact yields_raise | exact absurd rfl other
      change Yields bounded _ (if chunk = [] then _ else _) _
      rw [if_neg filled]
      by_cases large : command.maxOutputBytes < (state.count chunk).total
      · rw [if_pos large]
        refine yields_done ?_
        rintro next ⟨here, accounted, received⟩
        exact received.accounted accounted rfl fun impossible => nomatch impossible
      · rw [if_neg large]
        refine ih.strengthen ?_
        rintro next ⟨here, accounted, received⟩
        refine received.accounted accounted (Capture.registered_extend ..) fun unfailed => ?_
        rw [Capture.failure_extend] at unfailed
        exact received.complete (accounted.complete unfailed) (Int.not_lt.mp large)

end

/-! ### Programs that make quiet calls only -/

/-- The program makes quiet calls only. -/
def QuietOnly {α : Type} (program : Program α) : Prop :=
  Only (fun exchange : Exchange Answer => Quiet exchange.query) program fun _ => True

section

variable {α β : Type} {command : Command}

theorem quiet_done (a : α) : QuietOnly (.done a) := only_done trivial

theorem quiet_raise (fault : Fault) : QuietOnly (.raise fault : Program α) := only_raise

theorem quiet_call {query : Call} (quiet : Quiet query) : QuietOnly (call query) := by
  refine only_ask (fun _ => quiet) fun answer => ?_
  cases answer with
  | ok result => exact quiet_done result
  | error fault => exact quiet_raise fault

theorem QuietOnly.bind {program : Program α} {next : α → Program β} (first : QuietOnly program)
    (rest : ∀ a, QuietOnly (next a)) : QuietOnly (program >>= next) :=
  Only.bind first fun a _ => rest a

theorem QuietOnly.attempt {program : Program α} (quiet : QuietOnly program) : QuietOnly program.attempt :=
  fun log outcome trace => ⟨(Only.attempt quiet log outcome trace).1, fun _ _ => trivial⟩

theorem verifyPinnedExecutable_quiet : QuietOnly (verifyPinnedExecutable command) := by
  refine (@quiet_call .verify trivial).attempt.bind fun answer => ?_
  split
  · split
    · exact quiet_done ()
    · exact quiet_raise _
  · split
    · exact quiet_raise _
    · exact quiet_raise _

theorem commandLeaderExited_quiet : QuietOnly commandLeaderExited := by
  refine (@quiet_call .waitid trivial).attempt.bind fun answer => ?_
  split
  · exact quiet_done _
  · exact quiet_raise _
  · exact quiet_raise _

theorem commandGroupExists_quiet : QuietOnly commandGroupExists := by
  refine (@quiet_call (.killpg .zero) trivial).attempt.bind fun answer => ?_
  split
  · exact quiet_done _
  · exact quiet_done _
  · exact quiet_done _
  · exact quiet_raise _

theorem checkOwnGroup_quiet : QuietOnly (checkOwnGroup command) := by
  refine (@quiet_call .getpgid trivial).attempt.bind fun answer => ?_
  split
  · split
    · exact quiet_done _
    · exact quiet_raise _
  · refine commandLeaderExited_quiet.bind fun exited => ?_
    split
    · exact quiet_done _
    · exact quiet_raise _
  · split
    · exact quiet_raise _
    · exact quiet_raise _

theorem terminateCommandGroup_quiet {leaderExited : Bool} : QuietOnly (terminateCommandGroup command leaderExited) := by
  refine QuietOnly.bind ?_ fun known => (@quiet_call (.killpg .kill) trivial).attempt.bind fun answer => ?_
  · split
    · exact quiet_done _
    · exact checkOwnGroup_quiet
  · split
    · exact quiet_done _
    · exact quiet_done _
    · split
      · exact quiet_done _
      · split
        · exact quiet_raise _
        · exact quiet_raise _

/-- Quiet calls keep what a single quiet call keeps. -/
theorem QuietOnly.keeps {program : Program α} (quiet : QuietOnly program) {holds : System → Prop}
    (kept : Kept bounded holds)
    (still : ∀ {before exchange after}, Quiet exchange.query → bounded.answers before exchange after → holds before →
      holds after) : Yields bounded holds program fun _ => holds :=
  (Only.yields quiet kept fun _ _ _ quietCall answered before => still quietCall answered before).weaken
    fun _ _ both => both.2

theorem QuietOnly.accounted {program : Program α} (quiet : QuietOnly program) {limit : Int} {code : Option Int}
    {state : Capture} :
    Yields bounded (Accounted limit code state) program fun _ => Accounted limit code state :=
  quiet.keeps kept_accounted quiet_accounted

/-- What is returned from under the handler was returned by the part. -/
theorem yields_guarded {part : Program α} {leaderExited notesLost : Bool} {before : System → Prop}
    {after : α → System → Prop} (yields : Yields bounded before part after) :
    Yields bounded before (guarded command leaderExited notesLost part) after := by
  refine Yields.bind (Yields.attempt yields (fun _ _ _ _ _ _ => trivial : ∀ _ _ _ _, _ → _ → True)) fun result => ?_
  cases result with
  | ok a => exact yields_done fun _ holds => holds
  | error fault =>
      exact Yields.bind yields_any fun _ => yields_raise

end

/-! ### The leader is reaped -/

section

variable {command : Command} {limit : Int} {state : Capture}

theorem reapLeader_accounted :
    Yields bounded (Accounted limit none state) (reapLeader command) fun returnCode system =>
      Accounted limit (some returnCode) state system := by
  refine yields_attempt_call kept_accounted fun answer => ?_
  cases answer with
  | error fault => cases fault <;> exact yields_raise
  | ok returnCode =>
      refine yields_done ?_
      rintro next ⟨here, accounted, answered⟩
      have kept : Accounted limit none state next := quiet_accounted (by exact trivial) answered accounted
      have reaped : next.child = .reaped returnCode := by
        rcases answered with answered | raised
        · cases answered with
          | wait => rfl
          | waitAgain reaped => exact reaped
          | waitLost lost => exact absurd lost accounted.owned
        · cases raised
      refine ⟨kept.owned, ?_, kept.ended, kept.complete⟩
      rintro _ ⟨⟩
      exact reaped

theorem finalizeCommandGroup_accounted {leaderExited : Bool} :
    Yields bounded (Accounted limit none state) (finalizeCommandGroup command leaderExited) fun returnCode system =>
      Accounted limit (some returnCode) state system := by
  refine Yields.bind terminateCommandGroup_quiet.accounted fun killError => ?_
  refine Yields.bind reapLeader_accounted fun returnCode => ?_
  split
  · refine Yields.bind commandGroupExists_quiet.accounted fun survives => ?_
    split
    · exact yields_raise
    · exact yields_done fun _ accounted => accounted
  · exact yields_done fun _ accounted => accounted

end

/-! ### The loops -/

section

variable {command : Command} {state : Capture}

theorem pollTurn_accounted :
    Yields bounded (Accounted command.maxOutputBytes none state) (pollTurn command state) fun turn system =>
      Accounted command.maxOutputBytes none turn.1 system := by
  refine Yields.bind (QuietOnly.accounted (@quiet_call (.select state.registered) trivial)) fun ready => ?_
  refine Yields.bind readReady_accounted fun read => ?_
  refine Yields.bind commandLeaderExited_quiet.accounted fun exited => ?_
  exact yields_done fun _ accounted => accounted

/-- Whatever stands behind the probe keeps the invariant of the first loop. -/
def RecheckAccounted (command : Command) (recheck : Capture → Program Capture) : Prop :=
  ∀ state, Yields bounded (Accounted command.maxOutputBytes none state) (recheck state) fun result system =>
    Accounted command.maxOutputBytes none result system

theorem pollLoop_accounted {recheck : Capture → Program Capture} {deadline : Int} {turns : Nat}
    (rechecked : RecheckAccounted command recheck) :
    Yields bounded (Accounted command.maxOutputBytes none state) (pollLoop command recheck deadline turns state)
      fun result system => Accounted command.maxOutputBytes none result.1 system := by
  induction turns generalizing state with
  | zero =>
      refine yields_ask kept_accounted fun answer => ?_
      cases answer with
      | ok impossible => exact nomatch impossible
      | error fault => exact yields_raise
  | succ turns ih =>
      refine Yields.bind (yields_guarded (QuietOnly.accounted (@quiet_call .monotonic trivial))) fun now => ?_
      split
      · exact yields_done fun _ accounted => accounted.failed rfl fun impossible => nomatch impossible
      · refine Yields.bind (yields_guarded pollTurn_accounted) fun turn => ?_
        refine Yields.bind (yields_guarded (rechecked turn.1)) fun checked => ?_
        split
        · exact yields_done fun _ accounted => accounted
        · exact ih

theorem Capture.drain_within {stream : Stream} {chunk : List UInt8}
    (within : ((state.count chunk).total : Int) ≤ command.maxOutputBytes) :
    state.drain command stream chunk = (state.count chunk).extend stream chunk := by
  have notLarge : ¬ command.maxOutputBytes < (state.count chunk).total := Int.not_lt.mpr within
  simp only [Capture.drain, notLarge, and_false, if_false, within, if_true]

/-- A chunk that exceeds the budget leaves a failure. -/
theorem Capture.drain_large {stream : Stream} {chunk : List UInt8}
    (large : command.maxOutputBytes < (state.count chunk).total) :
    (state.drain command stream chunk).registered = state.registered ∧
      (state.drain command stream chunk).failure ≠ none := by
  have notWithin : ¬ ((state.count chunk).total : Int) ≤ command.maxOutputBytes := Int.not_le.mpr large
  cases failure : (state.count chunk).failure with
  | none =>
      have drained : state.drain command stream chunk = (state.count chunk).fail command.tooLarge := by
        simp only [Capture.drain, failure, large, and_self, if_true]
        exact if_neg notWithin
      rw [drained]
      exact ⟨rfl, fun impossible => nomatch impossible⟩
  | some message =>
      have drained : state.drain command stream chunk = state.count chunk := by
        simp only [Capture.drain, failure, reduceCtorEq, false_and, if_false, notWithin]
      rw [drained, failure]
      exact ⟨rfl, fun impossible => nomatch impossible⟩

/-- A chunk of the second loop. -/
theorem Received.drain {code : Option Int} {stream : Stream} {chunk : List UInt8} {system next : System}
    (received : Received stream chunk system next) (accounted : Accounted command.maxOutputBytes code state system) :
    Accounted command.maxOutputBytes code (state.drain command stream chunk) next := by
  by_cases large : command.maxOutputBytes < (state.count chunk).total
  · obtain ⟨watched, failed⟩ := Capture.drain_large large
    exact received.accounted accounted watched fun impossible => absurd impossible failed
  · have within := Int.not_lt.mp large
    rw [Capture.drain_within within]
    refine received.accounted accounted (Capture.registered_extend ..) fun unfailed => ?_
    rw [Capture.failure_extend] at unfailed
    exact received.complete (accounted.complete unfailed) within

theorem drainReady_accounted {code : Option Int} {ready : List Stream} :
    Yields bounded (Accounted command.maxOutputBytes code state) (drainReady command state ready) fun result system =>
      Accounted command.maxOutputBytes code result system := by
  induction ready generalizing state with
  | nil => exact yields_done fun _ accounted => accounted
  | cons stream rest ih =>
      refine yields_read ih (fun fault other before => ?_) ih fun chunk filled => ?_
      · cases fault <;> first | exact yields_raise | exact absurd rfl other
      change Yields bounded _ (if chunk = [] then _ else _) _
      rw [if_neg filled]
      refine ih.strengthen ?_
      rintro next ⟨here, accounted, received⟩
      exact received.drain accounted

theorem drainLoop_accounted {code : Option Int} {deadline : Int} {turns : Nat} :
    Yields bounded (Accounted command.maxOutputBytes code state) (drainLoop command deadline turns state)
      fun result system => Accounted command.maxOutputBytes code result system := by
  induction turns generalizing state with
  | zero =>
      refine yields_ask kept_accounted fun answer => ?_
      cases answer with
      | ok impossible => exact nomatch impossible
      | error fault => exact yields_raise
  | succ turns ih =>
      unfold drainLoop
      split
      · exact yields_done fun _ accounted => accounted
      · refine Yields.bind (QuietOnly.accounted (@quiet_call .monotonic trivial)) fun now => ?_
        split
        · exact yields_done fun _ accounted => accounted
        · refine Yields.bind (QuietOnly.accounted (@quiet_call (.select state.registered) trivial)) fun ready => ?_
          exact Yields.bind drainReady_accounted fun drained => ih

end

/-! ### What is returned -/

/-- Both pipes are at their end, the output is all that was written to the first, both together are within the limit, and
the child has exited with status 0. -/
structure Delivered (limit : Int) (output : List UInt8) (system : System) : Prop where
  ended : ∀ stream, (system.pipes stream).Ended
  output : output = (system.pipes .stdout).written
  within : (((system.pipes .stdout).written.length + (system.pipes .stderr).written.length : Nat) : Int) ≤ limit
  child : system.child = .reaped 0

section

variable {command : Command} {state : Capture}

theorem Accounted.delivered {system : System} (accounted : Accounted command.maxOutputBytes (some 0) state system)
    (unwatched : state.registered = []) (unfailed : state.failure = none) :
    Delivered command.maxOutputBytes state.stdout system := by
  have ended : ∀ stream, (system.pipes stream).Ended := by
    intro stream
    refine accounted.ended stream ?_
    rw [unwatched]
    exact List.not_mem_nil
  have complete := accounted.complete unfailed
  refine ⟨ended, ?_, ?_, accounted.child 0 rfl⟩
  · exact (complete.target .stdout).trans (Pipe.taken_ended (ended .stdout))
  · rw [← (ended .stdout).2, ← (ended .stderr).2, ← complete.total]
    exact complete.within

theorem conclude_delivered {returnCode : Int} :
    Yields bounded (Accounted command.maxOutputBytes (some returnCode) state) (conclude command returnCode state)
      fun output system => Delivered command.maxOutputBytes output system := by
  unfold conclude
  by_cases retained : state.registered ≠ [] ∧ state.failure = none
  · rw [if_pos retained]
    exact yields_raise
  · rw [if_neg retained]
    cases unfailed : state.failure with
    | some message => exact yields_raise
    | none =>
        change Yields bounded _ (if returnCode ≠ 0 then _ else _) _
        split
        · exact yields_raise
        · next zero =>
            rw [not_not.mp zero]
            refine yields_done fun system accounted => accounted.delivered ?_ unfailed
            exact not_not.mp fun watched => retained ⟨watched, unfailed⟩

theorem finish_delivered {turns : Nat} {leaderExited : Bool} :
    Yields bounded (Accounted command.maxOutputBytes none state) (finish command turns state leaderExited)
      fun output system => Delivered command.maxOutputBytes output system := by
  have probed : Yields bounded (Accounted command.maxOutputBytes none state)
      (if leaderExited then pure true else guarded command false true commandLeaderExited)
      fun _ => Accounted command.maxOutputBytes none state := by
    split
    · exact yields_done fun _ accounted => accounted
    · exact yields_guarded commandLeaderExited_quiet.accounted
  refine Yields.bind probed fun exited => ?_
  refine yields_guarded ?_
  refine Yields.bind finalizeCommandGroup_accounted fun returnCode => ?_
  refine Yields.bind verifyPinnedExecutable_quiet.accounted fun _ => ?_
  refine Yields.bind (QuietOnly.accounted (@quiet_call .monotonic trivial)) fun start => ?_
  exact Yields.bind drainLoop_accounted fun drained => conclude_delivered

/-- The child has been started and nothing was read. -/
structure Started (system : System) : Prop where
  child : system.child ≠ .lost
  unread : ∀ stream, (system.pipes stream).consumed = 0

theorem Started.accounted {limit : Int} {system : System} (started : Started system) (nonnegative : 0 ≤ limit) :
    Accounted limit none .empty system where
  owned := started.child
  child _ impossible := nomatch impossible
  ended stream unwatched := by
    cases stream <;> exact absurd (by decide) unwatched
  complete _ := by
    refine ⟨fun stream => ?_, ?_, nonnegative⟩
    · rw [Pipe.taken, started.unread]
      cases stream <;> rfl
    · rw [started.unread, started.unread]
      rfl

theorem capture_delivered {prepare : Program Unit} {recheck : Capture → Program Capture} {deadline : Int} {turns : Nat}
    (nonnegative : 0 ≤ command.maxOutputBytes) (quiet : QuietOnly prepare)
    (rechecked : RecheckAccounted command recheck) :
    Yields bounded Started (capture command prepare recheck deadline turns) fun output system =>
      Delivered command.maxOutputBytes output system := by
  have opened : QuietOnly (do
      prepare
      call (.register .stdout)
      call (.register .stderr)) :=
    quiet.bind fun _ => (@quiet_call (.register .stdout) trivial).bind fun _ => @quiet_call (.register .stderr) trivial
  refine Yields.strengthen ?_ fun system started => started.accounted nonnegative
  refine Yields.bind (yields_guarded opened.accounted) fun _ => ?_
  exact Yields.bind (pollLoop_accounted rechecked) fun result => finish_delivered

end

/-! ### The start and the end -/

theorem Started.setPipe {system : System} {stream : Stream} {pipe : Pipe} (started : Started system)
    (unread : pipe.consumed = (system.pipes stream).consumed) : Started (system.setPipe stream pipe) := by
  refine ⟨started.child, fun other => ?_⟩
  by_cases same : other = stream
  · subst same
    rw [System.pipes_setPipe_same, unread]
    exact started.unread other
  · rw [System.pipes_setPipe_other _ _ same]
    exact started.unread other

theorem kept_started : Kept bounded Started := by
  intro before after step started
  cases step with
  | write data writer => exact started.setPipe rfl
  | close stream => exact started.setPipe rfl
  | exit code alive => exact ⟨(fun impossible => nomatch impossible), started.unread⟩

theorem quiet_started {system next : System} {exchange : Exchange Answer} (quiet : Quiet exchange.query)
    (answered : bounded.answers system exchange next) (started : Started system) : Started next := by
  obtain ⟨pipes, owned, _⟩ := answers_quiet quiet answered
  exact ⟨owned started.child, fun stream => pipes ▸ started.unread stream⟩

theorem Delivered.transfer {limit : Int} {output : List UInt8} {system next : System}
    (delivered : Delivered limit output system) (pipes : next.pipes = system.pipes) (child : next.child = .reaped 0) :
    Delivered limit output next := by
  refine ⟨?_, ?_, ?_, child⟩
  · rw [pipes]
    exact delivered.ended
  · rw [pipes]
    exact delivered.output
  · rw [pipes]
    exact delivered.within

/-- Nothing comes behind the end of a pipe. -/
theorem kept_delivered {limit : Int} {output : List UInt8} : Kept bounded (Delivered limit output) := by
  intro before after step delivered
  cases step with
  | write data writer => exact absurd ((delivered.ended _).1.symm.trans writer) Bool.false_ne_true
  | close stream =>
      refine delivered.transfer ?_ delivered.child
      funext other
      by_cases same : other = stream
      · subst same
        rw [System.pipes_setPipe_same, Pipe.close, ← (delivered.ended other).1]
      · rw [System.pipes_setPipe_other _ _ same]
  | exit code alive => exact nomatch alive.symm.trans delivered.child

theorem release_delivered {limit : Int} {output : List UInt8} :
    Yields bounded (Delivered limit output) (call .release) fun _ => Delivered limit output :=
  (@quiet_call .release trivial).keeps kept_delivered fun quiet answered delivered =>
    have still := answers_quiet quiet answered
    delivered.transfer still.1 (still.2.2 0 delivered.child)

theorem kept_absent : Kept bounded fun system => system.child = .absent := by
  intro before after step absent
  cases step with
  | write data writer => exact absent
  | close stream => exact absent
  | exit code alive => exact nomatch alive.symm.trans absent

theorem startCommand_started {arguments : List String} {couldNotStart : String} :
    Yields bounded (fun system => system.child = .absent) (startCommand arguments couldNotStart) fun _ => Started := by
  have pinned : Yields bounded (fun system => system.child = .absent) (call (.pin (arguments.headD ""))) fun _ system =>
      system.child = .absent := by
    refine (@quiet_call (.pin (arguments.headD "")) trivial).keeps kept_absent ?_
    intro before exchange after quiet answered absent
    rcases answered with answered | raised
    · cases answered with
      | spawn | read | ended | blocked => exact quiet.elim
      | terminated _ alive | killed alive | killedAlone alive | wait alive => exact nomatch alive.symm.trans absent
      | _ => exact absent
    · cases raised with
      | here => exact absent
      | behind _ exited => exact nomatch exited.symm.trans absent
  refine Yields.bind pinned fun path => ?_
  refine yields_attempt_call kept_absent fun answer => ?_
  cases answer with
  | ok started =>
      refine yields_done ?_
      rintro next ⟨here, absent, answered | raised⟩
      · cases answered
        exact ⟨(fun impossible => nomatch impossible), fun _ => rfl⟩
      · cases raised
  | error fault =>
      refine Yields.bind yields_any fun _ => ?_
      split
      · exact yields_raise
      · exact yields_raise

theorem recheckDeadline_accounted {command : Command} {deadline : Int} :
    RecheckAccounted command (checkDeadline command deadline) := by
  intro state
  refine Yields.bind (QuietOnly.accounted (@quiet_call .monotonic trivial)) fun now => ?_
  split
  · exact yields_done fun _ accounted => accounted.failed rfl fun impossible => nomatch impossible
  · exact yields_done fun _ accounted => accounted

theorem capture_released {command : Command} {prepare : Program Unit} {recheck : Capture → Program Capture}
    {deadline : Int} {turns : Nat} (nonnegative : 0 ≤ command.maxOutputBytes) (quiet : QuietOnly prepare)
    (rechecked : RecheckAccounted command recheck) :
    Yields bounded Started (finally_ (capture command prepare recheck deadline turns) (call .release)) fun output system =>
      Delivered command.maxOutputBytes output system :=
  (capture_delivered nonnegative quiet rechecked).finally_ fun _ => release_delivered

theorem boundedCommandOutput_delivered {detail : List UInt8 → String} {arguments : List String}
    {maxOutputBytes timeout : Int} {turns : Nat} :
    Yields bounded (fun system => system.child = .absent)
      (boundedCommandOutput detail arguments maxOutputBytes timeout turns) (Delivered maxOutputBytes) := by
  refine Yields.bind yields_throwIf fun _ => yields_fact fun valid => ?_
  have nonnegative : 0 ≤ maxOutputBytes := by
    by_contra negative
    exact valid (Or.inr (Or.inl (Int.not_le.mp negative)))
  refine Yields.bind startCommand_started fun path => ?_
  have verified : QuietOnly (verifyPinnedExecutable (builderCommand detail maxOutputBytes)).attempt :=
    verifyPinnedExecutable_quiet.attempt
  refine Yields.bind (verified.keeps kept_started quiet_started) fun result => ?_
  cases result with
  | error fault => exact Yields.bind yields_any fun _ => yields_raise
  | ok unchanged =>
      refine Yields.bind ((@quiet_call .hasPipes trivial).keeps kept_started quiet_started) fun piped => ?_
      split
      · exact Yields.bind yields_any fun _ => Yields.bind yields_any fun _ => yields_raise
      · refine Yields.bind ((@quiet_call .monotonic trivial).keeps kept_started quiet_started) fun start => ?_
        exact @capture_released (builderCommand detail maxOutputBytes) _ _ _ _ nonnegative (quiet_done ())
          recheckDeadline_accounted

theorem runBounded_delivered {detail : List UInt8 → String} {arguments : List String} {turns : Nat} :
    Yields bounded (fun system => system.child = .absent) (runBounded detail arguments turns)
      (Delivered (1024 * 1024)) := by
  refine Yields.bind yields_throwIf fun _ => yields_fact fun _ => ?_
  refine Yields.bind startCommand_started fun path => ?_
  refine Yields.bind ((@quiet_call .monotonic trivial).keeps kept_started quiet_started) fun start => ?_
  have nonnegative : 0 ≤ (verifierCommand detail path).maxOutputBytes := by
    change (0 : Int) ≤ 1024 * 1024
    decide
  refine @capture_released (verifierCommand detail path) _ _ _ _ nonnegative ?_ ?_
  · refine verifyPinnedExecutable_quiet.bind fun _ => (@quiet_call .hasPipes trivial).bind fun piped => ?_
    split
    · exact quiet_raise _
    · exact quiet_done ()
  · exact fun state => yields_done fun _ accounted => accounted

/-- What `bounded_command_output` returns is complete, and so is what `_run_bounded` returns, whatever the child and the
clock do and whatever the calls raise. -/
theorem boundedOutput_delivered (detail : List UInt8 → String) (arguments : List String) (turns : Nat) :
    (∀ maxOutputBytes timeout, Yields bounded (fun system => system.child = .absent)
      (boundedCommandOutput detail arguments maxOutputBytes timeout turns) (Delivered maxOutputBytes)) ∧
      Yields bounded (fun system => system.child = .absent) (runBounded detail arguments turns)
        (Delivered (1024 * 1024)) :=
  ⟨fun _ _ => boundedCommandOutput_delivered, runBounded_delivered⟩

section

variable {α : Type} {query : Call} {rest : Answer query → Program α} {system next : System} {outcome : Except Fault α}

theorem canEnd_call {result : Result query} (answered : Answers system ⟨query, .ok result⟩ next)
    (later : CanEnd bounded (rest (.ok result)) next outcome) : CanEnd bounded (.ask query rest) system outcome :=
  canEnd_answered (Or.inl answered) later

theorem canEnd_step (step : ChildStep system next) (later : CanEnd bounded (.ask query rest) next outcome) :
    CanEnd bounded (.ask query rest) system outcome :=
  canEnd_moved step later

end

/-- A child that writes one byte, closes its pipes and exits. -/
theorem boundedOutput_delivered_oneByte :
    ∃ log final, Run bounded (boundedCommandOutput (fun _ => "") ["/bin/git"] 32 1000 2)
      ⟨fun _ => .fresh, .absent⟩ log (.ok [104]) final ∧ Delivered 32 [104] final := by
  have run : CanEnd bounded (boundedCommandOutput (fun _ => "") ["/bin/git"] 32 1000 2)
      ⟨fun _ => .fresh, .absent⟩ (.ok [104]) := by
    apply canEnd_call (.pin _ _ "/bin/git")
    apply canEnd_call (.spawn _ rfl)
    apply canEnd_call (.verify _ true)
    apply canEnd_call (.hasPipes _ true)
    apply canEnd_call (.monotonic _ 0)
    apply canEnd_call (.register _ _)
    apply canEnd_call (.register _ _)
    apply canEnd_call (.monotonic _ 0)
    apply canEnd_step (@ChildStep.write _ .stdout [104] rfl)
    apply canEnd_step (.close .stdout)
    apply canEnd_step (.close .stderr)
    apply canEnd_step (.exit 0 rfl)
    apply canEnd_call (.select _ (List.Subset.refl [Stream.stdout, .stderr]) (by decide))
    apply canEnd_call (.read 1 (by decide) (by decide) (by decide))
    apply canEnd_call (.ended ⟨rfl, rfl⟩)
    apply canEnd_call (.waitidExited rfl)
    apply canEnd_call (.monotonic _ 0)
    -- The leader has exited; the group is killed and the leader is reaped.
    apply canEnd_call (.killpg _ .kill)
    apply canEnd_call (.wait rfl)
    apply canEnd_call (.verify _ true)
    apply canEnd_call (.monotonic _ 0)
    apply canEnd_call (.monotonic _ 0)
    apply canEnd_call (.select _ (List.Subset.refl [Stream.stdout]) (by decide))
    apply canEnd_call (.ended ⟨rfl, rfl⟩)
    apply canEnd_call (.release _)
    exact canEnd_done [104]
  obtain ⟨log, final, run⟩ := run
  exact ⟨log, final, run, (boundedOutput_delivered (fun _ => "") ["/bin/git"] 2).1 32 1000 _ log [104] final rfl run⟩

end ExitfyCores.Process
