/-
Module: ExitfyCores.Proofs.CopyRegular
Layer: Proofs
Purpose: What `_copy_regular` leaves behind when it raises, and what the destination holds when it returns.
Imports: ExitfyCores.Proofs.StableRead
Trusted boundary: none
Main exports: Uses, KeepsNames, KeepsOutputs, writeAll_content, copyChunks_content, copyBlock_content, LeavesNothing,
  LeavesBlock, copyRegular_outcome
Open obligations: none
-/
import ExitfyCores.Proofs.StableRead

namespace ExitfyCores.Release.Files

open Interaction Py

/-! ### Which calls a program makes -/

/-- Calls that change no file. -/
def Call.reads : Call → Prop
  | .create _ | .write _ _ | .unlink _ => False
  | _ => True

/-- Calls that change no name. -/
def Call.keepsNames : Call → Prop
  | .create _ | .unlink _ => False
  | _ => True

/-- The program makes only such calls. -/
def Uses {α : Type} (allowed : Call → Prop) (program : Program α) : Prop :=
  Only (fun exchange => allowed exchange.query) program fun _ => True

section Uses

variable {α β : Type} {allowed : Call → Prop} {program : Program α}

theorem Uses.bind {next : α → Program β} (first : Uses allowed program) (rest : ∀ a, Uses allowed (next a)) :
    Uses allowed (program >>= next) := Only.bind first fun a _ => rest a

theorem Uses.attempt (uses : Uses allowed program) : Uses allowed program.attempt := by
  intro log outcome trace
  exact ⟨(Only.attempt uses log outcome trace).1, fun _ _ => trivial⟩

theorem uses_pure (a : α) : Uses allowed (pure a : Program α) := only_done trivial

theorem uses_raise (error : Raised) : Uses allowed (.raise error : Program α) := only_raise

theorem uses_ofExcept (value : Except Raised α) : Uses allowed (ofExcept value : Program α) :=
  only_ofExcept fun _ _ => trivial

theorem uses_call {query : Call} (allows : allowed query) : Uses allowed (call query) := by
  apply only_ask (fun _ => allows)
  rintro (_ | result)
  · exact only_raise
  · exact only_done trivial

theorem uses_check (condition : Prop) [Decidable condition] (label : Text) (message : String) :
    Uses allowed (check condition label message) := uses_ofExcept _

theorem Uses.finally_ {cleanup : Program Unit} (uses : Uses allowed program) (cleans : Uses allowed cleanup) :
    Uses allowed (finally_ program cleanup) :=
  uses.attempt.bind fun outcome => cleans.bind fun _ => uses_ofExcept outcome

theorem Uses.weaken {more : Call → Prop} (weaker : ∀ query, allowed query → more query) (uses : Uses allowed program) :
    Uses more program := by
  intro log outcome trace
  exact ⟨fun exchange member => weaker _ ((uses log outcome trace).1 exchange member), fun _ _ => trivial⟩

end Uses

theorem keepsNames_of_reads (query : Call) (reads : query.reads) : query.keepsNames := by
  cases query <;> trivial

theorem readChunks_reads (descriptor maximum turns : Nat) (value : List UInt8) :
    Uses Call.reads (readChunks descriptor maximum turns value) := by
  induction turns generalizing value with
  | zero => exact uses_pure value
  | succ turns ih =>
      unfold readChunks
      split
      · exact uses_pure value
      · apply (uses_call trivial).bind
        intro chunk
        split
        · exact uses_pure value
        · exact ih _

theorem readStable_reads (entry : Entry) (maximum : Nat) (label : Text) :
    Uses Call.reads (readStable entry maximum label) := by
  apply (uses_ofExcept _).bind
  intro _
  apply (uses_call trivial).bind
  intro before
  apply (uses_check _ _ _).bind
  intro _
  apply (uses_call trivial).bind
  intro descriptor
  have block : Uses Call.reads (readBlock descriptor before maximum label) :=
    (uses_call trivial).bind fun _ => (uses_check _ _ _).bind fun _ => (readChunks_reads _ _ _ _).bind fun _ =>
      (uses_call trivial).bind fun _ => uses_pure _
  apply (block.finally_ (uses_call trivial)).bind
  intro found
  apply (uses_call trivial).bind
  intro final
  apply (uses_check _ _ _).bind
  intro _
  apply (uses_call trivial).bind
  intro finalDescriptor
  have confirm : Uses Call.reads (do
      let last : Stat ← call (.fstat finalDescriptor)
      check (identity last ≠ identity before) label " changed before final verification") :=
    (uses_call trivial).bind fun _ => uses_check _ _ _
  exact (confirm.finally_ (uses_call trivial)).bind fun _ => uses_pure _

theorem confirmCopy_reads (sha256 : Sha256) (entry output : Entry) (before : Stat) (maximum : Nat) (label : Text)
    (value : List UInt8) : Uses Call.reads (confirmCopy sha256 entry output before maximum label value) := by
  apply (uses_call trivial).bind
  intro sourceFinal
  apply (uses_check _ _ _).bind
  intro _
  have digest : Uses Call.reads (digestRegular sha256 output maximum (text "copied " ++ label)) :=
    (readStable_reads _ _ _).bind fun _ => uses_pure _
  apply digest.bind
  intro found
  exact (uses_check _ _ _).bind fun _ => uses_pure _

theorem closeFiles_reads (destination : Option Nat) (source : Nat) :
    Uses Call.reads (closeFiles destination source) := by
  cases destination with
  | none => exact (uses_pure ()).bind fun _ => uses_call trivial
  | some descriptor => exact (uses_call trivial).bind fun _ => uses_call trivial

theorem writeAll_keepsNames (descriptor turns : Nat) (view : List UInt8) :
    Uses Call.keepsNames (writeAll descriptor turns view) := by
  induction turns generalizing view with
  | zero => exact uses_pure ()
  | succ turns ih =>
      unfold writeAll
      split
      · exact uses_pure ()
      · apply (uses_call trivial).bind
        intro written
        split
        · exact uses_raise _
        · exact ih _

theorem copyChunks_keepsNames (source destination maximum turns : Nat) (value : List UInt8) :
    Uses Call.keepsNames (copyChunks source destination maximum turns value) := by
  induction turns generalizing value with
  | zero => exact uses_pure value
  | succ turns ih =>
      unfold copyChunks
      split
      · exact uses_pure value
      · apply (uses_call trivial).bind
        intro chunk
        split
        · exact uses_pure value
        · exact (writeAll_keepsNames _ _ _).bind fun _ => ih _

theorem copyBlock_keepsNames (source destination : Nat) (before : Stat) (maximum : Nat) (label : Text) :
    Uses Call.keepsNames (copyBlock source destination before maximum label) :=
  (copyChunks_keepsNames _ _ _ _ _).bind fun _ => (uses_call trivial).bind fun _ => (uses_call trivial).bind fun _ =>
    (uses_call trivial).bind fun _ => (uses_check _ _ _).bind fun _ => uses_pure _

/-! ### What such calls keep -/

/-- The inodes that the script has made keep their names. -/
def KeepsNames (world next : World) : Prop :=
  next.outputs = world.outputs ∧
    ∀ number ∈ world.outputs, ∀ entry, next.names entry = some number ↔ world.names entry = some number

/-- They stay as they are. -/
def KeepsOutputs (world next : World) : Prop := next.outputs = world.outputs ∧ Spares world next

instance : IsPreorder World KeepsNames where
  refl _ := ⟨rfl, fun _ _ _ => Iff.rfl⟩
  trans _ _ _ first second :=
    ⟨second.1.trans first.1, fun number made entry =>
      (second.2 number (first.1 ▸ made) entry).trans (first.2 number made entry)⟩

instance : IsPreorder World KeepsOutputs where
  refl _ := ⟨rfl, fun _ _ => ⟨rfl, fun _ => Iff.rfl⟩⟩
  trans _ _ _ first second := by
    refine ⟨second.1.trans first.1, fun number made => ?_⟩
    have early := first.2 number made
    have late := second.2 number (first.1 ▸ made)
    exact ⟨late.1.trans early.1, fun entry => (late.2 entry).trans (early.2 entry)⟩

theorem KeepsOutputs.names {world next : World} (keeps : KeepsOutputs world next) : KeepsNames world next :=
  ⟨keeps.1, fun number made => (keeps.2 number made).2⟩

theorem outputs_apply (world : World) (step : WriterStep) : (step.apply world).outputs = world.outputs := by
  cases step <;> simp only [WriterStep.apply]
  case write => rfl
  case attributes => rfl
  case create => split <;> rfl
  case link => split <;> rfl
  case unlink => split <;> rfl
  case rename =>
    split
    · rfl
    · split
      · rfl
      · split <;> rfl

theorem sourceWriters_keepsOutputs {world next : World} (moved : sourceWriters.move world next) :
    KeepsOutputs world next := by
  rcases moved with ⟨spares, step, rfl⟩
  exact ⟨outputs_apply world step, spares⟩

theorem answers_keepsOutputs {world next : World} {exchange : Exchange Answer} (reads : exchange.query.reads)
    (answered : Answers world exchange next) : KeepsOutputs world next := by
  cases answered
  case create => exact reads.elim
  case write => exact reads.elim
  case unlink => exact reads.elim
  all_goals exact ⟨rfl, fun _ _ => ⟨rfl, fun _ => Iff.rfl⟩⟩

theorem answers_keepsNames {world next : World} {exchange : Exchange Answer} (keeps : exchange.query.keepsNames)
    (answered : Answers world exchange next) : KeepsNames world next := by
  cases answered
  case create => exact keeps.elim
  case unlink => exact keeps.elim
  all_goals exact ⟨rfl, fun _ _ _ => Iff.rfl⟩

section Climb

variable {α : Type} {program : Program α} {state final : World} {log : List (Moment Answer World)}
  {outcome : Except Raised α}

theorem run_keepsOutputs (run : Run sourceWriters program state log outcome final)
    (uses : Uses Call.reads program) : KeepsOutputs state final :=
  (run.climbs_only uses (fun _ _ => sourceWriters_keepsOutputs) fun _ _ _ => answers_keepsOutputs).1

theorem run_keepsNames (run : Run sourceWriters program state log outcome final)
    (uses : Uses Call.keepsNames program) : KeepsNames state final :=
  (run.climbs_only uses (fun _ _ moved => (sourceWriters_keepsOutputs moved).names) fun _ _ _ => answers_keepsNames).1

end Climb

theorem moves_keepsOutputs {state final : World} {log : List (Moment Answer World)}
    (moves : Moves sourceWriters state log final) : KeepsOutputs state final :=
  (moves.climbs fun _ _ => sourceWriters_keepsOutputs).1

/-! ### The copy -/

theorem writers_of_sourceWriters (before after : World) (moved : sourceWriters.move before after) :
    writers.move before after := And.right moved

theorem moves_file_source {state final : World} {log : List (Moment Answer World)}
    (moves : Moves sourceWriters state log final) (descriptor : Nat) : final.file descriptor = state.file descriptor :=
  moves_file (moves.weaken writers_of_sourceWriters) descriptor

theorem file_hold_of_ne {world : World} {descriptor other : Nat} {file : OpenFile} (apart : other ≠ descriptor) :
    (world.hold descriptor file).file other = world.file other := by
  have front : ¬ descriptor = other := fun same => apart same.symm
  simp only [World.file, World.hold, List.find?_cons, decide_eq_false front, List.find?_filter]
  congr 2
  funext opened
  by_cases same : opened.1 = other <;> simp [same, apart]

theorem content_touch (world : World) (number : InodeNumber) (change : Inode → Inode) :
    ((world.touch number change).inodes number).content = (change (world.inodes number)).content := by
  have updated : (world.touch number change).inodes number =
      { change (world.inodes number) with ctime := world.clock + 1 } := Function.update_self number _ world.inodes
  rw [updated]

theorem inodes_hold (world : World) (descriptor : Nat) (file : OpenFile) :
    (world.hold descriptor file).inodes = world.inodes := rfl

/-- The file that is being written, and how far. -/
structure Written (world : World) (destination : Nat) (number : InodeNumber) (content : List UInt8) : Prop where
  file : world.file destination = some ⟨number, content.length⟩
  content : (world.inodes number).content = content
  made : number ∈ world.outputs

theorem Written.moves {state final : World} {log : List (Moment Answer World)} {destination : Nat}
    {number : InodeNumber} {content : List UInt8} (written : Written state destination number content)
    (moves : Moves sourceWriters state log final) : Written final destination number content := by
  have keeps := moves_keepsOutputs moves
  refine ⟨(moves_file_source moves destination).trans written.file, ?_, keeps.1 ▸ written.made⟩
  rw [(keeps.2 number written.made).1]
  exact written.content

/-- The inner loop writes all of the view. -/
theorem writeAll_content {destination turns : Nat} {number : InodeNumber} {base view : List UInt8}
    {state final : World} {log : List (Moment Answer World)} (written : Written state destination number base)
    (enough : view.length ≤ turns)
    (run : Run sourceWriters (writeAll destination turns view) state log (.ok ()) final) :
    Written final destination number (base ++ view) ∧
      ∀ other, other ≠ destination → final.file other = state.file other := by
  induction turns generalizing base view state log with
  | zero =>
      rcases run with ⟨_, _, rfl⟩
      rw [List.length_eq_zero_iff.mp (Nat.le_zero.mp enough), List.append_nil]
      exact ⟨written, fun _ _ => rfl⟩
  | succ turns ih =>
      unfold writeAll at run
      split at run
      · next ended =>
          rcases run with ⟨_, _, rfl⟩
          rw [ended, List.append_nil]
          exact ⟨written, fun _ _ => rfl⟩
      rcases run_bind_ok run with ⟨length, _, _, later, rfl, called, rest⟩
      rcases run_call.mp called with ⟨_, here, moves, answered, rfl⟩
      have now := written.moves moves
      cases answered with
      | write _ mtime held small =>
          split at rest
          · exact nomatch rest.2.1
          · next positive =>
              rw [now.file] at held
              cases held
              have step : Written ((here.touch number fun inode =>
                    { inode with
                      content := inode.content.take base.length ++ view.take length ++
                        inode.content.drop (base.length + length)
                      mtime := mtime }).hold
                  destination ⟨number, base.length + length⟩) destination number (base ++ view.take length) := by
                refine ⟨?_, ?_, now.made⟩
                · rw [file_hold, List.length_append, List.length_take_of_le small]
                · rw [inodes_hold, content_touch]
                  dsimp only
                  rw [now.content, List.take_length, List.drop_of_length_le (Nat.le_add_right _ _), List.append_nil]
              have left : (view.drop length).length ≤ turns := by
                rw [List.length_drop]
                omega
              have all := ih step left rest
              rw [List.append_assoc, List.take_append_drop] at all
              refine ⟨all.1, fun other apart => ?_⟩
              rw [all.2 other apart, file_hold_of_ne apart]
              exact moves_file_source moves other

/-- While the source stays as it is, the loop copies its bytes in order. -/
theorem copyChunks_content {source destination maximum turns : Nat} {origin number : InodeNumber}
    {content value result : List UInt8} {state final : World} {log : List (Moment Answer World)}
    (apart : source ≠ destination) (opened : state.file source = some ⟨origin, value.length⟩)
    (written : Written state destination number value) (sofar : value <+: content)
    (same : ∀ moment ∈ log, (moment.state.inodes origin).content = content)
    (run : Run sourceWriters (copyChunks source destination maximum turns value) state log (.ok result) final) :
    result <+: content ∧ final.file source = some ⟨origin, result.length⟩ ∧
      Written final destination number result := by
  induction turns generalizing value state log with
  | zero =>
      rcases run with ⟨_, returned, rfl⟩
      cases returned
      exact ⟨sofar, opened, written⟩
  | succ turns ih =>
      unfold copyChunks at run
      split at run
      · rcases run with ⟨_, returned, rfl⟩
        cases returned
        exact ⟨sofar, opened, written⟩
      rcases run_bind_ok run with ⟨chunk, _, _, later, rfl, called, rest⟩
      rcases run_call.mp called with ⟨before, here, moves, answered, rfl⟩
      have now := written.moves moves
      cases answered with
      | read length held small ending =>
          rw [moves_file_source moves, opened] at held
          cases held
          have whole : (here.inodes origin).content = content :=
            same _ (List.mem_append_left _ (List.mem_append_right _ (List.mem_singleton_self _)))
          dsimp only at rest
          rw [whole] at rest
          obtain ⟨left, rfl⟩ := sofar
          rw [List.drop_left, ← List.length_append] at rest
          have after := file_hold here source { number := origin, offset := (value ++ left.take length).length }
          have output : Written (here.hold source ⟨origin, (value ++ left.take length).length⟩) destination number value :=
            ⟨(file_hold_of_ne apart.symm).trans now.file, now.content, now.made⟩
          split at rest
          · next ended =>
              rcases rest with ⟨_, returned, rfl⟩
              rw [Except.ok.injEq] at returned
              rw [ended, List.append_nil] at after output
              rw [returned, ended, List.append_nil]
              exact ⟨List.prefix_append value left, after, output⟩
          · rcases run_bind_ok rest with ⟨_, writeLog, _, loopLog, rfl, wrote, looped⟩
            have copied := writeAll_content output (Nat.le_refl _) wrote
            have front : value ++ left.take length <+: value ++ left :=
              (List.prefix_append_right_inj value).mpr (List.take_prefix length left)
            apply ih ((copied.2 source apart).trans after) copied.1 front _ looped
            intro moment member
            apply same
            simp [member]

/-- The block copies as much as the first look saw, into one regular file. -/
theorem copyBlock_content {source destination maximum : Nat} {label : Text} {before : Stat} {origin number : InodeNumber}
    {content value : List UInt8} {state final : World} {log : List (Moment Answer World)} (apart : source ≠ destination)
    (opened : state.file source = some ⟨origin, 0⟩) (written : Written state destination number [])
    (same : ∀ moment ∈ log, (moment.state.inodes origin).content = content)
    (run : Run sourceWriters (copyBlock source destination before maximum label) state log (.ok value) final) :
    value <+: content ∧ value.length = before.size ∧ (final.inodes number).content = value ∧
      (final.inodes number).kind = .regular ∧ (final.inodes number).nlink = 1 := by
  rcases run_bind_ok run with ⟨_, copyLog, _, _, rfl, looped, looking⟩
  have copied := copyChunks_content apart opened written List.nil_prefix
    (fun moment member => same moment (List.mem_append_left _ member)) looped
  rcases run_bind_ok looking with ⟨_, _, _, _, rfl, looked, syncing⟩
  rcases run_bind_ok syncing with ⟨_, _, _, _, rfl, synced, measuring⟩
  rcases run_bind_ok measuring with ⟨_, _, _, _, rfl, measured, checking⟩
  rcases run_bind_ok checking with ⟨_, _, _, _, rfl, checked, returned⟩
  rcases returned with ⟨rfl, returned, rfl⟩
  cases returned
  rcases run_check.mp checked with ⟨passed, rfl, rfl⟩
  simp only [not_or, not_not] at passed
  rcases run_call.mp looked with ⟨_, _, lookMoves, lookAnswered, rfl⟩
  cases lookAnswered with
  | fstat _ =>
  rcases run_call.mp synced with ⟨_, _, syncMoves, syncAnswered, rfl⟩
  cases syncAnswered with
  | fsync _ =>
  rcases run_call.mp measured with ⟨_, _, measureMoves, measureAnswered, rfl⟩
  cases measureAnswered with
  | fstat held =>
      have now := ((copied.2.2.moves lookMoves).moves syncMoves).moves measureMoves
      rw [now.file] at held
      cases held
      exact ⟨copied.1, passed.2.1, now.content, passed.2.2.2.1, passed.2.2.2.2.1⟩

/-! ### The creation -/

/-- What the creation leaves: a new empty file under the name. -/
structure Created (world : World) (output : Entry) (destination : Nat) (number : InodeNumber) : Prop where
  outputs : world.outputs = [number]
  name : world.names output = some number
  written : Written world destination number []

theorem createBlock_error {source : Nat} {before : Stat} {output : Entry} {label : Text} {state final : World}
    {log : List (Moment Answer World)} {error : Raised}
    (run : Run sourceWriters (createBlock source before output label) state log (.error error) final) :
    KeepsOutputs state final := by
  rcases run_bind.mp run with ⟨_, failed, _⟩ | ⟨opened, _, _, _, rfl, looked, checking⟩
  · exact run_keepsOutputs failed (uses_call trivial)
  have first := run_keepsOutputs looked (uses_call trivial)
  rcases run_bind.mp checking with ⟨_, failed, _⟩ | ⟨_, _, _, _, rfl, checked, creating⟩
  · exact trans_of KeepsOutputs first (run_keepsOutputs failed (uses_check _ _ _))
  have second := run_keepsOutputs checked (uses_check _ _ _)
  rcases creating with ⟨_, here, answer, next, _, moves, answered, rfl, rest⟩
  have third := trans_of KeepsOutputs (trans_of KeepsOutputs first second) (moves_keepsOutputs moves)
  cases answer with
  | some descriptor => exact nomatch rest.2.1
  | none =>
      rcases rest with ⟨_, _, rfl⟩
      cases answered with
      | failed => exact third

/-- The call that creates the destination is the last one of its block. -/
theorem createBlock_created {source destination : Nat} {before : Stat} {output : Entry} {label : Text}
    {origin : InodeNumber} {state final : World} {log : List (Moment Answer World)} (fresh : state.outputs = [])
    (file : state.file source = some ⟨origin, 0⟩)
    (run : Run sourceWriters (createBlock source before output label) state log (.ok destination) final) :
    ∃ number, Created final output destination number ∧ source ≠ destination ∧
      final.file source = some ⟨origin, 0⟩ ∧
      (∃ seen : World, identity (seen.status origin) = identity before) ∧
      ∃ early here, log = early ++ [⟨here, some ⟨.create output, some destination⟩⟩] := by
  rcases run_bind_ok run with ⟨_, _, _, _, rfl, looked, checking⟩
  rcases run_call.mp looked with ⟨_, _, moves, answered, rfl⟩
  cases answered with
  | @fstat _ opened held =>
      rw [moves_file_source moves, file] at held
      cases held
      have first := moves_keepsOutputs moves
      rcases run_bind_ok checking with ⟨_, _, _, _, rfl, checked, creating⟩
      rcases run_check.mp checked with ⟨passed, rfl, rfl⟩
      rcases run_call.mp creating with ⟨early, here, createMoves, answered, rfl⟩
      have second := trans_of KeepsOutputs first (moves_keepsOutputs createMoves)
      cases answered with
      | create _ number mtime unbound free unused =>
          have held : here.file source = some ⟨origin, 0⟩ :=
            (moves_file_source createMoves source).trans ((moves_file_source moves source).trans file)
          have apart : source ≠ destination := by
            rintro rfl
            exact nomatch held.symm.trans unused
          have none : here.outputs = [] := second.1.trans fresh
          refine ⟨number, ⟨?_, ?_, ?_, ?_, List.mem_cons_self⟩, apart, ?_, ⟨_, not_not.mp passed⟩, ?_⟩
          · exact congrArg (number :: ·) none
          · exact Function.update_self output _ _
          · exact file_hold _ _ _
          · exact content_touch here number fun _ =>
              { kind := .regular, permissions := 0o600, nlink := 1, content := [], mtime := mtime, ctime := 0 }
          · exact (file_hold_of_ne apart).trans held
          · rw [List.nil_append, ← List.append_assoc]
            exact ⟨_, _, rfl⟩

/-! ### What is left behind -/

/-- Nothing that the run has made is left under the name, unless its removal failed. -/
def LeavesNothing (output : Entry) (log : List (Moment Answer World)) (final : World) : Prop :=
  (∀ number ∈ final.outputs, final.names output ≠ some number) ∨
    ∃ moment ∈ log, moment.asked = some ⟨.unlink output, none⟩

/-- The first call closes the descriptor, and does not fail. -/
def ClosesFirst (log : List (Moment Answer World)) (descriptor : Nat) : Prop :=
  (log.filterMap Moment.asked).head? = some ⟨.close descriptor, some ()⟩

def NoUnlink (log : List (Moment Answer World)) : Prop :=
  ∀ moment ∈ log, ∀ entry answer, moment.asked ≠ some ⟨.unlink entry, answer⟩

theorem NoUnlink.of_all {log : List (Moment Answer World)}
    (all : (log.all fun moment => match moment.asked with
      | some ⟨.unlink _, _⟩ => false
      | _ => true) = true) : NoUnlink log := by
  intro moment member entry answer asked
  have holds := List.all_eq_true.mp all moment member
  rw [asked] at holds
  exact nomatch holds

theorem NoUnlink.append {first second : List (Moment Answer World)} (early : NoUnlink first) (late : NoUnlink second) :
    NoUnlink (first ++ second) := by
  intro moment member
  rcases List.mem_append.mp member with member | member
  · exact early moment member
  · exact late moment member

theorem run_noUnlink {α : Type} {program : Program α} {state final : World} {log : List (Moment Answer World)}
    {outcome : Except Raised α} (run : Run sourceWriters program state log outcome final)
    (uses : Uses Call.keepsNames program) : NoUnlink log := by
  intro moment member entry answer asked
  exact (uses _ _ run.trace).1 _ (List.mem_filterMap.mpr ⟨moment, member, asked⟩)

/-- A file that is still there is left behind. -/
theorem not_leavesNothing {output : Entry} {number : InodeNumber} {log : List (Moment Answer World)} {final : World}
    (made : number ∈ final.outputs) (name : final.names output = some number) (none : NoUnlink log) :
    ¬ LeavesNothing output log final := by
  rintro (gone | ⟨moment, member, asked⟩)
  · exact gone number made name
  · exact none moment member output _ asked

theorem KeepsNames.left {output : Entry} {number : InodeNumber} {state final : World} (keeps : KeepsNames state final)
    (made : number ∈ state.outputs) (name : state.names output = some number) :
    number ∈ final.outputs ∧ final.names output = some number :=
  ⟨keeps.1 ▸ made, (keeps.2 number made output).mpr name⟩

/-- A call goes through or raises. -/
theorem run_call_error {env : Environment Answer World} {query : Call} {state final : World}
    {log : List (Moment Answer World)} {error : Raised} (run : Run env (call query) state log (.error error) final) :
    ∃ before here, Moves env state before here ∧ env.answers here ⟨query, none⟩ final ∧
      log = before ++ [⟨here, some ⟨query, none⟩⟩] := by
  rcases run with ⟨before, here, answer, next, later, moves, answered, rfl, rest⟩
  cases answer with
  | some _ => exact nomatch rest.2.1
  | none =>
      rcases rest with ⟨rfl, _, rfl⟩
      exact ⟨before, here, moves, answered, rfl⟩

theorem head_call {state here : World} {before later : List (Moment Answer World)}
    (moves : Moves sourceWriters state before here) (exchange : Exchange Answer) :
    ((before ++ [(⟨here, some exchange⟩ : Moment Answer World)] ++ later).filterMap Moment.asked).head? =
      some exchange := by
  rw [List.append_assoc, List.filterMap_append, moves.silent, List.nil_append]
  rfl

/-- The handler leaves nothing behind where it can close the destination, and leaves the destination where it cannot. -/
theorem abandonCopy_leaves {source destination : Nat} {output : Entry} {number : InodeNumber} {error : Raised}
    {state final : World} {log : List (Moment Answer World)} {outcome : Except Raised Unit}
    (made : state.outputs = [number]) (name : state.names output = some number)
    (run : Run sourceWriters (abandonCopy source destination output error) state log outcome final)
    {opening : List (Moment Answer World)} (quiet : NoUnlink opening) :
    LeavesNothing output (opening ++ log) final ↔ ClosesFirst log destination := by
  have here : number ∈ state.outputs := made ▸ List.mem_singleton_self number
  rcases run_bind.mp run with ⟨_, failed, _⟩ | ⟨closed, _, _, _, rfl, closing, rest⟩
  · rcases run_attempt.mp failed with ⟨_, impossible, _⟩
    exact nomatch impossible
  rcases run_attempt.mp closing with ⟨_, same, close⟩
  cases same
  cases closed with
  | error later =>
      have ends : Uses Call.reads (do closeFiles (some destination) source; .raise later : Program Unit) :=
        (closeFiles_reads _ _).bind fun _ => uses_raise later
      have first := run_keepsOutputs close (uses_call trivial)
      have kept := trans_of KeepsOutputs first (run_keepsOutputs rest ends)
      have left := kept.names.left here name
      have closeSilent : NoUnlink _ := run_noUnlink close (uses_call trivial)
      have endSilent := run_noUnlink rest (ends.weaken keepsNames_of_reads)
      refine iff_of_false (not_leavesNothing left.1 left.2 (quiet.append (closeSilent.append endSilent))) ?_
      rcases run_call_error close with ⟨_, _, moves, _, rfl⟩
      rw [ClosesFirst, head_call moves]
      intro same
      exact nomatch same
  | ok _ =>
      have first := run_keepsOutputs close (uses_call trivial)
      rcases run_call.mp close with ⟨_, _, moves, _, rfl⟩
      refine iff_of_true ?_ (head_call moves _)
      have ends : Uses Call.reads (do closeFiles none source; .raise error : Program Unit) :=
        (closeFiles_reads _ _).bind fun _ => uses_raise error
      rcases run_bind.mp rest with ⟨_, failed, _⟩ | ⟨result, _, _, _, rfl, removing, ending⟩
      · rcases run_attempt.mp failed with ⟨_, impossible, _⟩
        exact nomatch impossible
      rcases run_attempt.mp removing with ⟨_, same, remove⟩
      cases same
      cases result with
      | error _ =>
          rcases run_call_error remove with ⟨_, asked, _, _, rfl⟩
          exact Or.inr ⟨⟨asked, some ⟨.unlink output, none⟩⟩, by simp, rfl⟩
      | ok _ =>
          rcases run_call.mp remove with ⟨_, asked, removeMoves, answered, rfl⟩
          cases answered with
          | unlink bound =>
              have second := trans_of KeepsOutputs first (moves_keepsOutputs removeMoves)
              have last := run_keepsOutputs ending ends
              left
              intro other member
              have same : other = number := by
                rw [last.1] at member
                exact List.mem_singleton.mp (made ▸ second.1 ▸ member)
              rw [same]
              intro still
              have before := (last.names.2 number (second.1 ▸ here) output).mp still
              rw [names_bind, if_pos rfl] at before
              exact nomatch before

/-- Behind the creation: what the copying block raises is cleaned up where the destination can be closed, and nothing else
is. -/
theorem copyCreated_leaves {sha256 : Sha256} {entry output : Entry} {before : Stat} {maximum : Nat} {label : Text}
    {source destination : Nat} {number : InodeNumber} {error : Raised} {state final : World}
    {log opening : List (Moment Answer World)} (created : Created state output destination number)
    (run : Run sourceWriters (copyCreated sha256 entry output before maximum label source destination) state log
      (.error error) final) (quiet : NoUnlink opening) :
    ∃ block rest result left, log = block ++ rest ∧
      Run sourceWriters (copyBlock source destination before maximum label) state block result left ∧
      (LeavesNothing output (opening ++ log) final ↔
        (∃ raised, result = .error raised) ∧ ClosesFirst rest destination) := by
  rcases run_bind.mp run with ⟨_, failed, _⟩ | ⟨result, block, left, rest, rfl, caught, ending⟩
  · rcases run_attempt.mp failed with ⟨_, impossible, _⟩
    exact nomatch impossible
  rcases run_attempt.mp caught with ⟨_, same, copied⟩
  cases same
  refine ⟨block, rest, result, left, rfl, copied, ?_⟩
  have kept := run_keepsNames copied (copyBlock_keepsNames _ _ _ _ _)
  have here := kept.left created.written.made created.name
  have blockQuiet := quiet.append (run_noUnlink copied (copyBlock_keepsNames _ _ _ _ _))
  rw [← List.append_assoc]
  cases result with
  | error raised =>
      refine Iff.trans ?_ (and_iff_right ⟨raised, rfl⟩).symm
      rcases run_bind.mp ending with ⟨_, abandoned, _⟩ | ⟨_, _, _, _, rfl, abandoned, raise⟩
      · exact abandonCopy_leaves (kept.1.trans created.outputs) here.2 abandoned blockQuiet
      · rcases raise with ⟨rfl, _, rfl⟩
        rw [List.append_nil]
        exact abandonCopy_leaves (kept.1.trans created.outputs) here.2 abandoned blockQuiet
  | ok value =>
      have reads : Uses Call.reads (do
          closeFiles (some destination) source
          confirmCopy sha256 entry output before maximum label value) :=
        (closeFiles_reads _ _).bind fun _ => confirmCopy_reads _ _ _ _ _ _ _
      have still := (run_keepsOutputs ending reads).names.left here.1 here.2
      have allQuiet := blockQuiet.append (run_noUnlink ending (reads.weaken keepsNames_of_reads))
      refine iff_of_false (not_leavesNothing still.1 still.2 allQuiet) ?_
      rintro ⟨⟨_, impossible⟩, _⟩
      exact nomatch impossible

/-! ### The whole run -/

/-- A run that has created its destination, up to the creation. -/
structure Opening (sha256 : Sha256) (entry output : Entry) (maximum : Nat) (label : Text) (state : World)
    (log : List (Moment Answer World)) (outcome : Except Raised (Nat × Text)) (final : World) where
  first : List (Moment Answer World)
  seen : World
  origin : InodeNumber
  between : List (Moment Answer World)
  made : World
  later : List (Moment Answer World)
  source : Nat
  destination : Nat
  number : InodeNumber
  split : log = first ++ ([⟨seen, some ⟨.stat entry, some (seen.status origin)⟩⟩] ++ between) ++ later
  moves : Moves sourceWriters state first seen
  bound : seen.names entry = some origin
  bounded : (seen.inodes origin).kind = .regular ∧ (seen.inodes origin).nlink = 1
  steady : Climbs (SinceStamp (fileStamp origin) (fileView origin entry)) seen between made
  opened : ∃ moment ∈ between, moment.asked = some ⟨.open entry, some source⟩
  ending : ∃ early here, between = early ++ [⟨here, some ⟨.create output, some destination⟩⟩]
  created : Created made output destination number
  apart : source ≠ destination
  file : made.file source = some ⟨origin, 0⟩
  quiet : NoUnlink (first ++ ([⟨seen, some ⟨.stat entry, some (seen.status origin)⟩⟩] ++ between))
  run : Run sourceWriters (copyCreated sha256 entry output (seen.status origin) maximum label source destination) made
    later outcome final

theorem run_since_source (number : InodeNumber) (entry : Entry) {α : Type} {program : Program α} {state final : World}
    {log : List (Moment Answer World)} {outcome : Except Raised α}
    (run : Run sourceWriters program state log outcome final) :
    Climbs (SinceStamp (fileStamp number) (fileView number entry)) state log final :=
  run_since (run.weaken writers_of_sourceWriters fun _ _ _ answered => answered)

theorem NoUnlink.of_moves {state final : World} {log : List (Moment Answer World)}
    (moves : Moves sourceWriters state log final) : NoUnlink log := by
  intro moment member entry answer
  rw [moves_silent moves moment member]
  exact nofun

theorem createBlock_noUnlink {source : Nat} {before : Stat} {output : Entry} {label : Text} {state final : World}
    {log : List (Moment Answer World)} {outcome : Except Raised Nat}
    (run : Run sourceWriters (createBlock source before output label) state log outcome final) : NoUnlink log := by
  have uses : Uses (fun query => ∀ entry, query ≠ .unlink entry) (createBlock source before output label) :=
    (uses_call nofun).bind fun _ => (uses_check _ _ _).bind fun _ => uses_call nofun
  intro moment member entry answer asked
  exact (uses _ _ run.trace).1 _ (List.mem_filterMap.mpr ⟨moment, member, asked⟩) entry rfl

/-- A run creates its destination or makes nothing. -/
theorem copyRegular_opening {sha256 : Sha256} {entry output : Entry} {maximum : Nat} {label : Text} {state final : World}
    {log : List (Moment Answer World)} {outcome : Except Raised (Nat × Text)} (fresh : state.outputs = [])
    (run : Run sourceWriters (copyRegular sha256 entry output maximum label) state log outcome final) :
    ((∃ error, outcome = .error error) ∧ final.outputs = []) ∨
      Nonempty (Opening sha256 entry output maximum label state log outcome final) := by
  rcases run_bind.mp run with ⟨error, failed, same⟩ | ⟨_, _, _, _, rfl, canonical, naming⟩
  · exact Or.inl ⟨⟨error, same⟩, (run_keepsOutputs failed (uses_ofExcept _)).1.trans fresh⟩
  rcases run_ofExcept.mp canonical with ⟨rfl, _, rfl⟩
  rcases run_bind.mp naming with ⟨error, failed, same⟩ | ⟨_, _, _, _, rfl, canonical', stating⟩
  · exact Or.inl ⟨⟨error, same⟩, (run_keepsOutputs failed (uses_ofExcept _)).1.trans fresh⟩
  rcases run_ofExcept.mp canonical' with ⟨rfl, _, rfl⟩
  rcases run_bind.mp stating with ⟨error, failed, same⟩ | ⟨_, _, _, _, rfl, looked, bounding⟩
  · exact Or.inl ⟨⟨error, same⟩, (run_keepsOutputs failed (uses_call trivial)).1.trans fresh⟩
  have none := (run_keepsOutputs looked (uses_call trivial)).1.trans fresh
  rcases run_call.mp looked with ⟨first, _, moves, answered, rfl⟩
  cases answered with
  | @stat entry origin bound =>
  rcases run_bind.mp bounding with ⟨error, failed, same⟩ | ⟨_, _, seen, _, rfl, checked, opening⟩
  · exact Or.inl ⟨⟨error, same⟩, (run_keepsOutputs failed (uses_check _ _ _)).1.trans none⟩
  rcases run_check.mp checked with ⟨bounded, rfl, rfl⟩
  simp only [not_or, not_not] at bounded
  rcases run_bind.mp opening with ⟨error, failed, same⟩ | ⟨source, openLog, _, _, rfl, opened, trying⟩
  · exact Or.inl ⟨⟨error, same⟩, (run_keepsOutputs failed (uses_call trivial)).1.trans none⟩
  have stillNone := (run_keepsOutputs opened (uses_call trivial)).1.trans none
  rcases run_bind.mp trying with ⟨_, failed, _⟩ | ⟨result, createLog, made, later, rfl, caught, ending⟩
  · rcases run_attempt.mp failed with ⟨_, impossible, _⟩
    exact nomatch impossible
  rcases run_attempt.mp caught with ⟨_, same, creating⟩
  cases same
  cases result with
  | error error =>
      left
      have createNone := (createBlock_error creating).1.trans stillNone
      rcases run_bind.mp ending with ⟨error, failed, same⟩ | ⟨_, _, _, _, rfl, closed, raised⟩
      · exact ⟨⟨error, same⟩, (run_keepsOutputs failed (closeFiles_reads _ _)).1.trans createNone⟩
      · rcases raised with ⟨_, same, rfl⟩
        exact ⟨⟨error, same⟩, (run_keepsOutputs closed (closeFiles_reads _ _)).1.trans createNone⟩
  | ok destination =>
      right
      have openQuiet : NoUnlink openLog := run_noUnlink opened (uses_call trivial)
      have createQuiet := createBlock_noUnlink creating
      have openSince := run_since_source origin entry opened
      have createSince := run_since_source origin entry creating
      rcases run_call.mp opened with ⟨_, here, _, answered, rfl⟩
      cases answered with
      | «open» _ _ _ _ =>
      rcases createBlock_created stillNone (file_hold _ _ _) creating with
        ⟨number, created, apart, file, ⟨again, sameIdentity⟩, early, there, rfl⟩
      rcases identity_status sameIdentity with ⟨rfl, _⟩
      refine ⟨{
        first := first
        seen := seen
        origin := _
        between := _
        made := made
        later := later
        source := source
        destination := destination
        number := number
        split := ?_
        moves := moves
        bound := bound
        bounded := ⟨bounded.1, bounded.2.1⟩
        steady := openSince.append createSince
        opened := ⟨_, List.mem_append_left _ (List.mem_append_right _ (List.mem_singleton_self _)), rfl⟩
        ending := ⟨_, _, (List.append_assoc _ _ _).symm⟩
        created := created
        apart := apart
        file := file
        quiet := ?_
        run := ending }⟩
      · simp only [List.append_assoc, List.nil_append]
      · refine (NoUnlink.of_moves moves).append (NoUnlink.append ?_ (openQuiet.append createQuiet))
        intro moment member entry answer
        rw [List.mem_singleton.mp member]
        exact nofun

/-- The destination holds the bytes whose size and digest are returned. They were the whole content of one single-link
regular file under the source's name from the first call to the last look at it, behind which only the destination is
read back. -/
def Copied (sha256 : Sha256) (entry output : Entry) (maximum : Nat) (label : Text) (log : List (Moment Answer World))
    (final : World) (size : Nat) (digest : Text) : Prop :=
  ∃ value, size = value.length ∧ digest = sha256.hexdigest value ∧
    (∃ number ∈ final.outputs, Bound output number value final) ∧
    ∃ origin before during after, log = before ++ during ++ after ∧ (∀ moment ∈ before, moment.asked = none) ∧
      (∀ moment ∈ during, Bound entry origin value moment.state) ∧
      ∃ start left found,
        Run sourceWriters (digestRegular sha256 output maximum (text "copied " ++ label)) start after (.ok found) left

/-- What a run returns. -/
theorem Opening.copied {sha256 : Sha256} {entry output : Entry} {maximum : Nat} {label : Text} {state final : World}
    {log : List (Moment Answer World)} {size : Nat} {digest : Text}
    (opening : Opening sha256 entry output maximum label state log (.ok (size, digest)) final) :
    Copied sha256 entry output maximum label log final size digest := by
  rcases opening with ⟨first, seen, origin, between, made, later, source, destination, number, split, moves, bound,
    bounded, steady, opened, ending, created, apart, file, quiet, run⟩
  rcases run_bind_ok run with ⟨result, block, left, _, rfl, caught, closing⟩
  rcases run_attempt.mp caught with ⟨_, same, copying⟩
  cases same
  cases result with
  | error raised =>
      rcases run_bind_ok closing with ⟨_, _, _, _, _, _, impossible⟩
      exact nomatch impossible.2.1
  | ok value =>
  rcases run_bind_ok closing with ⟨_, closeLog, _, _, rfl, closed, confirming⟩
  have confirmKeeps := run_keepsOutputs confirming (confirmCopy_reads _ _ _ _ _ _ _)
  rcases run_bind_ok confirming with ⟨_, statLog, _, _, rfl, looked, comparing⟩
  rcases run_bind_ok comparing with ⟨_, _, here, _, rfl, compared, digesting⟩
  rcases run_check.mp compared with ⟨unchanged, rfl, rfl⟩
  rcases run_bind_ok digesting with ⟨_, after, _, _, rfl, readBack, checking⟩
  rcases run_bind_ok checking with ⟨_, _, _, _, rfl, checked, returned⟩
  rcases run_check.mp checked with ⟨_, rfl, rfl⟩
  rcases returned with ⟨rfl, returned, rfl⟩
  cases returned
  have start : Climbs (SinceStamp (fileStamp origin) (fileView origin entry)) seen
      [(⟨seen, some ⟨.stat entry, some (seen.status origin)⟩⟩ : Moment Answer World)] seen := .one (refl_of _ seen)
  have path := start.append (steady.append ((run_since_source origin entry copying).append
    ((run_since_source origin entry closed).append (run_since_source origin entry looked))))
  have sameStamp : fileStamp origin here = fileStamp origin seen := by
    rcases run_call.mp looked with ⟨_, _, _, answered, _⟩
    cases answered with
    | stat _ =>
        rcases identity_status (not_not.mp unchanged) with ⟨rfl, stamp⟩
        exact stamp
  have sameView := path.unchanged sameStamp
  have content : ∀ moment ∈ block, (moment.state.inodes origin).content = (seen.inodes origin).content := by
    intro moment member
    have view := sameView moment (by simp [member])
    exact congrArg (fun view => view.1.content) view
  have block := copyBlock_content apart file created.written content copying
  have whole : value = (seen.inodes origin).content := block.1.eq_of_length block.2.1
  have holds (world : World) (view : fileView origin entry world = fileView origin entry seen) :
      Bound entry origin value world := by
    have inode : world.inodes origin = seen.inodes origin := congrArg Prod.fst view
    exact
      { name := (congrArg Prod.snd view).mpr bound
        kind := inode ▸ bounded.1
        single := inode ▸ bounded.2
        content := inode ▸ whole.symm }
  have copied := (run_keepsNames copying (copyBlock_keepsNames _ _ _ _ _)).left created.written.made created.name
  have kept := trans_of KeepsOutputs (run_keepsOutputs closed (closeFiles_reads _ _)) confirmKeeps
  have still := kept.names.left copied.1 copied.2
  have inode := (kept.2 number copied.1).1
  refine ⟨value, rfl, rfl, ⟨number, still.1, ?_⟩, origin, first, _, after, ?_, moves_silent moves,
    fun moment member => holds moment.state (sameView moment member), _, _, _, readBack⟩
  · exact
      { name := still.2
        kind := inode ▸ block.2.2.2.1
        single := inode ▸ block.2.2.2.2
        content := inode ▸ block.2.2.1 }
  · rw [split]
    simp only [List.append_assoc, List.append_nil, List.nil_append]

/-- A run that raised behind the creation of its destination: its calls up to the creation, those of the copying block,
and the rest. -/
structure Stages (entry output : Entry) (maximum : Nat) (label : Text) (log : List (Moment Answer World)) where
  opening : List (Moment Answer World)
  block : List (Moment Answer World)
  rest : List (Moment Answer World)
  before : Stat
  source : Nat
  destination : Nat
  result : Except Raised (List UInt8)
  split : log = opening ++ (block ++ rest)
  looked : ∃ moment ∈ opening, moment.asked = some ⟨.stat entry, some before⟩
  opened : ∃ moment ∈ opening, moment.asked = some ⟨.open entry, some source⟩
  created : ∃ early here, opening = early ++ [⟨here, some ⟨.create output, some destination⟩⟩]
  run : ∃ start left, Run sourceWriters (copyBlock source destination before maximum label) start block result left

/-- The exception comes out of the copying block, and the handler can close the destination. -/
def Stages.CleansUp {entry output : Entry} {maximum : Nat} {label : Text} {log : List (Moment Answer World)}
    (stages : Stages entry output maximum label log) : Prop :=
  (∃ error, stages.result = .error error) ∧ ClosesFirst stages.rest stages.destination

/-- What a run that returns has copied, and when a run that raises leaves nothing behind. -/
theorem copyRegular_outcome {sha256 : Sha256} {entry output : Entry} {maximum : Nat} {label : Text} {state final : World}
    {log : List (Moment Answer World)} {outcome : Except Raised (Nat × Text)} (fresh : state.outputs = [])
    (run : Run sourceWriters (copyRegular sha256 entry output maximum label) state log outcome final) :
    (∀ size digest, outcome = .ok (size, digest) → Copied sha256 entry output maximum label log final size digest) ∧
      ∀ error, outcome = .error error → final.outputs = [] ∨
        ∃ stages : Stages entry output maximum label log, LeavesNothing output log final ↔ stages.CleansUp := by
  rcases copyRegular_opening fresh run with ⟨⟨error, rfl⟩, nothing⟩ | opened
  · exact ⟨fun _ _ impossible => (nomatch impossible), fun _ _ => Or.inl nothing⟩
  cases opened with
  | intro opening =>
  constructor
  · rintro size digest rfl
    exact opening.copied
  · rintro error rfl
    right
    rcases copyCreated_leaves opening.created opening.run opening.quiet with ⟨block, rest, result, left, later, ran, iff⟩
    rw [← opening.split] at iff
    rcases opening.ending with ⟨early, here, between⟩
    rcases opening.opened with ⟨moment, among, asked⟩
    refine ⟨{
      opening := _
      block := block
      rest := rest
      before := _
      source := opening.source
      destination := opening.destination
      result := result
      split := opening.split.trans (congrArg _ later)
      looked := ⟨_, List.mem_append_right _ (List.mem_append_left _ (List.mem_singleton_self _)), rfl⟩
      opened := ⟨moment, List.mem_append_right _ (List.mem_append_right _ among), asked⟩
      created := ?_
      run := ⟨_, _, ran⟩ }, iff⟩
    rw [between, ← List.append_assoc, ← List.append_assoc]
    exact ⟨_, here, rfl⟩

/-- A file `a` is copied to `b`, and somebody changes the mode of `a` before the last look at it. -/
theorem copyRegular_changed : ∃ log final number,
    Run sourceWriters (copyRegular hashlib ⟨0, text "a"⟩ ⟨0, text "b"⟩ 16 (text "file")) oneFile log
        (.error (.value (text "file changed after copying"))) final ∧
      number ∈ final.outputs ∧ final.names ⟨0, text "b"⟩ = some number ∧ NoUnlink log := by
  apply Exists.intro
  apply Exists.intro
  refine ⟨⟨0, 2⟩, ?_, ?_, ?_, ?_⟩
  · apply run_answered
    · exact Answers.stat rfl
    apply run_answered
    · exact Answers.open 3 rfl nofun rfl
    apply run_answered
    · exact Answers.fstat rfl
    apply run_answered
    · exact Answers.create 4 ⟨0, 2⟩ 1 rfl (by decide) rfl
    apply run_answered
    · exact Answers.read 1 rfl (by decide) nofun
    apply run_answered
    · exact Answers.write 1 1 rfl (by decide)
    apply run_answered
    · exact Answers.read 0 rfl (by decide) fun _ => Or.inr (by decide)
    apply run_answered
    · exact Answers.fstat rfl
    apply run_answered
    · exact Answers.fsync rfl
    apply run_answered
    · exact Answers.fstat rfl
    apply run_answered
    · exact Answers.close rfl
    apply run_answered
    · exact Answers.close rfl
    apply run_moved
    · refine ⟨?_, .attributes ⟨0, 1⟩ 0o600 1, rfl⟩
      intro number made
      rw [List.mem_singleton.mp made]
      exact ⟨rfl, fun _ => Iff.rfl⟩
    apply run_answered
    · exact Answers.stat rfl
    exact ⟨rfl, rfl, rfl⟩
  · exact List.mem_singleton_self _
  · rfl
  · exact .of_all rfl

/-- A run that raises may leave its destination behind. -/
theorem not_copyRegular_leavesNothing :
    ¬ ∀ (sha256 : Sha256) entry output maximum label state log error final, state.outputs = [] →
      Run sourceWriters (copyRegular sha256 entry output maximum label) state log (.error error) final →
        LeavesNothing output log final := by
  intro leaves
  rcases copyRegular_changed with ⟨log, final, number, run, made, name, quiet⟩
  exact not_leavesNothing made name quiet (leaves _ _ _ _ _ _ _ _ _ rfl run)

theorem copyRegular_outcome_changed :
    ∃ log final, final.outputs = [] ∨ ∃ stages : Stages ⟨0, text "a"⟩ ⟨0, text "b"⟩ 16 (text "file") log,
      LeavesNothing ⟨0, text "b"⟩ log final ↔ stages.CleansUp := by
  rcases copyRegular_changed with ⟨log, final, number, run, made, name, quiet⟩
  exact ⟨log, final, (copyRegular_outcome rfl run).2 _ rfl⟩

end ExitfyCores.Release.Files
