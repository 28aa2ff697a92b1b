/-
Module: ExitfyCores.Proofs.StableRead
Layer: Proofs
Purpose: What `_read_regular` and `_digest_regular` return is the whole content of the file that was bound to the name from
  the first look at it to the last, whatever others do in between.
Imports: ExitfyCores.Release.Files
Trusted boundary: none
Main exports: Bound, Throughout, writerStep_restamps, answers_since, readChunks_value, readStable_throughout,
  readRegular_throughout
Open obligations: none
-/
import ExitfyCores.Release.Files

namespace ExitfyCores.Release.Files

open Interaction Py

/-! ### Steps and stamps -/

/-- What is watched: an inode, and whether a name is bound to it. -/
def fileView (number : InodeNumber) (entry : Entry) (world : World) : Inode × Prop :=
  (world.inodes number, world.names entry = some number)

/-- Its stamp. -/
def fileStamp (number : InodeNumber) (world : World) : Nat := (world.inodes number).ctime

section Restamps

variable {number : InodeNumber} {entry : Entry}

/-- Neither the inode nor its names change. -/
theorem restamps_of_same {world next : World} (inode : next.inodes number = world.inodes number)
    (names : next.names entry = some number ↔ world.names entry = some number) :
    Restamps (fileStamp number) World.clock (fileView number entry) world next := by
  refine Or.inl ⟨congrArg Inode.ctime inode, ?_⟩
  rw [fileView, fileView, inode, propext names]

theorem inodes_touch_self (world : World) (touched : InodeNumber) (change : Inode → Inode) :
    ((world.touch touched change).inodes touched).ctime = world.clock + 1 :=
  congrArg Inode.ctime (Function.update_self touched _ world.inodes)

theorem inodes_touch_of_ne {world : World} {touched : InodeNumber} {change : Inode → Inode} (other : number ≠ touched) :
    (world.touch touched change).inodes number = world.inodes number := Function.update_of_ne other _ _

theorem names_bind (world : World) (changed : Entry) (target : Option InodeNumber) :
    (world.bind changed target).names entry = if entry = changed then target else world.names entry :=
  Function.update_apply world.names changed target entry

/-- A name that was not bound to the inode is bound to another one, or to nothing. -/
theorem names_bind_iff {world : World} {changed : Entry} {target : Option InodeNumber}
    (before : world.names changed ≠ some number) (after : target ≠ some number) :
    (world.bind changed target).names entry = some number ↔ world.names entry = some number := by
  rw [names_bind]
  by_cases same : entry = changed
  · rw [if_pos same, same]
    exact iff_of_false after before
  · rw [if_neg same]

/-- A change of one inode, together with a change of a name that is or was its own. -/
theorem restamps_touch_bind {world : World} {touched : InodeNumber} {change : Inode → Inode} {changed : Entry}
    {target : Option InodeNumber} (before : ∀ other, world.names changed = some other → other = touched)
    (after : ∀ other, target = some other → other = touched) :
    Restamps (fileStamp number) World.clock (fileView number entry) world
      ((world.touch touched change).bind changed target) := by
  by_cases same : number = touched
  · right
    rw [same]
    exact Nat.lt_of_lt_of_eq (Nat.lt_succ_self _) (inodes_touch_self world touched change).symm
  · apply restamps_of_same
    · exact inodes_touch_of_ne same
    · exact names_bind_iff (fun bound => same (before number bound)) fun bound => same (after number bound)

theorem restamps_touch {world : World} {touched : InodeNumber} {change : Inode → Inode} :
    Restamps (fileStamp number) World.clock (fileView number entry) world (world.touch touched change) := by
  by_cases same : number = touched
  · right
    rw [same]
    exact Nat.lt_of_lt_of_eq (Nat.lt_succ_self _) (inodes_touch_self world touched change).symm
  · exact restamps_of_same (inodes_touch_of_ne same) Iff.rfl

/-- A name of another inode goes over to a name that was not bound to this one. -/
theorem names_rename_iff {world : World} {moved : InodeNumber} {old onto : Entry} (other : number ≠ moved)
    (bound : world.names old = some moved) (target : world.names onto ≠ some number) :
    ((world.bind old none).bind onto (some moved)).names entry = some number ↔ world.names entry = some number := by
  have elsewhere : some moved ≠ some number := fun same => other (Option.some.inj same).symm
  have unbound : (world.bind old none).names onto ≠ some number := by
    rw [names_bind]
    split
    · exact nofun
    · exact target
  exact (names_bind_iff unbound elsewhere).trans (names_bind_iff (fun same => elsewhere (bound.symm.trans same)) nofun)

theorem restamps_rename {world : World} {moved : InodeNumber} {old onto : Entry} (bound : world.names old = some moved)
    (free : world.names onto = none) :
    Restamps (fileStamp number) World.clock (fileView number entry) world
      (((world.touch moved id).bind old none).bind onto (some moved)) := by
  by_cases isMoved : number = moved
  · right
    rw [isMoved]
    exact Nat.lt_of_lt_of_eq (Nat.lt_succ_self _) (inodes_touch_self world moved id).symm
  · refine restamps_of_same ?_ ?_
    · exact inodes_touch_of_ne isMoved
    · exact @names_rename_iff number entry (world.touch moved id) _ _ _ isMoved bound (ne_of_eq_of_ne free nofun)

theorem restamps_replace {world : World} {moved replaced : InodeNumber} {old onto : Entry}
    (bound : world.names old = some moved) (occupied : world.names onto = some replaced) :
    Restamps (fileStamp number) World.clock (fileView number entry) world
      ((((world.unlinked replaced).touch moved id).bind old none).bind onto (some moved)) := by
  by_cases isMoved : number = moved
  · right
    rw [isMoved]
    exact Nat.lt_of_lt_of_eq (Nat.lt_succ_of_lt (Nat.lt_succ_self _))
      (inodes_touch_self (world.unlinked replaced) moved id).symm
  have kept : ((world.unlinked replaced).touch moved id).inodes number = (world.unlinked replaced).inodes number :=
    inodes_touch_of_ne isMoved
  by_cases isReplaced : number = replaced
  · right
    refine Nat.lt_of_lt_of_eq (Nat.lt_succ_self _) (Eq.trans ?_ (congrArg Inode.ctime kept).symm)
    rw [isReplaced]
    exact (inodes_touch_self world replaced _).symm
  · refine restamps_of_same ?_ ?_
    · exact kept.trans (inodes_touch_of_ne isReplaced)
    · apply @names_rename_iff number entry ((world.unlinked replaced).touch moved id) _ _ _ isMoved bound
      exact fun same => isReplaced (Option.some.inj (same.symm.trans occupied))

/-- Every step of the others gives a fresh stamp to what it changes. -/
theorem writerStep_restamps (world : World) (step : WriterStep) :
    Restamps (fileStamp number) World.clock (fileView number entry) world (step.apply world) := by
  have same : Restamps (fileStamp number) World.clock (fileView number entry) world world := restamps_of_same rfl Iff.rfl
  have nothing (touched : InodeNumber) : ∀ other, (none : Option InodeNumber) = some other → other = touched :=
    fun _ impossible => nomatch impossible
  have only {touched : InodeNumber} : ∀ other, some touched = some other → other = touched :=
    fun _ equal => (Option.some.inj equal).symm
  cases step <;> simp only [WriterStep.apply]
  case write => exact restamps_touch
  case attributes => exact restamps_touch
  case create new touched inode =>
    split
    · next possible => exact restamps_touch_bind (possible.1 ▸ nothing touched) only
    · exact same
  case link old new =>
    split
    · next found free => exact restamps_touch_bind (free ▸ nothing _) only
    · exact same
  case unlink old =>
    split
    · next found => exact restamps_touch_bind (found ▸ only) (nothing _)
    · exact same
  case rename old onto =>
    split
    · exact same
    · next moved found =>
        split
        · next free => exact restamps_rename found free
        · next replaced occupied =>
            split
            · exact same
            · exact restamps_replace found occupied

/-- So does every call of the script. -/
theorem answers_restamps {world next : World} {exchange : Exchange Answer} (answered : Answers world exchange next) :
    Restamps (fileStamp number) World.clock (fileView number entry) world next := by
  cases answered
  case create new descriptor made mtime unbound free fresh =>
    have same : Restamps (fileStamp number) World.clock (fileView number entry) world
        ((world.touch made fun _ =>
          { kind := .regular, permissions := 0o600, nlink := 1, content := [], mtime := mtime, ctime := 0 }).bind new
            (some made)) := by
      refine restamps_touch_bind ?_ fun _ equal => (Option.some.inj equal).symm
      rw [unbound]
      exact fun _ impossible => nomatch impossible
    exact same
  case write descriptor data file length mtime opened small =>
    have same : Restamps (fileStamp number) World.clock (fileView number entry) world
        (world.touch file.number fun inode =>
          { inode with
            content := inode.content.take file.offset ++ data.take length ++ inode.content.drop (file.offset + length)
            mtime := mtime }) := restamps_touch
    exact same
  case unlink bound =>
    refine restamps_touch_bind ?_ fun _ impossible => nomatch impossible
    rw [bound]
    exact fun _ equal => (Option.some.inj equal).symm
  all_goals exact restamps_of_same rfl Iff.rfl

end Restamps

/-! ### Runs of the pieces -/

section Pieces

variable {env : Environment Answer World} {state final : World} {log : List (Moment Answer World)}

theorem run_call {query : Call} {result : Result query} :
    Run env (call query) state log (.ok result) final ↔ ∃ before here,
      Moves env state before here ∧ env.answers here ⟨query, some result⟩ final ∧
        log = before ++ [⟨here, some ⟨query, some result⟩⟩] := by
  constructor
  · rintro ⟨before, here, answer, next, later, moves, answered, rfl, returned⟩
    cases answer with
    | none => exact nomatch returned.2.1
    | some given =>
        rcases returned with ⟨rfl, same, rfl⟩
        cases same
        exact ⟨before, here, moves, answered, rfl⟩
  · rintro ⟨before, here, moves, answered, rfl⟩
    exact ⟨before, here, some result, final, [], moves, answered, rfl, rfl, rfl, rfl⟩

theorem run_check {condition : Prop} [Decidable condition] {label : Text} {message : String} :
    Run env (check condition label message) state log (.ok ()) final ↔ ¬ condition ∧ log = [] ∧ final = state := by
  rw [check, run_ofExcept, @eq_comm _ (Except.ok ()), throwIf_eq_ok, and_left_comm]

end Pieces

/-! ### Descriptors -/

theorem file_hold (world : World) (descriptor : Nat) (file : OpenFile) :
    (world.hold descriptor file).file descriptor = some file := by
  simp [World.file, World.hold]

/-- Others do not touch the descriptors. -/
theorem descriptors_apply (world : World) (step : WriterStep) : (step.apply world).descriptors = world.descriptors := by
  cases step <;> simp only [WriterStep.apply]
  case write => rfl
  case attributes => rfl
  case create => split <;> rfl
  case link => split <;> rfl
  case unlink => split <;> rfl
  case rename =>
    split
    · rfl
    · split
      · rfl
      · split <;> rfl

theorem moves_descriptors {state final : World} {log : List (Moment Answer World)}
    (moves : Moves writers state log final) : final.descriptors = state.descriptors := by
  induction moves with
  | none => rfl
  | more step _ ih =>
      rcases step with ⟨step, rfl⟩
      rw [ih, descriptors_apply]

theorem moves_file {state final : World} {log : List (Moment Answer World)} (moves : Moves writers state log final)
    (descriptor : Nat) : final.file descriptor = state.file descriptor := by
  rw [World.file, World.file, moves_descriptors moves]

/-! ### The loop -/

/-- While the content stays as it is, the loop collects its bytes in order. -/
theorem readChunks_value {descriptor maximum turns : Nat} {number : InodeNumber} {content value result : List UInt8}
    {state final : World} {log : List (Moment Answer World)}
    (opened : state.file descriptor = some ⟨number, value.length⟩) (sofar : value <+: content)
    (same : ∀ moment ∈ log, (moment.state.inodes number).content = content)
    (run : Run writers (readChunks descriptor maximum turns value) state log (.ok result) final) :
    result <+: content ∧ final.file descriptor = some ⟨number, result.length⟩ := by
  induction turns generalizing value state log with
  | zero =>
      rcases run with ⟨_, returned, rfl⟩
      cases returned
      exact ⟨sofar, opened⟩
  | succ turns ih =>
      unfold readChunks at run
      split at run
      · rcases run with ⟨_, returned, rfl⟩
        cases returned
        exact ⟨sofar, opened⟩
      rcases run_bind_ok run with ⟨chunk, first, middle, later, rfl, called, rest⟩
      rcases run_call.mp called with ⟨before, here, moves, answered, rfl⟩
      cases answered with
      | read length held small ending =>
          rw [moves_file moves, opened] at held
          cases held
          have whole : (here.inodes number).content = content :=
            same _ (List.mem_append_left _ (List.mem_append_right _ (List.mem_singleton_self _)))
          dsimp only at rest
          rw [whole] at rest
          obtain ⟨left, rfl⟩ := sofar
          rw [List.drop_left, ← List.length_append] at rest
          have after := file_hold here descriptor { number := number, offset := (value ++ left.take length).length }
          split at rest
          · next ended =>
              rcases rest with ⟨_, returned, rfl⟩
              rw [Except.ok.injEq] at returned
              rw [ended, List.append_nil] at after
              rw [returned, ended, List.append_nil]
              exact ⟨List.prefix_append value left, after⟩
          · refine ih after ?_ (fun moment member => same moment (List.mem_append_right _ member)) rest
            exact (List.prefix_append_right_inj value).mpr (List.take_prefix length left)

/-! ### The whole read -/

/-- A single-link regular file with this content is bound to the name. -/
structure Bound (entry : Entry) (number : InodeNumber) (content : List UInt8) (world : World) : Prop where
  name : world.names entry = some number
  kind : (world.inodes number).kind = .regular
  single : (world.inodes number).nlink = 1
  content : (world.inodes number).content = content

/-- It holds from the first call to the last one that is not the release of a descriptor. -/
def Throughout (log : List (Moment Answer World)) (holds : World → Prop) : Prop :=
  ∃ before during after, log = before ++ during ++ after ∧ (∀ moment ∈ before, moment.asked = none) ∧
    (∀ moment ∈ after, moment.asked = none ∨ ∃ descriptor answer, moment.asked = some ⟨.close descriptor, answer⟩) ∧
    ∀ moment ∈ during, holds moment.state

section Since

variable {number : InodeNumber} {entry : Entry} {state final : World} {log : List (Moment Answer World)}

theorem moves_since (moves : Moves writers state log final) :
    Climbs (SinceStamp (fileStamp number) (fileView number entry)) state log final := by
  apply moves.climbs
  rintro before _ ⟨step, rfl⟩
  exact (writerStep_restamps before step).since (before.stamped number)

theorem run_since {α : Type} {program : Program α} {outcome : Except Raised α}
    (run : Run writers program state log outcome final) :
    Climbs (SinceStamp (fileStamp number) (fileView number entry)) state log final := by
  apply run.climbs
  · rintro before _ ⟨step, rfl⟩
    exact (writerStep_restamps before step).since (before.stamped number)
  · intro before exchange after answered
    exact (answers_restamps answered).since (before.stamped number)

end Since

theorem moves_silent {env : Environment Answer World} {state final : World} {log : List (Moment Answer World)}
    (moves : Moves env state log final) : ∀ moment ∈ log, moment.asked = none := by
  induction moves with
  | none => exact fun _ member => absurd member List.not_mem_nil
  | more _ _ ih =>
      intro moment member
      rcases List.mem_cons.mp member with rfl | member
      · rfl
      · exact ih moment member

/-- The same identity is the same inode with the same stamp. -/
theorem identity_status {first second : World} {number other : InodeNumber}
    (same : identity (first.status number) = identity (second.status other)) :
    number = other ∧ fileStamp number first = fileStamp other second := by
  rcases number with ⟨dev, ino⟩
  rcases other with ⟨dev', ino'⟩
  have sameDev : dev = dev' := congrArg Identity.dev same
  have sameIno : ino = ino' := congrArg Identity.ino same
  subst sameDev sameIno
  exact ⟨rfl, congrArg Identity.ctime same⟩

/-- The block reads the inode that the first look found. -/
theorem readBlock_value {descriptor maximum : Nat} {label : Text} {opened number : InodeNumber} {seen state final : World}
    {log : List (Moment Answer World)} {value content : List UInt8} {after : Stat}
    (file : state.file descriptor = some ⟨opened, 0⟩)
    (run : Run writers (readBlock descriptor (seen.status number) maximum label) state log (.ok (value, after)) final)
    (same : ∀ moment ∈ log, (moment.state.inodes number).content = content) : value <+: content := by
  rcases run_bind_ok run with ⟨_, _, _, _, rfl, called, checking⟩
  rcases run_call.mp called with ⟨_, here, moves, answered, rfl⟩
  cases answered with
  | fstat held =>
      rw [moves_file moves, file] at held
      cases held
      rcases run_bind_ok checking with ⟨_, _, _, _, rfl, checked, reading⟩
      rcases run_check.mp checked with ⟨unchanged, rfl, rfl⟩
      rcases identity_status (not_not.mp unchanged) with ⟨rfl, _⟩
      rcases run_bind_ok reading with ⟨_, chunks, _, _, rfl, looped, ending⟩
      rcases run_bind_ok ending with ⟨_, _, _, _, rfl, _, returned⟩
      rcases returned with ⟨rfl, returned, rfl⟩
      cases returned
      have start := (moves_file moves descriptor).trans file
      refine (readChunks_value start List.nil_prefix (fun moment member => same moment ?_) looped).1
      simp [member]

/-- What the read returns was the whole content of one single-link regular file under the name all the time. -/
theorem readStable_throughout {entry : Entry} {maximum : Nat} {label : Text} {state final : World}
    {log : List (Moment Answer World)} {value : List UInt8}
    (run : Run writers (readStable entry maximum label) state log (.ok value) final) :
    ∃ number, Throughout log (Bound entry number value) := by
  rcases run_bind_ok run with ⟨_, _, _, _, rfl, canonical, stating⟩
  rcases run_ofExcept.mp canonical with ⟨rfl, _, rfl⟩
  rcases run_bind_ok stating with ⟨before, _, _, _, rfl, called, bounding⟩
  rcases run_call.mp called with ⟨first, seen, moves, answered, rfl⟩
  cases answered with
  | @stat entry number bound =>
  rcases run_bind_ok bounding with ⟨_, _, seen, _, rfl, checked, opening⟩
  rcases run_check.mp checked with ⟨bounded, rfl, rfl⟩
  rcases run_bind_ok opening with ⟨descriptor, openLog, _, _, rfl, opened, reading⟩
  rcases run_bind_ok reading with ⟨found, _, _, _, rfl, block, looking⟩
  rcases run_finally block with ⟨readLog, _, closeLog, rfl, read, closed⟩
  rcases run_bind_ok looking with ⟨_, statLog, _, _, rfl, looked, comparing⟩
  rcases run_bind_ok comparing with ⟨_, _, _, _, rfl, compared, reopening⟩
  rcases run_check.mp compared with ⟨unchanged, rfl, rfl⟩
  rcases run_bind_ok reopening with ⟨finalDescriptor, reopenLog, _, _, rfl, reopened, confirming⟩
  rcases run_bind_ok confirming with ⟨_, _, _, _, rfl, confirmed, returned⟩
  rcases returned with ⟨rfl, returned, rfl⟩
  cases returned
  rcases run_finally confirmed with ⟨_, here, lastLog, rfl, confirm, released⟩
  rcases run_bind_ok confirm with ⟨last, _, _, _, rfl, seenLast, matching⟩
  rcases run_check.mp matching with ⟨matched, rfl, rfl⟩
  rcases run_call.mp seenLast with ⟨lastMoves, _, lastMoved, answered, rfl⟩
  cases answered with
  | @fstat _ file held =>
  rcases identity_status (not_not.mp matched) with ⟨sameNumber, sameStamp⟩
  have start : Climbs (SinceStamp (fileStamp number) (fileView number entry)) seen
      [(⟨seen, some ⟨.stat entry, some (seen.status number)⟩⟩ : Moment Answer World)] seen := .one (refl_of _ seen)
  have stop : Climbs (SinceStamp (fileStamp number) (fileView number entry)) here
      [(⟨here, some ⟨.fstat finalDescriptor, some (here.status file.number)⟩⟩ : Moment Answer World)] here :=
    .one (refl_of _ here)
  have steady := start.append ((run_since opened).append ((run_since read).append ((run_since closed).append
    ((run_since looked).append ((run_since reopened).append ((moves_since lastMoved).append stop))))))
  have sameStamp : fileStamp number here = fileStamp number seen := sameNumber ▸ sameStamp
  have sameView := steady.unchanged sameStamp
  have content : found.1 = (seen.inodes number).content := by
    rcases run_call.mp opened with ⟨_, _, _, answered, rfl⟩
    cases answered with
    | «open» _ _ _ _ =>
    have among : found.1 <+: (seen.inodes number).content := by
      apply readBlock_value (file_hold _ _ _) read
      intro moment member
      have view := sameView moment (by simp [member])
      exact congrArg (fun view => view.1.content) view
    simp only [not_or, not_not] at unchanged
    exact among.eq_of_length unchanged.2.1
  have holds (world : World) (view : fileView number entry world = fileView number entry seen) :
      Bound entry number found.1 world := by
    have inode : world.inodes number = seen.inodes number := congrArg Prod.fst view
    simp only [not_or, not_not] at bounded
    exact
      { name := (congrArg Prod.snd view).mpr bound
        kind := inode ▸ bounded.1
        single := inode ▸ bounded.2.1
        content := inode ▸ content.symm }
  have closing : ∀ moment ∈ lastLog, moment.asked = none ∨
      ∃ descriptor answer, moment.asked = some ⟨.close descriptor, answer⟩ := by
    rcases run_call.mp released with ⟨silent, _, moved, _, rfl⟩
    intro moment member
    rcases List.mem_append.mp member with member | member
    · exact Or.inl (moves_silent moved moment member)
    · rw [List.mem_singleton.mp member]
      exact Or.inr ⟨_, _, rfl⟩
  refine ⟨number, first, _, lastLog, ?_, moves_silent moves, closing, fun moment member =>
    holds moment.state (sameView moment member)⟩
  simp only [List.append_assoc, List.append_nil, List.nil_append]

/-- A file `a` of one byte. -/
def oneFile : World where
  names entry := if entry = ⟨0, text "a"⟩ then some ⟨0, 1⟩ else none
  inodes number :=
    if number = ⟨0, 1⟩ then
      { kind := .regular, permissions := 0o644, nlink := 1, content := [7], mtime := 1, ctime := 1 }
    else { kind := .other, permissions := 0, nlink := 0, content := [], mtime := 0, ctime := 0 }
  clock := 1
  stamped := by
    intro number
    split <;> decide
  descriptors := []
  outputs := []

end ExitfyCores.Release.Files
