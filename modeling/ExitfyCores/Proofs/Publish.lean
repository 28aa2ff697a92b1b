/-
Module: ExitfyCores.Proofs.Publish
Layer: Proofs
Purpose: Whatever fails in `write_source_archive` and wherever it is cut off, its output name leads to the old archive
  or to all of the new one, and to the new one where it returns.
Imports: ExitfyCores.Bundle.Publish, ExitfyCores.Lib.Moments
Trusted boundary: none
Main exports: Entry, Standing, Spares, World.Still, Archive.Published, writeSourceArchive_atomic
Open obligations: none
-/
import ExitfyCores.Bundle.Publish
import ExitfyCores.Lib.Moments

namespace ExitfyCores.Bundle.Publish

open Interaction

/-! ### What a call changes -/

/-- The names that a call may bind to another inode. -/
def Call.binds : Call → List String
  | .openLock name | .create name | .link _ name | .unlink name => [name]
  | .replace name onto => [name, onto]
  | _ => []

/-- The calls that may change what is in a file that has a name. -/
def Call.Alters : Call → Prop
  | .write _ _ | .chmod _ _ => True
  | _ => False

theorem World.change_inodes {world : World} {inode other : Nat} {change : Inode → Inode} (apart : other ≠ inode) :
    (world.change inode change).inodes other = world.inodes other :=
  Function.update_of_ne apart _ _

@[simp] theorem World.change_self {world : World} {inode : Nat} {change : Inode → Inode} :
    (world.change inode change).inodes inode = change (world.inodes inode) :=
  Function.update_self _ _ _

@[simp] theorem World.change_names {world : World} {inode : Nat} {change : Inode → Inode} :
    (world.change inode change).names = world.names := rfl

@[simp] theorem World.bind_inodes {world : World} {name : String} {inode : Option Nat} :
    (world.bind name inode).inodes = world.inodes := rfl

theorem World.bind_names {world : World} {name other : String} {inode : Option Nat} (apart : other ≠ name) :
    (world.bind name inode).names other = world.names other :=
  Function.update_of_ne apart _ _

@[simp] theorem World.bind_self {world : World} {name : String} {inode : Option Nat} :
    (world.bind name inode).names name = inode :=
  Function.update_self _ _ _

/-- A change of links and times alone. -/
theorem World.change_data {world : World} {inode other : Nat} (change : Inode → Inode)
    (same : (change (world.inodes inode)).data = (world.inodes inode).data) :
    ((world.change inode change).inodes other).data = (world.inodes other).data := by
  by_cases here : other = inode
  · rw [here, World.change_self, same]
  · rw [World.change_inodes here]

@[simp] theorem World.drop_data {world : World} {inode : Option Nat} {other : Nat} :
    ((world.drop inode).inodes other).data = (world.inodes other).data := by
  cases inode with
  | none => rfl
  | some number => exact World.change_data (fun old => { old with nlink := old.nlink - 1 }) rfl

@[simp] theorem World.drop_names {world : World} {inode : Option Nat} : (world.drop inode).names = world.names := by
  cases inode <;> rfl

@[simp] theorem World.drop_ownNames {world : World} {inode : Option Nat} :
    (world.drop inode).ownNames = world.ownNames := by
  cases inode <;> rfl

@[simp] theorem World.drop_ownInodes {world : World} {inode : Option Nat} :
    (world.drop inode).ownInodes = world.ownInodes := by
  cases inode <;> rfl

theorem World.Free.apart {world : World} {name : String} {inode new : Nat} (free : world.Free new)
    (bound : world.names name = some inode) : inode ≠ new := by
  rintro rfl
  exact free.1 name bound

theorem Answers.names {world next : World} {exchange : Exchange Answer} (answers : Answers world exchange next)
    {name : String} (unbound : name ∉ exchange.query.binds) : next.names name = world.names name := by
  cases answers with
  | makeLock => exact Function.update_of_ne (List.ne_of_not_mem_cons unbound) _ _
  | create => exact Function.update_of_ne (List.ne_of_not_mem_cons unbound) _ _
  | link => exact Function.update_of_ne (List.ne_of_not_mem_cons unbound) _ _
  | replace =>
      have apart := List.ne_of_not_mem_cons (List.not_mem_of_not_mem_cons unbound)
      rw [World.bind_names apart, World.bind_names (List.ne_of_not_mem_cons unbound), World.drop_names]
  | unlink => rw [World.bind_names (List.ne_of_not_mem_cons unbound), World.drop_names]
  | _ => rfl

/-- What is in a file that has a name stays, but it may be synced now. -/
theorem Answers.data {world next : World} {exchange : Exchange Answer} (answers : Answers world exchange next)
    (plain : ¬ exchange.query.Alters) {name : String} {inode : Nat} (bound : world.names name = some inode) :
    (next.inodes inode).data = (world.inodes inode).data ∨
      (next.inodes inode).data = { (world.inodes inode).data with synced := true } := by
  cases answers with
  | makeLock descriptor new mtime ctime unbound free =>
      exact Or.inl (congrArg Inode.data (Function.update_of_ne (free.apart bound) _ _))
  | create descriptor new mtime ctime unbound free =>
      exact Or.inl (congrArg Inode.data (Function.update_of_ne (free.apart bound) _ _))
  | write => exact absurd trivial plain
  | chmod => exact absurd trivial plain
  | @fsync _ file opened =>
      by_cases here : inode = file.inode
      · right
        rw [here, World.change_self]
        rfl
      · left
        rw [World.change_inodes here]
  | link ctime =>
      exact Or.inl (World.change_data (fun old => { old with nlink := old.nlink + 1, ctime }) rfl)
  | replace | unlink =>
      left
      simp only [World.bind_inodes, World.drop_data]
  | _ => exact Or.inl rfl

theorem Answers.ownNames {world next : World} {exchange : Exchange Answer} (answers : Answers world exchange next) :
    world.ownNames ⊆ next.ownNames := by
  cases answers with
  | create => exact List.subset_cons_self _ _
  | link => exact List.subset_cons_self _ _
  | replace | unlink => simp [World.bind]
  | _ => exact List.Subset.refl _

theorem Answers.ownInodes {world next : World} {exchange : Exchange Answer} (answers : Answers world exchange next) :
    world.ownInodes ⊆ next.ownInodes := by
  cases answers with
  | create => exact List.subset_cons_self _ _
  | replace | unlink => simp [World.bind]
  | _ => exact List.Subset.refl _

/-- A call that fails changes nothing, unless it was to close a file. -/
theorem Answers.failure {world next : World} {call : Call} {fault : Fault}
    (answers : Answers world ⟨call, .error fault⟩ next) (stays : ∀ descriptor, call ≠ .close descriptor) :
    next = { world with faults := next.faults } := by
  cases answers with
  | closeFailed => exact absurd rfl (stays _)
  | _ => rfl

/-! ### What stands -/

/-- A name, the inode it leads to, and what is known of the data there. -/
structure Entry where
  name : String
  inode : Option Nat
  data : Nat → Data → Prop

def Entry.In (entry : Entry) (world : World) : Prop :=
  world.names entry.name = entry.inode ∧
    ∀ inode, entry.inode = some inode → entry.data inode (world.inodes inode).data

/-- What is known stays true when the file is synced. -/
def Entry.Lasting (entry : Entry) : Prop :=
  ∀ inode data, entry.data inode data → entry.data inode { data with synced := true }

/-- Entries under names that the others leave alone, and inodes that the script has made. -/
structure Standing (output : String) (entries : List Entry) (made : List Nat) (world : World) : Prop where
  found : ∀ entry ∈ entries, entry.In world
  ours : ∀ entry ∈ entries, entry.name = output ∨ entry.name ∈ world.ownNames
  made : made ⊆ world.ownInodes

section Standing

variable {output : String} {entries fewer : List Entry} {made less : List Nat} {world next : World}

theorem Standing.part (standing : Standing output entries made world) (names : fewer ⊆ entries) (inodes : less ⊆ made) :
    Standing output fewer less world :=
  ⟨fun entry member => standing.found entry (names member), fun entry member => standing.ours entry (names member),
    List.Subset.trans inodes standing.made⟩

theorem kept_standing : Kept (others output) (Standing output entries made) := by
  rintro world next (moved : Untouched output world next) standing
  refine ⟨?_, ?_, ?_⟩
  · intro entry member
    obtain ⟨bound, known⟩ := standing.found entry member
    refine ⟨(moved.names entry.name (standing.ours entry member)).trans bound, ?_⟩
    intro inode leads
    rw [moved.data entry.name inode (standing.ours entry member) (bound.trans leads)]
    exact known inode leads
  · intro entry member
    rw [moved.ownNames]
    exact standing.ours entry member
  · rw [moved.ownInodes]
    exact standing.made

/-- A call that binds none of the names and alters no file. -/
def Call.Spares (names : List String) (call : Call) : Prop :=
  (∀ name ∈ names, name ∉ call.binds) ∧ ¬ call.Alters

theorem Standing.answered {exchange : Exchange Answer} (lasting : ∀ entry ∈ entries, entry.Lasting)
    (spares : exchange.query.Spares (entries.map Entry.name)) (answers : Answers world exchange next)
    (standing : Standing output entries made world) : Standing output entries made next := by
  refine ⟨?_, ?_, ?_⟩
  · intro entry member
    obtain ⟨bound, known⟩ := standing.found entry member
    refine ⟨(answers.names (spares.1 _ (List.mem_map_of_mem member))).trans bound, ?_⟩
    intro inode leads
    rcases answers.data spares.2 (bound.trans leads) with same | synced
    · rw [same]
      exact known inode leads
    · rw [synced]
      exact lasting entry member inode _ (known inode leads)
  · intro entry member
    exact (standing.ours entry member).imp_right fun own => answers.ownNames own
  · exact List.Subset.trans standing.made answers.ownInodes

end Standing

/-! ### Programs that spare names -/

/-- A program that leaves the names, and all files that have a name, as they are. -/
def Sparing {α : Type} (names : List String) (program : Program α) : Prop :=
  Only (fun exchange => exchange.query.Spares names) program fun _ => True

section Sparing

variable {α β : Type} {names : List String} {program : Program α}

theorem Sparing.bind {next : α → Program β} (first : Sparing names program) (rest : ∀ a, Sparing names (next a)) :
    Sparing names (program >>= next) :=
  Only.bind first fun a _ => rest a

theorem Sparing.attempt (sparing : Sparing names program) : Sparing names program.attempt :=
  (Only.attempt sparing).weaken fun _ _ => trivial

theorem Sparing.finally_ {cleanup : Program Unit} (sparing : Sparing names program) (cleans : Sparing names cleanup) :
    Sparing names (finally_ program cleanup) :=
  Only.finally_ sparing cleans

theorem sparing_pure {a : α} : Sparing names (pure a) :=
  only_done trivial

theorem sparing_raise {error : Failure} : Sparing names (.raise error : Program α) :=
  only_raise

theorem sparing_call {query : Call} (spares : query.Spares names) : Sparing names (call query) := by
  apply only_ask fun _ => spares
  intro answer
  cases answer with
  | ok result => exact only_done trivial
  | error fault => exact only_raise

theorem sparing_check {condition : Prop} {decidable : Decidable condition} {message : String} :
    Sparing names (check condition message) := by
  unfold check Interaction.throwIf
  split
  · exact only_raise
  · exact only_done trivial

theorem Sparing.orValueError {message : String} (sparing : Sparing names program) :
    Sparing names (orValueError program message) := by
  apply sparing.attempt.bind
  rintro ((message | fault) | a) <;> first | exact sparing_raise | exact sparing_pure

theorem sparing_whenSome {value : Option α} {body : α → Program Unit}
    (each : ∀ a, value = some a → Sparing names (body a)) : Sparing names (whenSome value body) := by
  cases value with
  | none => exact sparing_pure
  | some a => exact each a rfl

/-- A call that binds nothing and alters nothing. -/
theorem sparing_quiet {query : Call} (binds : query.binds = []) (plain : ¬ query.Alters) : Sparing names (call query) :=
  sparing_call ⟨fun _ _ => binds ▸ List.not_mem_nil, plain⟩

theorem sparing_unlink {name : String} (apart : name ∉ names) : Sparing names (call (.unlink name)) := by
  refine sparing_call ⟨fun other member => ?_, id⟩
  rintro bound
  rw [List.mem_singleton.mp bound] at member
  exact apart member

theorem sparing_sourceRootIdentity {metadata : Stat} : Sparing names (sourceRootIdentity metadata) :=
  sparing_check.bind fun _ => sparing_pure

theorem sparing_verifyDirectoryPath {expected : Nat} : Sparing names (verifyDirectoryPath expected) := by
  apply (sparing_quiet rfl id).orValueError.bind
  intro descriptor
  apply Sparing.finally_ _ (sparing_quiet rfl id)
  apply (sparing_quiet rfl id).bind
  intro metadata
  exact sparing_sourceRootIdentity.bind fun _ => sparing_check

theorem sparing_openOutputLock {output : String} (apart : lockName output ∉ names) :
    Sparing names (openOutputLock output) := by
  have opens : Sparing names (call (.openLock (lockName output))) := by
    refine sparing_call ⟨fun other member bound => ?_, id⟩
    rw [List.mem_singleton.mp bound] at member
    exact apart member
  apply opens.orValueError.bind
  intro descriptor
  apply Sparing.bind
  · apply Sparing.attempt
    apply (sparing_quiet rfl id).bind
    intro metadata
    exact sparing_check.bind fun _ => (sparing_quiet rfl id).orValueError
  · rintro (error | _)
    · exact (sparing_quiet rfl id).bind fun _ => sparing_raise
    · exact sparing_pure

theorem sparing_verifyOutputLock {output : String} {lock : Nat} {fingerprint : Stat} :
    Sparing names (verifyOutputLock output lock fingerprint) := by
  apply (sparing_quiet rfl id).bind
  intro expected
  apply sparing_check.bind
  intro _
  apply (sparing_quiet rfl id).orValueError.bind
  intro reopened
  apply Sparing.finally_ _ (sparing_quiet rfl id)
  exact (sparing_quiet rfl id).bind fun _ => sparing_check

theorem sparing_compareWithName {matching : Stat → Stat → Bool} {name : String} {descriptor : Nat} :
    Sparing names (compareWithName matching name descriptor) := by
  apply Sparing.bind
  · apply Sparing.attempt
    apply (sparing_quiet rfl id).bind
    intro opened
    exact (sparing_quiet rfl id).bind fun _ => sparing_pure
  · rintro ((message | fault) | same) <;> first | exact sparing_raise | exact sparing_pure

theorem sparing_unlinkStagedIfOwned {name : String} {descriptor : Nat} (apart : name ∉ names) :
    Sparing names (unlinkStagedIfOwned name descriptor) := by
  apply sparing_compareWithName.bind
  intro same
  cases same with
  | false => exact sparing_pure
  | true => exact sparing_unlink apart

theorem sparing_unlinkBackupIfOwned {name : String} {descriptor : Nat} (apart : name ∉ names) :
    Sparing names (unlinkBackupIfOwned name descriptor) := by
  apply sparing_compareWithName.bind
  intro same
  cases same with
  | false => exact sparing_pure
  | true => exact sparing_unlink apart

theorem sparing_verifyCompressedArchiveSize {descriptor : Nat} :
    Sparing names (verifyCompressedArchiveSize descriptor) :=
  (sparing_quiet rfl id).bind fun _ => sparing_check

theorem sparing_readPayload {descriptor expectedSize turns : Nat} {read : Bytes} :
    Sparing names (readPayload descriptor expectedSize turns read) := by
  induction turns generalizing read with
  | zero => exact sparing_pure
  | succ turns ih =>
      unfold readPayload
      split
      · exact sparing_pure
      · apply (sparing_quiet rfl id).bind
        intro chunk
        split
        · exact sparing_pure
        · exact ih

theorem sparing_verifyDescriptorPayload {descriptor expectedSize : Nat}
    {expectedSha256 : Py.Text} :
    Sparing names (verifyDescriptorPayload descriptor expectedSize expectedSha256) := by
  apply sparing_check.bind
  intro _
  apply (sparing_quiet rfl id).bind
  intro _
  exact sparing_readPayload.bind fun _ => sparing_check

theorem sparing_lockOutput {output : String} {parent : Nat} (apart : lockName output ∉ names) :
    Sparing names (lockOutput output parent) := by
  apply (sparing_quiet rfl id).bind
  intro metadata
  apply sparing_sourceRootIdentity.bind
  intro identity
  apply sparing_verifyDirectoryPath.bind
  intro _
  exact (sparing_openOutputLock apart).bind fun _ => sparing_pure

theorem sparing_confirmOutput {output : String} {parent identity staged : Nat}
    {written : Bytes} : Sparing names (confirmOutput output parent identity staged written) := by
  apply Sparing.bind (sparing_compareWithName.bind fun _ => sparing_check)
  intro _
  apply sparing_verifyCompressedArchiveSize.bind
  intro _
  apply sparing_verifyDescriptorPayload.bind
  intro _
  exact (sparing_quiet rfl id).bind fun _ => sparing_verifyDirectoryPath

theorem sparing_cleanup {parent : Nat} {held : Held} (staged : ∀ staged, held.staged = some staged → staged.1 ∉ names)
    (backup : ∀ backup, held.backup = some backup → backup.name ∉ names) : Sparing names (cleanup parent held) := by
  apply Sparing.finally_
  · apply Sparing.finally_
    · split
      · exact sparing_whenSome fun name found => sparing_unlinkStagedIfOwned (staged name found)
      · exact sparing_pure
    · exact sparing_whenSome fun _ _ => sparing_quiet rfl id
  · apply Sparing.finally_
    · apply Sparing.finally_
      · split
        · exact sparing_whenSome fun link found => sparing_unlinkBackupIfOwned (backup link found)
        · exact sparing_pure
      · exact sparing_whenSome fun _ _ => sparing_quiet rfl id
    · apply Sparing.finally_ _ (sparing_quiet rfl id)
      exact sparing_whenSome fun _ _ => (sparing_quiet rfl id).finally_ (sparing_quiet rfl id)

/-- A program that spares what stands leaves it standing. -/
theorem Sparing.throughout {output : String} {entries : List Entry} {made : List Nat} {always : World → Prop}
    (sparing : Sparing (entries.map Entry.name) program) (lasting : ∀ entry ∈ entries, entry.Lasting)
    (implied : ∀ world, Standing output entries made world → always world) :
    Throughout (others output) always (Standing output entries made) program fun _ =>
      Standing output entries made :=
  (Only.throughout sparing kept_standing (fun _ _ _ spares answers => Standing.answered lasting spares answers)
    implied).weaken fun _ _ stands => stands.1

end Sparing

theorem throughout_call {output : String} {always before : World → Prop} {query : Call}
    {after : Except Failure (Result query) → World → Prop} (kept : Kept (others output) before)
    (implied : ∀ world, before world → always world)
    (answered : ∀ world answer next, before world → Answers world ⟨query, answer⟩ next →
      after (answer.mapError .system) next) : Throughout (others output) always before (call query) after := by
  apply throughout_ask kept implied
  intro answer
  cases answer with
  | ok result =>
      apply throughout_done
      rintro next ⟨world, holds, answers⟩
      exact answered world (.ok result) next holds answers
  | error fault =>
      apply throughout_raise
      rintro next ⟨world, holds, answers⟩
      exact answered world (.error fault) next holds answers

/-! ### The old archive and the new one -/

/-- The output name leads where it led at the start, to the same content. -/
def World.Still (start : World) (output : String) (world : World) : Prop :=
  world.names output = start.names output ∧
    ∀ inode, start.names output = some inode → (world.inodes inode).content = (start.inodes inode).content

/-- The data of a finished archive. -/
def Archive.data (archive : Archive) : Data := ⟨archive.bytes, 0o644, true⟩

/-- The archive is finished, and within its bound. -/
def Archive.Finished (archive : Archive) : Prop :=
  archive.error = none ∧ archive.bytes.length ≤ maxSourceArchiveBytes

/-- The output name leads to all of the archive, synced, in a file that the script has made. -/
def Archive.Published (archive : Archive) (output : String) (world : World) : Prop :=
  archive.Finished ∧
    ∃ inode ∈ world.ownInodes, world.names output = some inode ∧ (world.inodes inode).data = archive.data

def Safe (start : World) (output : String) (archive : Archive) (world : World) : Prop :=
  start.Still output world ∨ archive.Published output world

/-- A run that is safe at every moment. -/
abbrev Safely {α : Type} (start : World) (output : String) (archive : Archive) (before : World → Prop)
    (program : Program α) (after : Except Failure α → World → Prop) : Prop :=
  Throughout (others output) (Safe start output archive) before program after

/-- The old archive under a name. -/
def World.kept (start : World) (output name : String) : Entry :=
  ⟨name, start.names output, fun inode data => data.content = (start.inodes inode).content⟩

/-- The new archive under a name. -/
def Archive.made (archive : Archive) (name : String) (inode : Nat) : Entry :=
  ⟨name, some inode, fun _ data => data = archive.data⟩

theorem lasting_kept {start : World} {output name : String} : (start.kept output name).Lasting :=
  fun _ _ known => known

theorem lasting_made {archive : Archive} {name : String} {inode : Nat} : (archive.made name inode).Lasting := by
  intro _ data (known : data = archive.data)
  rw [known]
  rfl

/-- Nothing has happened to the output name yet. -/
abbrev Old (start : World) (output : String) : World → Prop :=
  Standing output [start.kept output output] []

section Safe

variable {start world : World} {output : String} {archive : Archive} {entries : List Entry} {made : List Nat}

theorem Standing.still (standing : Standing output entries made world) (member : start.kept output output ∈ entries) :
    start.Still output world :=
  standing.found _ member

theorem Standing.safe (standing : Standing output entries made world) (member : start.kept output output ∈ entries) :
    Safe start output archive world :=
  Or.inl (standing.still member)

theorem Standing.published {inode : Nat} (finished : archive.Finished)
    (standing : Standing output entries made world) (member : archive.made output inode ∈ entries)
    (own : inode ∈ made) : archive.Published output world := by
  obtain ⟨bound, known⟩ := standing.found _ member
  exact ⟨finished, inode, standing.made own, bound, known inode rfl⟩

end Safe

/-! ### The staged file -/

/-- The old archive is in its place, and the descriptor is at an offset of a new file. -/
structure Staged (start : World) (output : String) (staged : String × Nat) (inode : Nat) (data : Data → Prop)
    (offset : Nat) (world : World) : Prop where
  old : Old start output world
  named : world.names staged.1 = some inode
  ours : staged.1 ∈ world.ownNames
  made : inode ∈ world.ownInodes
  holds : data (world.inodes inode).data
  opened : world.files staged.2 = some ⟨inode, offset⟩

section Staged

variable {start world next : World} {output : String} {archive : Archive} {staged : String × Nat} {inode offset : Nat}
  {data other : Data → Prop}

theorem Staged.weaken (held : Staged start output staged inode data offset world)
    (weaker : ∀ found, data found → other found) : Staged start output staged inode other offset world :=
  { held with holds := weaker _ held.holds }

theorem kept_staged : Kept (others output) (Staged start output staged inode data offset) := by
  rintro world next (moved : Untouched output world next) held
  refine ⟨kept_standing world next moved held.old, ?_, ?_, ?_, ?_, ?_⟩
  · exact (moved.names _ (Or.inr held.ours)).trans held.named
  · exact moved.ownNames ▸ held.ours
  · exact moved.ownInodes ▸ held.made
  · rw [moved.inodes inode held.made]
    exact held.holds
  · rw [moved.files]
    exact held.opened

/-- A change of the staged file alone. -/
theorem Staged.change (change : Inode → Inode) (new : start.names output ≠ some inode)
    (held : Staged start output staged inode data offset world)
    (changed : ∀ old : Inode, data old.data → other (change old).data) :
    Staged start output staged inode other offset (world.change inode change) := by
  refine ⟨⟨?_, held.old.ours, held.old.made⟩, held.named, held.ours, held.made, ?_, held.opened⟩
  · intro entry member
    obtain ⟨bound, known⟩ := held.old.found entry member
    refine ⟨bound, fun old leads => ?_⟩
    have apart : old ≠ inode := by
      rintro rfl
      rw [List.mem_singleton.mp member] at leads
      exact new leads
    rw [World.change_inodes apart]
    exact known old leads
  · rw [World.change_self]
    exact changed _ held.holds

theorem Standing.failure {entries : List Entry} {made : List Nat} {call : Call} {fault : Fault}
    (stands : Standing output entries made world) (answers : Answers world ⟨call, .error fault⟩ next)
    (stays : ∀ descriptor, call ≠ .close descriptor) : Standing output entries made next := by
  rw [answers.failure stays]
  exact ⟨stands.found, stands.ours, stands.made⟩

theorem Staged.failure {call : Call} {fault : Fault} (held : Staged start output staged inode data offset world)
    (answers : Answers world ⟨call, .error fault⟩ next) (stays : ∀ descriptor, call ≠ .close descriptor) :
    Staged start output staged inode data offset next := by
  rw [answers.failure stays]
  exact ⟨⟨held.old.found, held.old.ours, held.old.made⟩, held.named, held.ours, held.made, held.holds, held.opened⟩

theorem Staged.fstat {descriptor : Nat} {answer : Answer (.fstat descriptor)}
    (held : Staged start output staged inode data offset world)
    (answers : Answers world ⟨.fstat descriptor, answer⟩ next) : Staged start output staged inode data offset next := by
  cases answer with
  | error fault => exact held.failure answers nofun
  | ok metadata =>
      cases answers
      exact held

theorem Staged.write {payload : Bytes} {length : Nat} (new : start.names output ≠ some inode)
    (held : Staged start output staged inode data offset world)
    (answers : Answers world ⟨.write staged.2 payload, .ok length⟩ next)
    (changed : ∀ old, data old → other { old with
      content := old.content.take offset ++ payload.take length ++ old.content.drop (offset + length)
      synced := false }) :
    length ≤ payload.length ∧ Staged start output staged inode other (offset + length) next := by
  cases answers with
  | write _ mtime ctime opened small =>
      cases held.opened.symm.trans opened
      have written := held.change (fun old => { old with
        content := old.content.take offset ++ payload.take length ++ old.content.drop (offset + length)
        synced := false, mtime, ctime }) new fun old holds => changed old.data holds
      exact ⟨small, ⟨written.old.found, written.old.ours, written.old.made⟩, written.named, written.ours, written.made,
        written.holds, Function.update_self _ _ _⟩

theorem Staged.chmod {permissions : Nat} (new : start.names output ≠ some inode)
    (held : Staged start output staged inode data offset world)
    (answers : Answers world ⟨.chmod staged.2 permissions, .ok ()⟩ next)
    (changed : ∀ old, data old → other { old with permissions }) :
    Staged start output staged inode other offset next := by
  cases answers with
  | chmod ctime opened =>
      cases held.opened.symm.trans opened
      exact held.change _ new fun old holds => changed old.data holds

theorem Staged.fsync (new : start.names output ≠ some inode) (held : Staged start output staged inode data offset world)
    (answers : Answers world ⟨.fsync staged.2, .ok ()⟩ next)
    (changed : ∀ old, data old → other { old with synced := true }) :
    Staged start output staged inode other offset next := by
  cases answers with
  | fsync opened =>
      cases held.opened.symm.trans opened
      exact held.change _ new fun old holds => changed old.data holds

/-- A new name for a new file. -/
theorem Standing.create {name : String} {descriptor : Nat} (apart : name ≠ output) (stands : Old start output world)
    (answers : Answers world ⟨.create name, .ok descriptor⟩ next) :
    ∃ inode, start.names output ≠ some inode ∧
      Staged start output (name, descriptor) inode (fun data => data.content = []) 0 next := by
  obtain ⟨bound, known⟩ := stands.found _ List.mem_cons_self
  have spares : (Call.create name).Spares ([start.kept output output].map Entry.name) := by
    refine ⟨fun other member => ?_, id⟩
    rw [List.mem_singleton.mp member, Call.binds, List.mem_singleton]
    exact apart.symm
  have old : Old start output next :=
    stands.answered (fun entry member => List.mem_singleton.mp member ▸ lasting_kept) spares answers
  cases answers with
  | create _ inode mtime ctime unbound free fresh =>
      refine ⟨inode, fun leads => free.1 output (bound.trans leads), old, ?_, ?_, ?_, ?_, ?_⟩
      · exact Function.update_self _ _ _
      · exact List.mem_cons_self
      · exact List.mem_cons_self
      · show (Function.update world.inodes inode _ inode).content = []
        rw [Function.update_self]
      · exact Function.update_self _ _ _

/-- Where the staged file is known, and the old archive is not it. -/
def Known (start : World) (output : String) (staged : String × Nat) (inode : Nat) : Prop :=
  start.names output ≠ some inode ∧ staged.1 ≠ output

theorem throughout_old {α : Type} {program : Program α} (sparing : Sparing [output] program) :
    Safely start output archive (Old start output) program fun _ => Old start output :=
  Sparing.throughout sparing (fun _ member => List.mem_singleton.mp member ▸ lasting_kept)
    fun _ stands => stands.safe List.mem_cons_self

theorem stagedName_apart {token : String} : stagedName output token ≠ output := by
  intro same
  have lengths : (stagedName output token).length = output.length := congrArg String.length same
  simp only [stagedName, toString, String.length_append] at lengths
  have dot : (".").length = 1 := rfl
  omega

theorem lockName_apart : lockName output ≠ output := by
  intro same
  have lengths : (lockName output).length = output.length := congrArg String.length same
  simp only [lockName, toString, String.length_append] at lengths
  have dot : (".").length = 1 := rfl
  omega

/-- The staged file is new and empty. -/
def Opened (start : World) (output : String) (staged : String × Nat) (world : World) : Prop :=
  ∃ inode, Known start output staged inode ∧
    Staged start output staged inode (fun data => data.content = []) 0 world

theorem throughout_create {name : String} (apart : name ≠ output) :
    Safely start output archive (Old start output) (call (.create name))
      (EndsWith (fun descriptor => Opened start output (name, descriptor)) (Old start output)) := by
  apply throughout_call kept_standing fun _ stands => stands.safe List.mem_cons_self
  intro world answer next stands answers
  cases answer with
  | ok descriptor =>
      obtain ⟨inode, new, held⟩ := stands.create apart answers
      exact ⟨inode, ⟨new, apart⟩, held⟩
  | error fault => exact stands.failure answers nofun

theorem throughout_fstat {descriptor : Nat} :
    Safely start output archive (Staged start output staged inode data offset)
      (call (.fstat descriptor)) fun _ => Staged start output staged inode data offset := by
  apply throughout_call kept_staged fun _ held => held.old.safe List.mem_cons_self
  intro world answer next held answers
  exact held.fstat answers

theorem throughout_check {always before : World → Prop} {condition : Prop} {decidable : Decidable condition}
    {message : String} : Throughout (others output) always before (check condition message) fun _ => before :=
  throughout_throwIf (fun _ _ held => held) fun _ _ held => held

theorem throughout_openUniqueStagedOutput {turns : Nat} :
    Safely start output archive (Old start output) (openUniqueStagedOutput output turns)
      (EndsWith (Opened start output) (Old start output)) := by
  induction turns with
  | zero => exact throughout_raise fun _ stands => stands
  | succ turns ih =>
      apply (throughout_old (sparing_quiet rfl id)).bind fun _ _ stands => stands
      intro token
      apply (throughout_create stagedName_apart).attempt_bind
      rintro ((message | fault) | descriptor)
      · exact throughout_raise fun _ stands => stands
      · cases fault with
        | taken => exact ih
        | missing => exact throughout_raise fun _ stands => stands
        | other => exact throughout_raise fun _ stands => stands
      · apply throughout_exists
        intro inode
        apply throughout_fact
        intro known
        have looked : Safely start output archive
            (Staged start output (stagedName output token, descriptor) inode (fun data => data.content = []) 0)
            (call (.fstat descriptor) >>= fun metadata : Stat =>
              check (¬ (metadata.kind = FileKind.regular ∧ metadata.nlink = 1))
                "source archive staging file is not regular")
            (fun _ => Staged start output (stagedName output token, descriptor) inode (fun data => data.content = [])
              0) :=
          throughout_fstat.bind (fun _ _ held => held) fun _ => throughout_check
        apply looked.attempt_bind
        rintro (error | _)
        · have apart : stagedName output token ∉ [output] := fun member =>
            stagedName_apart (List.mem_singleton.mp member)
          have undone : Sparing [output]
              (finally_ (unlinkStagedIfOwned (stagedName output token) descriptor) (call (.close descriptor))) :=
            (sparing_unlinkStagedIfOwned apart).finally_ (sparing_quiet rfl id)
          exact ((throughout_old undone).strengthen fun _ held => held.old).reraise
        · exact throughout_done fun _ held => ⟨inode, known, held⟩

/-! ### Filling the staged file -/

/-- Some of an archive was written. -/
def Written (start : World) (output : String) (staged : String × Nat) (inode : Nat) (world : World) : Prop :=
  ∃ offset, Staged start output staged inode (fun _ => True) offset world

theorem Staged.some (held : Staged start output staged inode data offset world) :
    Written start output staged inode world :=
  ⟨offset, held.weaken fun _ _ => trivial⟩

theorem Written.safe (held : Written start output staged inode world) : Safe start output archive world := by
  obtain ⟨_, held⟩ := held
  exact held.old.safe List.mem_cons_self

/-- What was written so far, and the descriptor at its end. -/
def Filled (start : World) (output : String) (staged : String × Nat) (inode : Nat) (written : Bytes) : World → Prop :=
  Staged start output staged inode (fun data => data.content = written) written.length

theorem Filled.write {view written : Bytes} {length : Nat} (known : Known start output staged inode)
    (held : Filled start output staged inode written world)
    (answers : Answers world ⟨.write staged.2 view, .ok length⟩ next) :
    Filled start output staged inode (written ++ view.take length) next := by
  have appended : ∀ old : Data, old.content = written → old.content.take written.length ++ view.take length ++
      old.content.drop (written.length + length) = written ++ view.take length := by
    rintro old same
    rw [same, List.take_length, List.drop_eq_nil_of_le (Nat.le_add_right _ _), List.append_nil]
  have wrote : length ≤ view.length ∧ Staged start output staged inode
      (fun data => data.content = written ++ view.take length) (written.length + length) next :=
    Staged.write known.1 held answers appended
  have ends : written.length + length = (written ++ view.take length).length := by
    rw [List.length_append, List.length_take, Nat.min_eq_left wrote.1]
  rw [Filled, ← ends]
  exact wrote.2

/-- A loop of writes, from what holds while some of the view is left. -/
theorem throughout_writeAll {env : Environment Answer World} {always : World → Prop} {descriptor turns : Nat}
    {view : Bytes} {failed : World → Prop} (holds : Bytes → World → Prop)
    (stuck : ∀ view world, holds view world → failed world)
    (writes : ∀ view, Throughout env always (holds view) (call (.write descriptor view))
      (EndsWith (fun (length : Nat) => holds (view.drop length)) failed))
    (enough : view.length ≤ turns) :
    Throughout env always (holds view) (writeAll descriptor turns view) (EndsWith (fun _ => holds []) failed) := by
  induction turns generalizing view with
  | zero =>
      rw [List.eq_nil_of_length_eq_zero (Nat.le_zero.mp enough)]
      exact throughout_done fun _ held => held
  | succ turns ih =>
      unfold writeAll
      split
      · next nothing =>
          rw [nothing]
          exact throughout_done fun _ held => held
      · apply (writes view).andThen
        intro (length : Nat)
        by_cases none : length = 0
        · rw [if_pos none]
          exact throughout_raise (stuck _)
        · rw [if_neg none]
          apply ih
          rw [List.length_drop]
          omega

/-- What is written and the view, which is left, make up all of it. -/
def Left (start : World) (output : String) (staged : String × Nat) (inode : Nat) (all view : Bytes)
    (world : World) : Prop :=
  ∃ written, written ++ view = all ∧ Filled start output staged inode written world

theorem Left.write {all view : Bytes} {length : Nat} (known : Known start output staged inode)
    (left : Left start output staged inode all view world)
    (answers : Answers world ⟨.write staged.2 view, .ok length⟩ next) :
    Left start output staged inode all (view.drop length) next := by
  obtain ⟨written, whole, held⟩ := left
  refine ⟨_, ?_, held.write known answers⟩
  rw [List.append_assoc, List.take_append_drop, whole]

theorem kept_left {all view : Bytes} : Kept (others output) (Left start output staged inode all view) := by
  rintro world next moved ⟨written, whole, held⟩
  exact ⟨written, whole, kept_staged world next moved held⟩

theorem Left.some {all view : Bytes} (left : Left start output staged inode all view world) :
    Written start output staged inode world := by
  obtain ⟨_, _, held⟩ := left
  exact Staged.some held

theorem throughout_view (known : Known start output staged inode) {all view : Bytes} :
    Safely start output archive (Left start output staged inode all view)
      (call (.write staged.2 view))
      (EndsWith (fun (length : Nat) => Left start output staged inode all (view.drop length))
        (Written start output staged inode)) := by
  apply throughout_call kept_left fun _ left => left.some.safe
  intro world answer next left answers
  cases answer with
  | error fault =>
      obtain ⟨_, _, held⟩ := left
      exact (Staged.failure held answers nofun).some
  | ok length => exact left.write known answers

theorem throughout_payload (known : Known start output staged inode) {written payload : Bytes} :
    Safely start output archive (Filled start output staged inode written)
      (writeAll staged.2 payload.length payload)
      (EndsWith (fun _ => Filled start output staged inode (written ++ payload))
        (Written start output staged inode)) := by
  have loop : Safely start output archive
      (Left start output staged inode (written ++ payload) payload) (writeAll staged.2 payload.length payload)
      (EndsWith (fun _ => Left start output staged inode (written ++ payload) [])
        (Written start output staged inode)) :=
    throughout_writeAll _ (fun _ _ left => left.some) (fun _ => throughout_view known) (Nat.le_refl _)
  apply (loop.strengthen fun _ held => ⟨written, rfl, held⟩).weaken
  rintro (error | _) world ended
  · exact ended
  · obtain ⟨all, same, held⟩ := ended
    rw [List.append_nil] at same
    exact same ▸ held

theorem throughout_descriptorWrite (known : Known start output staged inode) {written payload : Bytes} :
    Safely start output archive (Filled start output staged inode written)
      (descriptorWrite staged.2 written payload)
      (EndsWith (fun all world => (all = written ++ payload ∧ payload.length ≤ maxSourceArchiveBytes - written.length) ∧
        Filled start output staged inode all world) (Written start output staged inode)) := by
  unfold descriptorWrite check Interaction.throwIf
  split
  · exact throughout_raise fun _ held => held.some
  · next fits =>
      apply (throughout_payload known).andThen
      intro _
      exact throughout_done fun _ held => ⟨⟨rfl, Nat.le_of_not_gt fits⟩, held⟩

theorem throughout_chunks (known : Known start output staged inode) {chunks : List Bytes} {written : Bytes}
    (fits : written.length ≤ maxSourceArchiveBytes) :
    Safely start output archive (Filled start output staged inode written)
      (chunks.foldlM (descriptorWrite staged.2) written)
      (EndsWith (fun all world => (all = written ++ chunks.flatten ∧ all.length ≤ maxSourceArchiveBytes) ∧
        Filled start output staged inode all world) (Written start output staged inode)) := by
  induction chunks generalizing written with
  | nil =>
      rw [List.flatten_nil, List.append_nil]
      exact throughout_done fun _ held => ⟨⟨rfl, fits⟩, held⟩
  | cons chunk chunks ih =>
      rw [List.foldlM_cons, List.flatten_cons, ← List.append_assoc]
      apply (throughout_descriptorWrite known).andThen
      intro all
      apply throughout_fact
      rintro ⟨rfl, small⟩
      apply ih
      rw [List.length_append]
      omega

theorem kept_written : Kept (others output) (Written start output staged inode) := by
  rintro world next moved ⟨offset, held⟩
  exact ⟨offset, kept_staged world next moved held⟩

theorem Written.write {view : Bytes} {length : Nat} (known : Known start output staged inode)
    (held : Written start output staged inode world) (answers : Answers world ⟨.write staged.2 view, .ok length⟩ next) :
    Written start output staged inode next := by
  obtain ⟨offset, held⟩ := held
  have anything : ∀ old : Data, True → True := fun _ => id
  have wrote : length ≤ view.length ∧ Staged start output staged inode (fun _ => True) (offset + length) next :=
    Staged.write known.1 held answers anything
  exact ⟨_, wrote.2⟩

/-- What is written behind an error goes to the staged file, too. -/
theorem throughout_trailer (known : Known start output staged inode) {trailer : List Bytes} :
    Safely start output archive (Written start output staged inode)
      (trailer.forM fun chunk => writeAll staged.2 chunk.length chunk)
      (EndsWith (fun _ => Written start output staged inode) (Written start output staged inode)) := by
  have writes : ∀ view, Safely start output archive (Written start output staged inode)
      (call (.write staged.2 view))
      (EndsWith (fun _ => Written start output staged inode) (Written start output staged inode)) := by
    intro view
    apply throughout_call kept_written fun _ held => held.safe
    rintro world (fault | length) next held answers
    · obtain ⟨offset, held⟩ := held
      exact (held.failure answers nofun).some
    · exact held.write known answers
  induction trailer with
  | nil => exact throughout_done fun _ held => held
  | cons chunk trailer ih =>
      apply (throughout_writeAll (fun _ => Written start output staged inode) (fun _ _ held => held) writes
        (Nat.le_refl _)).andThen
      intro _
      exact ih

theorem throughout_writeArchive (known : Known start output staged inode) :
    Safely start output archive (Filled start output staged inode [])
      (writeArchive staged.2 archive)
      (EndsWith (fun all world => (all = archive.bytes ∧ archive.Finished) ∧ Filled start output staged inode all world)
        (Written start output staged inode)) := by
  have tree : Safely start output archive (Filled start output staged inode [])
      (archive.chunks.foldlM (descriptorWrite staged.2) [] >>= fun written =>
        whenSome archive.error .raise >>= fun _ => pure written)
      (EndsWith (fun all world => (all = archive.bytes ∧ archive.Finished) ∧ Filled start output staged inode all world)
        (Written start output staged inode)) := by
    apply (throughout_chunks known (Nat.zero_le _)).andThen
    intro all
    apply throughout_fact
    rintro ⟨rfl, small⟩
    cases failed : archive.error with
    | some error => exact throughout_raise fun _ held => Staged.some held
    | none => exact throughout_done fun _ held => ⟨⟨rfl, failed, small⟩, held⟩
  apply tree.attempt_bind
  rintro (error | all)
  · apply (throughout_trailer known).andThen
    intro _
    exact throughout_raise fun _ held => held
  · exact throughout_done fun _ held => held

/-- The old archive is in its place, and the new one is ready under the staged name. -/
abbrev Ready (start : World) (output : String) (archive : Archive) (staged : String × Nat) (inode : Nat) :
    World → Prop :=
  Standing output [start.kept output output, archive.made staged.1 inode] [inode]

theorem Staged.ready (held : Staged start output staged inode (fun data => data = archive.data) offset world) :
    Ready start output archive staged inode world := by
  refine ⟨?_, ?_, List.cons_subset.mpr ⟨held.made, List.nil_subset _⟩⟩
  · rintro entry member
    rcases List.mem_cons.mp member with rfl | member
    · exact held.old.found _ List.mem_cons_self
    · rw [List.mem_singleton.mp member]
      refine ⟨held.named, ?_⟩
      rintro _ ⟨⟩
      exact held.holds
  · rintro entry member
    rcases List.mem_cons.mp member with rfl | member
    · exact Or.inl rfl
    · rw [List.mem_singleton.mp member]
      exact Or.inr held.ours

theorem throughout_verifyCompressedArchiveSize {descriptor : Nat} :
    Safely start output archive (Staged start output staged inode data offset)
      (verifyCompressedArchiveSize descriptor) fun _ => Staged start output staged inode data offset :=
  throughout_fstat.bind (fun _ _ held => held) fun _ => throughout_check

theorem throughout_chmod {permissions : Nat} (known : Known start output staged inode)
    (changed : ∀ old, data old → other { old with permissions }) :
    Safely start output archive (Staged start output staged inode data offset)
      (call (.chmod staged.2 permissions))
      (EndsWith (fun _ => Staged start output staged inode other offset) (Old start output)) := by
  apply throughout_call kept_staged fun _ held => held.old.safe List.mem_cons_self
  rintro world (fault | _) next held answers
  · exact (held.failure answers nofun).old
  · exact held.chmod known.1 answers changed

theorem throughout_fsync (known : Known start output staged inode)
    (changed : ∀ old, data old → other { old with synced := true }) :
    Safely start output archive (Staged start output staged inode data offset)
      (call (.fsync staged.2))
      (EndsWith (fun _ => Staged start output staged inode other offset) (Old start output)) := by
  apply throughout_call kept_staged fun _ held => held.old.safe List.mem_cons_self
  rintro world (fault | _) next held answers
  · exact (held.failure answers nofun).old
  · exact held.fsync known.1 answers changed

theorem throughout_fillStaged (known : Known start output staged inode) :
    Safely start output archive
      (Staged start output staged inode (fun data => data.content = []) 0) (fillStaged staged.2 archive)
      (EndsWith (fun _ world => archive.Finished ∧ Ready start output archive staged inode world)
        (Old start output)) := by
  apply (throughout_writeArchive known).bind
  · rintro error world ⟨offset, held⟩
    exact held.old
  intro all
  apply throughout_fact
  rintro ⟨rfl, finished⟩
  apply throughout_verifyCompressedArchiveSize.bind fun _ _ held => held.old
  intro _
  apply throughout_fstat.bind fun _ _ held => held.old
  intro metadata
  apply throughout_check.bind fun _ _ held => held.old
  intro _
  have mode : ∀ old : Data, old.content = archive.bytes →
      ({ old with permissions := 0o644 } : Data) = ⟨archive.bytes, 0o644, old.synced⟩ := by
    intro old same
    rw [same]
  have synced : ∀ old : Data, old = ⟨archive.bytes, 0o644, old.synced⟩ →
      { old with synced := true } = archive.data := by
    intro old same
    rw [same, Archive.data]
  have chmod : Safely start output archive
      (Filled start output staged inode archive.bytes) (call (.chmod staged.2 0o644))
      (EndsWith (fun _ => Staged start output staged inode (fun data => data = ⟨archive.bytes, 0o644, data.synced⟩)
        archive.bytes.length) (Old start output)) :=
    throughout_chmod known mode
  have fsync : Safely start output archive
      (Staged start output staged inode (fun data => data = ⟨archive.bytes, 0o644, data.synced⟩) archive.bytes.length)
      (call (.fsync staged.2))
      (EndsWith (fun _ => Staged start output staged inode (fun data => data = archive.data) archive.bytes.length)
        (Old start output)) :=
    throughout_fsync known synced
  apply chmod.andThen
  intro _
  apply fsync.andThen
  intro _
  exact throughout_done fun _ held => ⟨finished, held.ready⟩

/-! ### The link to the old archive -/

/-- The old archive under the name of the backup. -/
def World.saved (start : World) (output : String) (backup : Option Backup) : List Entry :=
  backup.toList.map fun backup => start.kept output backup.name

/-- The backup has a name of its own. -/
def Apart (output : String) (staged : String × Nat) (backup : Option Backup) : Prop :=
  ∀ link, backup = some link → link.name ≠ output ∧ link.name ≠ staged.1

/-- The old archive is in its place and under the name of the backup, and the new one is ready. -/
abbrev Backed (start : World) (output : String) (archive : Archive) (staged : String × Nat) (inode : Nat)
    (backup : Option Backup) : World → Prop :=
  Standing output (start.kept output output :: archive.made staged.1 inode :: start.saved output backup) [inode]

theorem lasting_saved {backup : Option Backup} : ∀ entry ∈ start.saved output backup, entry.Lasting := by
  intro entry member
  obtain ⟨link, _, rfl⟩ := List.mem_map.mp member
  exact lasting_kept

theorem lasting_backed (backup : Option Backup) :
    ∀ entry ∈ start.kept output output :: archive.made staged.1 inode :: start.saved output backup, entry.Lasting :=
  List.forall_mem_cons.mpr ⟨lasting_kept, List.forall_mem_cons.mpr ⟨lasting_made, lasting_saved⟩⟩

theorem Standing.old {entries : List Entry} {made : List Nat} (stands : Standing output entries made world)
    (member : start.kept output output ∈ entries) : Old start output world :=
  stands.part (List.cons_subset.mpr ⟨member, List.nil_subset _⟩) (List.nil_subset _)

theorem throughout_backed {α : Type} {program : Program α} (backup : Option Backup)
    (sparing : ∀ names, Sparing names program) :
    Safely start output archive (Backed start output archive staged inode backup) program
      fun _ => Backed start output archive staged inode backup :=
  (sparing _).throughout (lasting_backed backup) fun _ stands => stands.safe List.mem_cons_self

theorem Answers.linked {name new : String} (answers : Answers world ⟨.link name new, .ok ()⟩ next) :
    world.names new = none ∧ new ∈ next.ownNames ∧
      ∃ inode, world.names name = some inode ∧ next.names new = some inode := by
  cases answers with
  | link ctime bound file unbound => exact ⟨unbound, List.mem_cons_self, _, bound, World.bind_self⟩

/-- The old archive gets a second name. -/
theorem Standing.link {name : String} {descriptor : Nat} (ready : Ready start output archive staged inode world)
    (answers : Answers world ⟨.link output name, .ok ()⟩ next) :
    Apart output staged (some ⟨name, descriptor⟩) ∧
      Backed start output archive staged inode (some ⟨name, descriptor⟩) next := by
  obtain ⟨unbound, own, old, bound, linked⟩ := answers.linked
  have found : world.names output = start.names output := (ready.found _ List.mem_cons_self).1
  have named : world.names staged.1 = some inode := (ready.found _ (List.mem_cons_of_mem _ List.mem_cons_self)).1
  have output_apart : name ≠ output := by
    rintro rfl
    exact nomatch unbound.symm.trans bound
  have staged_apart : name ≠ staged.1 := by
    rintro rfl
    exact nomatch unbound.symm.trans named
  have spares : (Call.link output name).Spares [output, staged.1] := by
    refine ⟨?_, id⟩
    simp only [Call.binds, List.mem_cons, List.not_mem_nil, or_false, forall_eq_or_imp, forall_eq]
    exact ⟨output_apart.symm, staged_apart.symm⟩
  have stays : Ready start output archive staged inode next := by
    apply ready.answered (lasting_backed none) _ answers
    exact spares
  refine ⟨?_, ?_, ?_, stays.made⟩
  · rintro _ ⟨⟩
    exact ⟨output_apart, staged_apart⟩
  · apply List.forall_mem_append.mpr ⟨stays.found, List.forall_mem_singleton.mpr ⟨?_, ?_⟩⟩
    · exact linked.trans (bound.symm.trans found)
    · exact (stays.found _ List.mem_cons_self).2
  · exact List.forall_mem_append.mpr ⟨stays.ours, List.forall_mem_singleton.mpr (Or.inr own)⟩

theorem throughout_openBackup {name : String} {descriptor : Nat}
    (apart : Apart output staged (some ⟨name, descriptor⟩)) :
    Safely start output archive
      (Backed start output archive staged inode (some ⟨name, descriptor⟩)) (openBackup output name)
      (EndsWith (fun backup world => Apart output staged (some backup) ∧
        Backed start output archive staged inode (some backup) world) (Old start output)) := by
  have outside : name ∉ [output] := fun member => (apart _ rfl).1 (List.mem_singleton.mp member)
  apply (throughout_backed (some ⟨name, descriptor⟩) fun _ => sparing_quiet rfl id).attempt_bind
  rintro (error | (opened : Nat))
  · have undone : Sparing [output] (call (.unlink name)).attempt := (sparing_unlink outside).attempt
    exact ((throughout_old undone).strengthen fun _ backed => backed.old List.mem_cons_self).reraise
  · have checks : ∀ names, Sparing names (descriptorNameIdentityMatches output opened >>= fun same =>
        check (same = false) "existing source archive changed before publish" >>= fun _ =>
          descriptorNameIdentityMatches name opened >>= fun same =>
            check (same = false) "existing source archive changed before publish") := by
      intro names
      apply sparing_compareWithName.bind
      intro _
      apply sparing_check.bind
      intro _
      exact sparing_compareWithName.bind fun _ => sparing_check
    apply (throughout_backed (some ⟨name, descriptor⟩) checks).attempt_bind
    rintro (error | _)
    · apply ((throughout_old (sparing_unlinkBackupIfOwned outside)).strengthen fun _ backed =>
        backed.old List.mem_cons_self).bind fun _ _ old => old
      intro _
      exact (throughout_old (sparing_quiet rfl id)).reraise
    · refine throughout_done fun _ backed => ⟨?_, backed⟩
      rintro _ ⟨⟩
      exact apart ⟨name, descriptor⟩ rfl

theorem throughout_linkBackup {turns : Nat} :
    Safely start output archive (Ready start output archive staged inode)
      (linkBackup output turns)
      (EndsWith (fun backup world => Apart output staged (some backup) ∧
        Backed start output archive staged inode (some backup) world) (Old start output)) := by
  induction turns with
  | zero => exact throughout_raise fun _ ready => ready.old List.mem_cons_self
  | succ turns ih =>
      apply (throughout_backed none fun _ => sparing_quiet rfl id).bind fun _ _ ready => ready.old List.mem_cons_self
      intro token
      have links : Safely start output archive (Ready start output archive staged inode)
          (call (.link output (backupName output token)))
          (EndsWith (fun _ world => Apart output staged (some ⟨backupName output token, 0⟩) ∧
              Backed start output archive staged inode (some ⟨backupName output token, 0⟩) world)
            (Ready start output archive staged inode)) := by
        apply throughout_call kept_standing fun _ ready => ready.safe List.mem_cons_self
        rintro world (fault | _) next ready answers
        · exact ready.failure answers nofun
        · exact ready.link answers
      apply links.attempt_bind
      rintro ((message | fault) | _)
      · exact throughout_raise fun _ ready => ready.old List.mem_cons_self
      · cases fault with
        | taken => exact ih
        | missing => exact throughout_raise fun _ ready => ready.old List.mem_cons_self
        | other => exact throughout_raise fun _ ready => ready.old List.mem_cons_self
      · apply throughout_fact
        intro apart
        exact throughout_openBackup apart

theorem throughout_createExistingOutputBackup :
    Safely start output archive (Ready start output archive staged inode)
      (createExistingOutputBackup output)
      (EndsWith (fun backup world => Apart output staged backup ∧
        Backed start output archive staged inode backup world) (Old start output)) := by
  have nothing : Apart output staged none := nofun
  apply (throughout_backed none fun _ => sparing_quiet rfl id).attempt_bind
  rintro ((message | fault) | (metadata : Stat))
  · exact throughout_raise fun _ ready => ready.old List.mem_cons_self
  · cases fault with
    | missing => exact throughout_done fun _ ready => ⟨nothing, ready⟩
    | taken => exact throughout_raise fun _ ready => ready.old List.mem_cons_self
    | other => exact throughout_raise fun _ ready => ready.old List.mem_cons_self
  · show Throughout _ _ _ (if metadata.kind ≠ .regular then _ else _) _
    split
    · exact throughout_done fun _ ready => ⟨nothing, ready⟩
    · apply throughout_linkBackup.andThen
      intro backup
      exact throughout_done fun _ backed => backed

/-! ### The replacement -/

/-- The new archive is in its place, and the old one under the name of the backup. -/
abbrev Replaced (start : World) (output : String) (archive : Archive) (inode : Nat) (backup : Option Backup) :
    World → Prop :=
  Standing output (archive.made output inode :: start.saved output backup) [inode]

/-- The new archive is in its place. -/
def New (output : String) (archive : Archive) (world : World) : Prop :=
  archive.Finished ∧ ∃ inode, Standing output [archive.made output inode] [inode] world

/-- How the output name may be left. -/
def Ended (start : World) (output : String) (archive : Archive) (world : World) : Prop :=
  Old start output world ∨ New output archive world

variable {backup : Option Backup}

theorem Standing.new (finished : archive.Finished) (stands : Replaced start output archive inode backup world) :
    New output archive world :=
  ⟨finished, inode, stands.part (List.cons_subset_cons _ (List.nil_subset _)) (List.Subset.refl _)⟩

theorem New.published (new : New output archive world) : archive.Published output world := by
  obtain ⟨finished, inode, stands⟩ := new
  exact stands.published finished List.mem_cons_self List.mem_cons_self

/-- The staged name becomes the output name. -/
theorem Standing.replace (known : Known start output staged inode) (apart : Apart output staged backup)
    (backed : Backed start output archive staged inode backup world)
    (answers : Answers world ⟨.replace staged.1 output, .ok ()⟩ next) :
    Replaced start output archive inode backup next := by
  have found : world.names output = start.names output := (backed.found _ List.mem_cons_self).1
  obtain ⟨named, whole⟩ := backed.found (archive.made staged.1 inode) (List.mem_cons_of_mem _ List.mem_cons_self)
  have spares : (Call.replace staged.1 output).Spares ((start.saved output backup).map Entry.name) := by
    refine ⟨?_, id⟩
    rintro name member bound
    obtain ⟨_, saved, rfl⟩ := List.mem_map.mp member
    obtain ⟨link, present, rfl⟩ := List.mem_map.mp saved
    obtain ⟨output_apart, staged_apart⟩ := apart link (Option.mem_toList.mp present)
    rcases List.mem_cons.mp bound with same | bound
    · exact staged_apart same
    · exact output_apart (List.mem_singleton.mp bound)
  have saved : Standing output (start.saved output backup) [inode] next :=
    (backed.part (List.subset_cons_of_subset _ (List.subset_cons_self _ _)) (List.Subset.refl _)).answered lasting_saved
      spares answers
  cases answers with
  | replace bound other file =>
      cases named.symm.trans bound
      refine ⟨List.forall_mem_cons.mpr ⟨⟨World.bind_self, ?_⟩, saved.found⟩,
        List.forall_mem_cons.mpr ⟨Or.inl rfl, saved.ours⟩, saved.made⟩
      rintro _ ⟨⟩
      simp only [World.bind_inodes, World.drop_data]
      exact whole inode rfl
  | replaceSame bound same =>
      cases named.symm.trans bound
      exact absurd (found.symm.trans same) known.1

theorem throughout_replaceOutput {parent : Nat} (known : Known start output staged inode)
    (apart : Apart output staged backup) :
    Safely start output archive (Backed start output archive staged inode backup)
      (replaceOutput output parent staged.1 backup)
      (EndsWith (fun _ => Replaced start output archive inode backup) (Old start output)) := by
  have checks : ∀ names, Sparing names (whenSome backup fun backup => call (.fsync parent) >>= fun _ =>
      descriptorNameIdentityMatches output backup.descriptor >>= fun same =>
        check (same = false) "existing source archive changed before publish") := by
    intro names
    apply sparing_whenSome
    intro link _
    apply (sparing_quiet rfl id).bind
    intro _
    exact sparing_compareWithName.bind fun _ => sparing_check
  apply (throughout_backed backup checks).bind fun _ _ backed => backed.old List.mem_cons_self
  intro _
  apply throughout_call kept_standing fun _ backed => backed.safe List.mem_cons_self
  rintro world (fault | _) next backed answers
  · exact (backed.failure answers nofun).old List.mem_cons_self
  · exact backed.replace known apart answers

theorem throughout_replaced {α : Type} {program : Program α} (finished : archive.Finished)
    (sparing : ∀ names, Sparing names program) :
    Safely start output archive (Replaced start output archive inode backup) program
      fun _ => Replaced start output archive inode backup :=
  (sparing _).throughout (List.forall_mem_cons.mpr ⟨lasting_made, lasting_saved⟩)
    fun _ stands => Or.inr (stands.new finished).published

/-- The name of the backup becomes the output name again. -/
theorem Standing.restore {link : Backup} (new : start.names output ≠ some inode)
    (replaced : Replaced start output archive inode (some link) world)
    (answers : Answers world ⟨.replace link.name output, .ok ()⟩ next) : Old start output next := by
  have leads : world.names output = some inode := (replaced.found _ List.mem_cons_self).1
  obtain ⟨named, known⟩ := replaced.found (start.kept output link.name) (List.mem_cons_of_mem _ List.mem_cons_self)
  cases answers with
  | replace bound other file =>
      refine ⟨List.forall_mem_singleton.mpr ⟨?_, ?_⟩, List.forall_mem_singleton.mpr (Or.inl rfl), List.nil_subset _⟩
      · exact World.bind_self.trans (bound.symm.trans named)
      · intro old leads
        simp only [World.bind_inodes, World.drop_data]
        exact known old leads
  | replaceSame bound same =>
      cases leads.symm.trans same
      exact absurd (named.symm.trans bound) new

/-! ### The way back, and the end -/

theorem New.safe (new : New output archive world) : Safe start output archive world :=
  Or.inr new.published

theorem throughout_new {α : Type} {program : Program α} (sparing : Sparing [output] program) :
    Safely start output archive (New output archive) program fun _ => New output archive := by
  apply throughout_fact
  intro finished
  apply throughout_exists
  intro inode
  have stays : Safely start output archive
      (Standing output [archive.made output inode] [inode]) program
      fun _ => Standing output [archive.made output inode] [inode] :=
    Sparing.throughout sparing (List.forall_mem_singleton.mpr lasting_made)
      fun _ stands => New.safe ⟨finished, inode, stands⟩
  exact stays.weaken fun _ _ stands => ⟨finished, inode, stands⟩

theorem throughout_ended {α : Type} {program : Program α} (sparing : Sparing [output] program) :
    Safely start output archive (Ended start output archive) program
      fun _ => Ended start output archive := by
  apply Throughout.or
  · exact (throughout_old sparing).weaken fun _ _ old => Or.inl old
  · exact (throughout_new sparing).weaken fun _ _ new => Or.inr new

/-- What was not replaced, or was published, is not rolled back. -/
theorem throughout_rollback_idle {parent : Nat} {held : Held} {always before : World → Prop}
    (idle : held.replaced = false ∨ held.published = true) :
    Throughout (others output) always before (rollback output parent held) fun _ => before := by
  have skipped : ¬ (held.replaced = true ∧ held.published = false ∧ held.backupNamed = true) := by
    rintro ⟨replaced, published, _⟩
    rcases idle with same | same
    · exact nomatch replaced.symm.trans same
    · exact nomatch published.symm.trans same
  unfold rollback
  split
  · rw [if_neg skipped]
    exact throughout_done fun _ holds => holds
  · exact throughout_done fun _ holds => holds

theorem throughout_rollback {parent : Nat} {held : Held} (known : Known start output staged inode)
    (finished : archive.Finished) (same : held.backup = backup) :
    Safely start output archive (Replaced start output archive inode backup)
      (rollback output parent held) fun _ => Ended start output archive := by
  subst same
  unfold rollback
  split
  · next link _ present _ =>
      split
      · rw [present]
        apply (throughout_replaced finished fun _ => sparing_compareWithName).bind fun _ _ replaced =>
          Or.inr (replaced.new finished)
        rintro (_ | _)
        · exact throughout_done fun _ replaced => Or.inr (replaced.new finished)
        · have restores : Safely start output archive
              (Replaced start output archive inode (some link)) (call (.replace link.name output))
              (EndsWith (fun _ => Old start output) (Replaced start output archive inode (some link))) := by
            apply throughout_call kept_standing fun _ replaced => Or.inr (replaced.new finished).published
            rintro world (fault | _) next replaced answers
            · exact replaced.failure answers nofun
            · exact replaced.restore known.1 answers
          apply restores.attempt_bind
          rintro (error | _)
          · exact throughout_done fun _ replaced => Or.inr (replaced.new finished)
          · have checks : Sparing [output] (descriptorNameIdentityMatches output link.descriptor >>= fun same =>
                check (same = false) "source archive rollback identity changed" >>= fun _ =>
                  (call (.fsync parent)).attempt >>= fun _ => pure ()) := by
              apply sparing_compareWithName.bind
              intro _
              apply sparing_check.bind
              intro _
              exact (Sparing.attempt (sparing_quiet rfl id)).bind fun _ => sparing_pure
            exact (throughout_old (checks.attempt.bind fun _ => sparing_pure)).weaken fun _ _ old => Or.inl old
      · exact throughout_done fun _ replaced => Or.inr (replaced.new finished)
  · exact throughout_done fun _ replaced => Or.inr (replaced.new finished)

/-- A part of the block, what goes on behind it, and what is done where it raises. -/
theorem throughout_guarded {α : Type} {program : Program α} {next : α → Program Unit} {parent : Nat} {held : Held}
    {before raised : World → Prop} {returned : α → World → Prop}
    (first : Safely start output archive before program (EndsWith returned raised))
    (rest : ∀ a, Safely start output archive (returned a) (next a)
      (EndsWith (fun _ => New output archive) (Ended start output archive)))
    (undone : Safely start output archive raised (rollback output parent held)
      fun _ => Ended start output archive)
    (staged : ∀ staged, held.staged = some staged → staged.1 ≠ output)
    (apart : ∀ link, held.backup = some link → link.name ≠ output) :
    Safely start output archive before (guarded output parent held program next)
      (EndsWith (fun _ => New output archive) (Ended start output archive)) := by
  apply first.attempt_bind
  rintro (error | a)
  · apply undone.bind fun _ _ ended => ended
    intro backupNamed
    have cleans : Sparing [output] (cleanup parent { held with backupNamed }) :=
      sparing_cleanup (fun name found member => staged name found (List.mem_singleton.mp member))
        fun link found member => apart link found (List.mem_singleton.mp member)
    exact (throughout_ended cleans).reraise
  · exact rest a

theorem throughout_stageOutput {lock : Nat} :
    Safely start output archive (Old start output) (stageOutput output lock)
      (EndsWith (fun found => Opened start output found.2) (Old start output)) := by
  apply (throughout_old (sparing_quiet rfl id)).endsWith.andThen
  intro fingerprint
  apply throughout_openUniqueStagedOutput.andThen
  intro staged
  exact throughout_done fun _ opened => opened

theorem throughout_prepareReplacement {identity lock : Nat} {fingerprint : Stat} :
    Safely start output archive (Ready start output archive staged inode)
      (prepareReplacement output identity lock fingerprint staged)
      (EndsWith (fun backup world => Apart output staged backup ∧
        Backed start output archive staged inode backup world) (Old start output)) := by
  apply (throughout_backed none fun _ => sparing_verifyOutputLock).bind fun _ _ ready => ready.old List.mem_cons_self
  intro _
  apply (throughout_backed none fun _ => sparing_compareWithName.bind fun _ => sparing_check).bind
    fun _ _ ready => ready.old List.mem_cons_self
  intro _
  apply (throughout_backed none fun _ => sparing_verifyCompressedArchiveSize).bind
    fun _ _ ready => ready.old List.mem_cons_self
  intro _
  apply (throughout_backed none fun _ => sparing_verifyDirectoryPath).bind fun _ _ ready => ready.old List.mem_cons_self
  intro _
  exact throughout_createExistingOutputBackup

theorem throughout_fillAndPrepare {identity lock : Nat} {fingerprint : Stat} (known : Known start output staged inode) :
    Safely start output archive
      (Staged start output staged inode (fun data => data.content = []) 0)
      (fillStaged staged.2 archive >>= fun written =>
        prepareReplacement output identity lock fingerprint staged >>= fun backup => pure (written, backup))
      (EndsWith (fun found world => (archive.Finished ∧ Apart output staged found.2) ∧
        Backed start output archive staged inode found.2 world) (Old start output)) := by
  apply (throughout_fillStaged known).andThen
  intro written
  apply throughout_fact
  intro finished
  apply throughout_prepareReplacement.andThen
  intro backup
  exact throughout_done fun _ backed => ⟨⟨finished, backed.1⟩, backed.2⟩

/-- What is left to do with a published archive. -/
theorem throughout_finish {parent : Nat} {held : Held} (apart : ∀ link, held.backup = some link → link.name ≠ output)
    (staged : ∀ staged, held.staged = some staged → staged.1 ≠ output) (published : held.published = true) :
    Safely start output archive (New output archive)
      (guarded output parent held (dropBackup held.backup) fun _ => do
        syncDropped parent held.backup
        cleanup parent { held with backupNamed := false })
      (EndsWith (fun _ => New output archive) (Ended start output archive)) := by
  have drops : Sparing [output] (dropBackup held.backup) :=
    sparing_whenSome fun link found =>
      sparing_unlinkBackupIfOwned fun member => apart link found (List.mem_singleton.mp member)
  have syncs : Sparing [output] (syncDropped parent held.backup) :=
    sparing_whenSome fun _ _ => (Sparing.attempt (sparing_quiet rfl id)).bind fun _ => sparing_pure
  have cleans : Sparing [output] (cleanup parent { held with backupNamed := false }) :=
    sparing_cleanup (fun name found member => staged name found (List.mem_singleton.mp member))
      fun link found member => apart link found (List.mem_singleton.mp member)
  refine throughout_guarded (throughout_new drops).endsWith ?_ ?_ staged apart
  · intro _
    apply (throughout_new syncs).bind fun _ _ new => Or.inr new
    intro _
    apply (throughout_new cleans).weaken
    rintro (error | _) world new
    · exact Or.inr new
    · exact new
  · exact (throughout_rollback_idle (Or.inr published)).weaken fun _ _ new => Or.inr new

/-- The whole script, from the old archive. -/
theorem throughout_writeSourceArchive :
    Safely start output archive (Old start output) (writeSourceArchive output archive)
      (EndsWith (fun _ => New output archive) (Ended start output archive)) := by
  have unnamed : lockName output ∉ [output] := fun member => lockName_apart (List.mem_singleton.mp member)
  have idle : ∀ parent held, held.replaced = false → Safely start output archive
      (Old start output) (rollback output parent held) fun _ => Ended start output archive :=
    fun _ _ same => (throughout_rollback_idle (Or.inl same)).weaken fun _ _ old => Or.inl old
  apply (throughout_old sparing_check).bind fun _ _ old => Or.inl old
  intro _
  apply (throughout_old (Sparing.orValueError (sparing_quiet rfl id))).bind fun _ _ old => Or.inl old
  intro (parent : Nat)
  refine throughout_guarded (throughout_old (sparing_lockOutput unnamed)).endsWith ?_ (idle _ _ rfl) nofun nofun
  rintro ⟨identity, lock⟩
  refine throughout_guarded throughout_stageOutput ?_ (idle _ _ rfl) nofun nofun
  rintro ⟨fingerprint, staged⟩
  apply throughout_exists
  intro inode
  apply throughout_fact
  intro known
  have stagedApart : ∀ other, some staged = some other → other.1 ≠ output := by
    rintro _ ⟨⟩
    exact known.2
  refine throughout_guarded (throughout_fillAndPrepare known) ?_ (idle _ _ rfl) stagedApart nofun
  rintro ⟨written, backup⟩
  apply throughout_fact
  rintro ⟨finished, apart⟩
  have backupApart : ∀ link, backup = some link → link.name ≠ output := fun link found => (apart link found).1
  refine throughout_guarded (throughout_replaceOutput known apart) ?_ (idle _ _ rfl) stagedApart backupApart
  intro _
  refine throughout_guarded (throughout_replaced finished fun _ => sparing_confirmOutput).endsWith ?_
    (throughout_rollback known finished rfl) stagedApart backupApart
  intro _
  exact (throughout_finish backupApart stagedApart rfl).strengthen fun _ replaced => replaced.new finished

end Staged

/-! ### A directory that serves -/

/-- All numbers in use are below the next one. -/
structure Below (world : World) (next : Nat) : Prop where
  names : ∀ name inode, world.names name = some inode → inode < next
  files : ∀ descriptor file, world.files descriptor = some file → descriptor < next ∧ file.inode < next
  own : ∀ inode ∈ world.ownInodes, inode < next
  path : world.path < next

section Below

variable {world : World} {next : Nat}

theorem Below.free (below : Below world next) : world.Free next :=
  ⟨fun name leads => (below.names name next leads).false,
    fun descriptor file opened same => (same ▸ (below.files descriptor file opened).2).false,
    fun own => (below.own next own).false, below.path.ne'⟩

theorem Below.fresh (below : Below world next) : world.files next = none :=
  Option.eq_none_iff_forall_not_mem.mpr fun file opened => (below.files next file opened).1.false

theorem Below.more (below : Below world next) : Below world (next + 1) :=
  ⟨fun name inode leads => (below.names name inode leads).trans (Nat.lt_succ_self _),
    fun descriptor file opened => (below.files descriptor file opened).imp (·.trans (Nat.lt_succ_self _))
      (·.trans (Nat.lt_succ_self _)),
    fun inode own => (below.own inode own).trans (Nat.lt_succ_self _), below.path.trans (Nat.lt_succ_self _)⟩

theorem update_leads {κ β : Type} [DecidableEq κ] {f : κ → Option β} {key other : κ} {value : Option β} {found : β}
    (leads : Function.update f key value other = some found) :
    other = key ∧ value = some found ∨ f other = some found := by
  by_cases same : other = key
  · subst same
    rw [Function.update_self] at leads
    exact Or.inl ⟨rfl, leads⟩
  · rw [Function.update_of_ne same] at leads
    exact Or.inr leads

theorem Below.hold (below : Below world next) {descriptor : Nat} {file : Option OpenFile} (here : descriptor < next)
    (bound : ∀ opened, file = some opened → opened.inode < next) : Below (world.hold descriptor file) next := by
  refine ⟨below.names, ?_, below.own, below.path⟩
  intro other opened leads
  rcases update_leads leads with ⟨rfl, same⟩ | leads
  · exact ⟨here, bound opened same⟩
  · exact below.files other opened leads

theorem Below.bind (below : Below world next) {name : String} {inode : Option Nat}
    (bound : ∀ number, inode = some number → number < next) : Below (world.bind name inode) next := by
  refine ⟨?_, below.files, below.own, below.path⟩
  intro other number leads
  rcases update_leads leads with ⟨rfl, same⟩ | leads
  · exact bound number same
  · exact below.names other number leads

theorem Below.drop (below : Below world next) {inode : Option Nat} : Below (world.drop inode) next := by
  cases inode with
  | none => exact below
  | some number => exact ⟨below.names, below.files, below.own, below.path⟩

theorem Below.make (below : Below world next) {name : String} : Below (world.make name next next 0 0) (next + 1) := by
  have bound : Below (world.bind name (some next)) (next + 1) := by
    apply below.more.bind
    rintro _ ⟨⟩
    exact Nat.lt_succ_self _
  have held : Below ((world.bind name (some next)).hold next (some ⟨next, 0⟩)) (next + 1) := by
    apply bound.hold (Nat.lt_succ_self _)
    rintro _ ⟨⟩
    exact Nat.lt_succ_self _
  exact ⟨held.names, held.files, held.own, held.path⟩

/-- What the server answers is an answer, and leaves all numbers in use below the next one. -/
def Served (world : World) (call : Call) (served : Answer call × World × Nat) : Prop :=
  Below served.2.1 served.2.2 ∧ Answers world ⟨call, served.1⟩ served.2.1

theorem served_withFile {call : Call} {descriptor : Nat} {body : OpenFile → Answer call × World × Nat}
    (below : Below world next) (uses : call.descriptor = some descriptor)
    (each : ∀ file, world.files descriptor = some file → Served world call (body file)) :
    Served world call (withFile world next descriptor body) := by
  unfold withFile
  split
  · next file opened => exact each file opened
  · next closed => exact ⟨below, .notOpen uses closed⟩

theorem served_withName {call : Call} {name : String} {body : Nat → Answer call × World × Nat}
    (below : Below world next) (looks : call.lookup = some name)
    (each : ∀ inode, world.names name = some inode → Served world call (body inode)) :
    Served world call (withName world next name body) := by
  unfold withName
  split
  · next inode bound => exact each inode bound
  · next unbound => exact ⟨below, .notFound looks unbound⟩

theorem served_refuse {call : Call} {inode : Nat} {kinds : List FileKind} {done : Answer call × World × Nat}
    (below : Below world next)
    (refused : (world.inodes inode).kind ∈ kinds → Answers world ⟨call, .error .other⟩ world)
    (each : (world.inodes inode).kind ∉ kinds → Served world call done) :
    Served world call (refuse world next inode kinds done) := by
  unfold refuse
  split
  · next member => exact ⟨below, refused member⟩
  · next other => exact each other

theorem Below.seek (below : Below world next) {descriptor : Nat} {file : OpenFile}
    (opened : world.files descriptor = some file) (offset : Nat) :
    Below (world.hold descriptor (some { file with offset })) next := by
  apply below.hold (below.files _ _ opened).1
  rintro _ ⟨⟩
  exact (below.files _ _ opened).2

theorem Below.open (below : Below world next) {inode : Nat} (used : inode < next) :
    Below (world.hold next (some ⟨inode, 0⟩)) (next + 1) := by
  apply below.more.hold (Nat.lt_succ_self _)
  rintro _ ⟨⟩
  exact used.trans (Nat.lt_succ_self _)

theorem Below.leads (below : Below world next) {name new : String} {inode : Nat}
    (bound : world.names name = some inode) : Below (world.bind new (some inode)) next := by
  apply below.bind
  rintro _ ⟨⟩
  exact below.names _ _ bound

theorem serve_openLock (below : Below world next) {name : String} :
    Served world (.openLock name) (serve (.openLock name) (world, next)) := by
  simp only [serve]
  split
  · next inode bound =>
      apply served_refuse below
      · intro member
        rcases List.mem_cons.mp member with link | member
        · exact .openLockLink bound link
        · exact .isDirectory rfl bound (List.mem_singleton.mp member)
      · intro other
        simp only [List.mem_cons, List.not_mem_nil, or_false, not_or] at other
        exact ⟨below.open (below.names _ _ bound), .openLock next bound other below.fresh⟩
  · next unbound => exact ⟨below.make, .makeLock next next 0 0 unbound below.free below.fresh⟩

theorem serve_create (below : Below world next) {name : String} :
    Served world (.create name) (serve (.create name) (world, next)) := by
  simp only [serve]
  split
  · next inode bound => exact ⟨below, .createTaken bound⟩
  · next unbound =>
      have made : Below (world.make name next next 0 0) (next + 1) := below.make
      refine ⟨⟨made.names, made.files, ?_, made.path⟩, .create next next 0 0 unbound below.free below.fresh⟩
      exact List.forall_mem_cons.mpr ⟨Nat.lt_succ_self _, made.own⟩

theorem serve_link (below : Below world next) {name new : String} :
    Served world (.link name new) (serve (.link name new) (world, next)) := by
  apply served_withName below rfl
  intro inode bound
  split
  · next other taken => exact ⟨below, .linkTaken taken⟩
  · next unbound =>
      apply served_refuse below
      · intro member
        exact .isDirectory rfl bound (List.mem_singleton.mp member)
      · intro other
        have linked : Below (world.bind new (some inode)) next := below.leads bound
        exact ⟨⟨linked.names, linked.files, linked.own, linked.path⟩,
          .link 0 bound (fun same => other (List.mem_singleton.mpr same)) unbound⟩

theorem serve_replace (below : Below world next) {name onto : String} :
    Served world (.replace name onto) (serve (.replace name onto) (world, next)) := by
  apply served_withName below rfl
  intro inode bound
  have moved : ∀ old, Below (((world.drop old).bind name none).bind onto (some inode)) next := by
    intro old
    have unbound : Below ((world.drop old).bind name none) next := below.drop.bind (by rintro _ ⟨⟩)
    apply unbound.bind
    rintro _ ⟨⟩
    exact below.names _ _ bound
  split
  · next unbound => 
      have apart : world.names onto ≠ some inode := fun leads => nomatch unbound.symm.trans leads
      refine ⟨moved none, ?_⟩
      have replaced := Answers.replace bound apart fun old leads => nomatch unbound.symm.trans leads
      rw [unbound] at replaced
      exact replaced
  · next old leads =>
      split
      · next same => exact ⟨below, .replaceSame bound (same ▸ leads)⟩
      · next apart =>
          apply served_refuse below
          · intro member
            exact .isDirectory rfl leads (List.mem_singleton.mp member)
          · intro other
            refine ⟨moved (some old), ?_⟩
            have replaced := Answers.replace bound (fun same => apart (Option.some.inj (leads.symm.trans same))) (by
              intro found finds
              cases leads.symm.trans finds
              exact fun same => other (List.mem_singleton.mpr same))
            rw [leads] at replaced
            exact replaced

theorem serve_answers (query : Call) (state : World × Nat) (below : Below state.1 state.2) :
    Served state.1 query (serve query state) := by
  obtain ⟨world, next⟩ := state
  cases query with
  | openDirectory create => exact ⟨below.open below.path, .openDirectory next below.fresh⟩
  | fstat descriptor => exact served_withFile below rfl fun file opened => ⟨below, .fstat opened⟩
  | stat name => exact served_withName below rfl fun inode bound => ⟨below, .stat bound⟩
  | openLock name => exact serve_openLock below
  | lock descriptor => exact served_withFile below rfl fun file opened => ⟨below, .lock opened⟩
  | unlock descriptor => exact served_withFile below rfl fun file opened => ⟨below, .unlock opened⟩
  | token => exact ⟨below, .token "0"⟩
  | create name => exact serve_create below
  | openLeaf name =>
      apply served_withName below rfl
      intro inode bound
      apply served_refuse below
      · intro member
        exact .openLeafLink bound (List.mem_singleton.mp member)
      · intro other
        exact ⟨below.open (below.names _ _ bound),
          .openLeaf next bound (fun same => other (List.mem_singleton.mpr same)) below.fresh⟩
  | write descriptor data =>
      apply served_withFile below rfl
      intro file opened
      have moved := below.seek opened (file.offset + data.length)
      exact ⟨⟨moved.names, moved.files, moved.own, moved.path⟩, .write data.length 0 0 opened (Nat.le_refl _)⟩
  | chmod descriptor permissions =>
      apply served_withFile below rfl
      intro file opened
      exact ⟨⟨below.names, below.files, below.own, below.path⟩, .chmod 0 opened⟩
  | fsync descriptor =>
      apply served_withFile below rfl
      intro file opened
      exact ⟨⟨below.names, below.files, below.own, below.path⟩, .fsync opened⟩
  | link name new => exact serve_link below
  | replace name onto => exact serve_replace below
  | seek descriptor => exact served_withFile below rfl fun file opened => ⟨below.seek opened 0, .seek opened⟩
  | read descriptor count =>
      apply served_withFile below rfl
      intro file opened
      refine ⟨below.seek opened _, .read count opened (Nat.le_refl _) ?_⟩
      intro nothing
      exact Or.inl nothing
  | unlink name =>
      apply served_withName below rfl
      intro inode bound
      apply served_refuse below
      · intro member
        exact .isDirectory rfl bound (List.mem_singleton.mp member)
      · intro other
        have unbound : Below ((world.drop (some inode)).bind name none) next := below.drop.bind (by rintro _ ⟨⟩)
        exact ⟨unbound, .unlink bound fun same => other (List.mem_singleton.mpr same)⟩
  | close descriptor =>
      apply served_withFile below rfl
      intro file opened
      exact ⟨below.hold (below.files _ _ opened).1 nofun, .close opened⟩

/-- The script runs in a directory that serves. -/
theorem run_served {α : Type} (output : String) (program : Program α) (below : Below world next) : ∃ log,
    Run (others output) program world log (session serve program (world, next)).outcome
      (session serve program (world, next)).environment.1 := by
  have serves : ∀ query (state : World × Nat), Below state.1 state.2 →
      Below (serve query state).2.1 (serve query state).2.2 ∧
        (others output).answers state.1 ⟨query, (serve query state).1⟩ (serve query state).2.1 := serve_answers
  have started : Below (world, next).1 (world, next).2 := below
  exact run_session Prod.fst (fun state => Below state.1 state.2) serves program started

end Below

/-! ### The script is atomic -/

/-- Wherever a run is left, and however it ends, the output name leads to what it led to at the start, or to all of
    the new archive; where the script returns, to the new one. -/
theorem writeSourceArchive_atomic {output : String} {archive : Archive} {start final : World}
    {log : List (Moment Answer World)} {outcome : Except Failure Unit}
    (run : Run (others output) (writeSourceArchive output archive) start log outcome final) :
    (∀ moment ∈ log, start.Still output moment.state ∨ archive.Published output moment.state) ∧
      (start.Still output final ∨ archive.Published output final) ∧
        (outcome = .ok () → archive.Published output final) := by
  have old : Old start output start := by
    refine ⟨List.forall_mem_singleton.mpr ⟨rfl, fun _ _ => rfl⟩, List.forall_mem_singleton.mpr (Or.inl rfl),
      List.nil_subset _⟩
  obtain ⟨moments, ends⟩ := throughout_writeSourceArchive start log outcome final old run
  refine ⟨moments, ?_, ?_⟩
  · cases outcome with
    | ok _ => exact Or.inr (New.published ends)
    | error _ => exact Or.imp (fun old => old.still List.mem_cons_self) New.published ends
  · rintro rfl
    exact New.published ends

/-- A directory with an old archive. -/
def oldDirectory : World where
  names name := if name = "a.tar.gz" then some 1 else none
  path := 0
  inodes inode := if inode = 0 then ⟨.directory, 0o755, 2, [], true, 0, 0⟩ else ⟨.regular, 0o644, 1, [7], true, 0, 0⟩
  files _ := none
  ownNames := []
  ownInodes := []
  faults := 0

theorem below_oldDirectory : Below oldDirectory 2 := by
  refine ⟨?_, nofun, nofun, Nat.two_pos⟩
  intro name inode leads
  simp only [oldDirectory, Option.ite_none_right_eq_some, Option.some.injEq] at leads
  omega

/-- A run that replaces the old archive. -/
theorem writeSourceArchive_atomic_served : ∃ log final,
    Run (others "a.tar.gz") (writeSourceArchive "a.tar.gz" ⟨[[1, 2], [3]], none, []⟩) oldDirectory log (.ok ()) final ∧
      Archive.Published ⟨[[1, 2], [3]], none, []⟩ "a.tar.gz" final := by
  obtain ⟨log, run⟩ :=
    run_served "a.tar.gz" (writeSourceArchive "a.tar.gz" ⟨[[1, 2], [3]], none, []⟩) below_oldDirectory
  have returned : (session serve (writeSourceArchive "a.tar.gz" ⟨[[1, 2], [3]], none, []⟩) (oldDirectory, 2)).outcome =
      .ok () := by decide +kernel
  rw [returned] at run
  exact ⟨log, _, run, (writeSourceArchive_atomic run).2.2 rfl⟩

end ExitfyCores.Bundle.Publish
