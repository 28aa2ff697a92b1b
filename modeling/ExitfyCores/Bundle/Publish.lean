/-
Module: ExitfyCores.Bundle.Publish
Layer: Bundle
Purpose: `write_source_archive` of `scripts/build_singbox_source_bundle.py`, call by call: the lock, the staged file,
  the link to the old archive, the replacement, the rollback and the cleanup, in a directory that others change between
  the calls and with calls that fail.
Imports: ExitfyCores.Bundle.Limits, ExitfyCores.Lib.Interleaving, ExitfyCores.Lib.Sha256, Mathlib.Logic.Function.Basic
Trusted boundary: human-reviewed spec; the directory is names bound to inodes on one device, and a call is one step; the
  walk down to the directory is one call, and so is what gzip and tarfile write, as chunks
Main exports: World, Call, Answers, Archive, descriptorMatchesName, openUniqueStagedOutput, createExistingOutputBackup,
  rollback, cleanup, writeSourceArchive
Open obligations: none
-/
import ExitfyCores.Bundle.Limits
import ExitfyCores.Lib.Interleaving
import ExitfyCores.Lib.Sha256
import Mathlib.Logic.Function.Basic

namespace ExitfyCores.Bundle.Publish

open Interaction

/-! ### The directory -/

/-- `stat.S_IFMT` -/
inductive FileKind where
  | regular
  | directory
  | symlink
  | other
deriving DecidableEq, Repr

/-- `synced` says that the content would survive a crash. -/
structure Inode where
  kind : FileKind
  permissions : Nat
  nlink : Nat
  content : Bytes
  synced : Bool
  mtime : Nat
  ctime : Nat
deriving DecidableEq

/-- An open file by its inode and the position in it. -/
structure OpenFile where
  inode : Nat
  offset : Nat
deriving DecidableEq

/-- The entries of the directory that the script holds open, the inode that its path leads to, all inodes, the
    descriptors of the script, the names and the inodes that the script has made, and how many calls may still fail. -/
structure World where
  names : String → Option Nat
  path : Nat
  inodes : Nat → Inode
  files : Nat → Option OpenFile
  ownNames : List String
  ownInodes : List Nat
  faults : Nat

/-- What a reader of a file finds. -/
structure Data where
  content : Bytes
  permissions : Nat
  synced : Bool
deriving DecidableEq

def Inode.data (inode : Inode) : Data := ⟨inode.content, inode.permissions, inode.synced⟩

def World.change (world : World) (inode : Nat) (change : Inode → Inode) : World :=
  { world with inodes := Function.update world.inodes inode (change (world.inodes inode)) }

def World.bind (world : World) (name : String) (inode : Option Nat) : World :=
  { world with names := Function.update world.names name inode }

def World.hold (world : World) (descriptor : Nat) (file : Option OpenFile) : World :=
  { world with files := Function.update world.files descriptor file }

/-- A number that a new inode may get. -/
def World.Free (world : World) (inode : Nat) : Prop :=
  (∀ name, world.names name ≠ some inode) ∧
    (∀ descriptor file, world.files descriptor = some file → file.inode ≠ inode) ∧
      inode ∉ world.ownInodes ∧ inode ≠ world.path

/-- A new regular file under a name, open for reading and writing. -/
def World.make (world : World) (name : String) (inode descriptor mtime ctime : Nat) : World :=
  (({ world with
      inodes := Function.update world.inodes inode
        { kind := .regular, permissions := 0o600, nlink := 1, content := [], synced := false, mtime, ctime } }).bind
    name (some inode)).hold descriptor (some ⟨inode, 0⟩)

/-- One link less. -/
def World.drop (world : World) (inode : Option Nat) : World :=
  match inode with
  | some number => world.change number fun old => { old with nlink := old.nlink - 1 }
  | none => world

/-! ### The calls -/

/-- `os.stat_result`, the fields of `SOURCE_FINGERPRINT_FIELDS` on one device. -/
structure Stat where
  ino : Nat
  kind : FileKind
  permissions : Nat
  nlink : Nat
  size : Nat
  mtime : Nat
  ctime : Nat
deriving DecidableEq, Repr

def World.status (world : World) (number : Nat) : Stat :=
  let inode := world.inodes number
  { ino := number, kind := inode.kind, permissions := inode.permissions, nlink := inode.nlink
    size := inode.content.length, mtime := inode.mtime, ctime := inode.ctime }

/-- The system calls, and `secrets.token_hex(16)`; names are looked up in the directory that is held open. -/
inductive Call where
  | openDirectory (create : Bool)
  | fstat (descriptor : Nat)
  | stat (name : String)
  | openLock (name : String)
  | lock (descriptor : Nat)
  | unlock (descriptor : Nat)
  | token
  | create (name : String)
  | openLeaf (name : String)
  | write (descriptor : Nat) (data : Bytes)
  | chmod (descriptor permissions : Nat)
  | fsync (descriptor : Nat)
  | link (name new : String)
  | replace (name onto : String)
  | seek (descriptor : Nat)
  | read (descriptor count : Nat)
  | unlink (name : String)
  | close (descriptor : Nat)
deriving DecidableEq

/-- What a call returns. -/
def Result : Call → Type
  | .fstat _ | .stat _ => Stat
  | .openDirectory _ | .openLock _ | .create _ | .openLeaf _ | .write _ _ => Nat
  | .read _ _ => Bytes
  | .token => String
  | _ => Unit

/-- `FileNotFoundError`, `FileExistsError`, or another `OSError`. -/
inductive Fault where
  | missing
  | taken
  | other
deriving DecidableEq, Repr

/-- What a call returns, or the `OSError` that it raises. -/
abbrev Answer (call : Call) : Type := Except Fault (Result call)

/-- The descriptor of a call that works on one. -/
def Call.descriptor : Call → Option Nat
  | .fstat descriptor | .lock descriptor | .unlock descriptor | .write descriptor _ | .chmod descriptor _
  | .fsync descriptor | .seek descriptor | .read descriptor _ | .close descriptor => some descriptor
  | _ => none

/-- The name behind which a call cannot work with a directory. -/
def Call.file : Call → Option String
  | .openLock name | .link name _ | .replace _ name | .unlink name => some name
  | _ => none

/-- The name that a call looks up. -/
def Call.lookup : Call → Option String
  | .stat name | .openLeaf name | .link name _ | .replace name _ | .unlink name => some name
  | _ => none

/-- How a call is answered. -/
inductive Answers : World → Exchange Answer → World → Prop where
  | failed {world : World} {call : Call} (left : 0 < world.faults) (deterministic : call ≠ .token) :
      Answers world ⟨call, .error .other⟩ { world with faults := world.faults - 1 }
  | notOpen {world : World} {call : Call} {descriptor : Nat} (uses : call.descriptor = some descriptor)
      (closed : world.files descriptor = none) : Answers world ⟨call, .error .other⟩ world
  | notFound {world : World} {call : Call} {name : String} (looks : call.lookup = some name)
      (unbound : world.names name = none) : Answers world ⟨call, .error .missing⟩ world
  | isDirectory {world : World} {call : Call} {name : String} {inode : Nat} (works : call.file = some name)
      (bound : world.names name = some inode) (directory : (world.inodes inode).kind = .directory) :
      Answers world ⟨call, .error .other⟩ world
  | openDirectory {world : World} {create : Bool} (descriptor : Nat) (fresh : world.files descriptor = none) :
      Answers world ⟨.openDirectory create, .ok descriptor⟩ (world.hold descriptor (some ⟨world.path, 0⟩))
  | fstat {world : World} {descriptor : Nat} {file : OpenFile} (opened : world.files descriptor = some file) :
      Answers world ⟨.fstat descriptor, .ok (world.status file.inode)⟩ world
  | stat {world : World} {name : String} {inode : Nat} (bound : world.names name = some inode) :
      Answers world ⟨.stat name, .ok (world.status inode)⟩ world
  | openLock {world : World} {name : String} {inode : Nat} (descriptor : Nat) (bound : world.names name = some inode)
      (file : (world.inodes inode).kind ≠ .symlink ∧ (world.inodes inode).kind ≠ .directory)
      (fresh : world.files descriptor = none) :
      Answers world ⟨.openLock name, .ok descriptor⟩ (world.hold descriptor (some ⟨inode, 0⟩))
  | openLockLink {world : World} {name : String} {inode : Nat} (bound : world.names name = some inode)
      (link : (world.inodes inode).kind = .symlink) : Answers world ⟨.openLock name, .error .other⟩ world
  | makeLock {world : World} {name : String} (descriptor inode mtime ctime : Nat) (unbound : world.names name = none)
      (free : world.Free inode) (fresh : world.files descriptor = none) :
      Answers world ⟨.openLock name, .ok descriptor⟩ (world.make name inode descriptor mtime ctime)
  | lock {world : World} {descriptor : Nat} {file : OpenFile} (opened : world.files descriptor = some file) :
      Answers world ⟨.lock descriptor, .ok ()⟩ world
  | unlock {world : World} {descriptor : Nat} {file : OpenFile} (opened : world.files descriptor = some file) :
      Answers world ⟨.unlock descriptor, .ok ()⟩ world
  | token {world : World} (value : String) : Answers world ⟨.token, .ok value⟩ world
  | create {world : World} {name : String} (descriptor inode mtime ctime : Nat) (unbound : world.names name = none)
      (free : world.Free inode) (fresh : world.files descriptor = none) :
      Answers world ⟨.create name, .ok descriptor⟩
        { world.make name inode descriptor mtime ctime with
          ownNames := name :: world.ownNames
          ownInodes := inode :: world.ownInodes }
  | createTaken {world : World} {name : String} {inode : Nat} (bound : world.names name = some inode) :
      Answers world ⟨.create name, .error .taken⟩ world
  | openLeaf {world : World} {name : String} {inode : Nat} (descriptor : Nat) (bound : world.names name = some inode)
      (followed : (world.inodes inode).kind ≠ .symlink) (fresh : world.files descriptor = none) :
      Answers world ⟨.openLeaf name, .ok descriptor⟩ (world.hold descriptor (some ⟨inode, 0⟩))
  | openLeafLink {world : World} {name : String} {inode : Nat} (bound : world.names name = some inode)
      (link : (world.inodes inode).kind = .symlink) : Answers world ⟨.openLeaf name, .error .other⟩ world
  | write {world : World} {descriptor : Nat} {data : Bytes} {file : OpenFile} (length mtime ctime : Nat)
      (opened : world.files descriptor = some file) (small : length ≤ data.length) :
      Answers world ⟨.write descriptor data, .ok length⟩
        ((world.change file.inode fun inode =>
          { inode with
            content := inode.content.take file.offset ++ data.take length ++ inode.content.drop (file.offset + length)
            synced := false, mtime, ctime }).hold
          descriptor (some { file with offset := file.offset + length }))
  | chmod {world : World} {descriptor permissions : Nat} {file : OpenFile} (ctime : Nat)
      (opened : world.files descriptor = some file) :
      Answers world ⟨.chmod descriptor permissions, .ok ()⟩
        (world.change file.inode fun inode => { inode with permissions, ctime })
  | fsync {world : World} {descriptor : Nat} {file : OpenFile} (opened : world.files descriptor = some file) :
      Answers world ⟨.fsync descriptor, .ok ()⟩
        (world.change file.inode fun inode => { inode with synced := true })
  | link {world : World} {name new : String} {inode : Nat} (ctime : Nat) (bound : world.names name = some inode)
      (file : (world.inodes inode).kind ≠ .directory) (unbound : world.names new = none) :
      Answers world ⟨.link name new, .ok ()⟩
        { (world.change inode fun old => { old with nlink := old.nlink + 1, ctime }).bind new (some inode) with
          ownNames := new :: world.ownNames }
  | linkTaken {world : World} {name new : String} {inode : Nat} (bound : world.names new = some inode) :
      Answers world ⟨.link name new, .error .taken⟩ world
  | replace {world : World} {name onto : String} {inode : Nat} (bound : world.names name = some inode)
      (apart : world.names onto ≠ some inode)
      (file : ∀ old, world.names onto = some old → (world.inodes old).kind ≠ .directory) :
      Answers world ⟨.replace name onto, .ok ()⟩
        (((world.drop (world.names onto)).bind name none).bind onto (some inode))
  | replaceSame {world : World} {name onto : String} {inode : Nat} (bound : world.names name = some inode)
      (same : world.names onto = some inode) : Answers world ⟨.replace name onto, .ok ()⟩ world
  | seek {world : World} {descriptor : Nat} {file : OpenFile} (opened : world.files descriptor = some file) :
      Answers world ⟨.seek descriptor, .ok ()⟩ (world.hold descriptor (some { file with offset := 0 }))
  | read {world : World} {descriptor count : Nat} {file : OpenFile} (length : Nat)
      (opened : world.files descriptor = some file) (small : length ≤ count)
      (ending : length = 0 → count = 0 ∨ (world.inodes file.inode).content.length ≤ file.offset) :
      Answers world
        ⟨.read descriptor count, .ok (((world.inodes file.inode).content.drop file.offset).take length)⟩
        (world.hold descriptor (some { file with
          offset := file.offset + (((world.inodes file.inode).content.drop file.offset).take length).length }))
  | unlink {world : World} {name : String} {inode : Nat} (bound : world.names name = some inode)
      (file : (world.inodes inode).kind ≠ .directory) :
      Answers world ⟨.unlink name, .ok ()⟩ ((world.drop (some inode)).bind name none)
  | close {world : World} {descriptor : Nat} {file : OpenFile} (opened : world.files descriptor = some file) :
      Answers world ⟨.close descriptor, .ok ()⟩ (world.hold descriptor none)
  | closeFailed {world : World} {descriptor : Nat} (left : 0 < world.faults) :
      Answers world ⟨.close descriptor, .error .other⟩
        { world.hold descriptor none with faults := world.faults - 1 }

/-- What a call does with an open file. -/
def withFile {α : Type} (world : World) (next descriptor : Nat) (body : OpenFile → Except Fault α × World × Nat) :
    Except Fault α × World × Nat :=
  match world.files descriptor with
  | some file => body file
  | none => (.error .other, world, next)

/-- What a call does with a name. -/
def withName {α : Type} (world : World) (next : Nat) (name : String) (body : Nat → Except Fault α × World × Nat) :
    Except Fault α × World × Nat :=
  match world.names name with
  | some inode => body inode
  | none => (.error .missing, world, next)

/-- What a call does with a file that is none of these kinds. -/
def refuse {α : Type} (world : World) (next inode : Nat) (kinds : List FileKind) (done : Except Fault α × World × Nat) :
    Except Fault α × World × Nat :=
  if (world.inodes inode).kind ∈ kinds then (.error .other, world, next) else done

/-- A directory where nothing fails without need; all its numbers are below `next`, which is taken for new ones. -/
def serve : (query : Call) → World × Nat → Answer query × World × Nat
  | .openDirectory _, (world, next) => (.ok next, world.hold next (some ⟨world.path, 0⟩), next + 1)
  | .fstat descriptor, (world, next) =>
      withFile world next descriptor fun file => (.ok (world.status file.inode), world, next)
  | .stat name, (world, next) => withName world next name fun inode => (.ok (world.status inode), world, next)
  | .openLock name, (world, next) =>
      match world.names name with
      | some inode => refuse world next inode [.symlink, .directory]
          (.ok next, world.hold next (some ⟨inode, 0⟩), next + 1)
      | none => (.ok next, world.make name next next 0 0, next + 1)
  | .lock descriptor, (world, next) | .unlock descriptor, (world, next) =>
      withFile world next descriptor fun _ => (.ok (), world, next)
  | .token, (world, next) => (.ok "0", world, next)
  | .create name, (world, next) =>
      match world.names name with
      | some _ => (.error .taken, world, next)
      | none => (.ok next,
          { world.make name next next 0 0 with
            ownNames := name :: world.ownNames
            ownInodes := next :: world.ownInodes }, next + 1)
  | .openLeaf name, (world, next) => withName world next name fun inode =>
      refuse world next inode [.symlink] (.ok next, world.hold next (some ⟨inode, 0⟩), next + 1)
  | .write descriptor data, (world, next) => withFile world next descriptor fun file =>
      let ends := file.offset + data.length
      (.ok data.length,
        (world.change file.inode fun inode => { inode with
          content := inode.content.take file.offset ++ data.take data.length ++ inode.content.drop ends
          synced := false, mtime := 0, ctime := 0 }).hold descriptor (some { file with offset := ends }),
        next)
  | .chmod descriptor permissions, (world, next) => withFile world next descriptor fun file =>
      (.ok (), world.change file.inode fun inode => { inode with permissions, ctime := 0 }, next)
  | .fsync descriptor, (world, next) => withFile world next descriptor fun file =>
      (.ok (), world.change file.inode fun inode => { inode with synced := true }, next)
  | .link name new, (world, next) => withName world next name fun inode =>
      match world.names new with
      | some _ => (.error .taken, world, next)
      | none => refuse world next inode [.directory] (.ok (),
          { (world.change inode fun old => { old with nlink := old.nlink + 1, ctime := 0 }).bind new (some inode) with
            ownNames := new :: world.ownNames }, next)
  | .replace name onto, (world, next) => withName world next name fun inode =>
      match world.names onto with
      | none => (.ok (), ((world.drop none).bind name none).bind onto (some inode), next)
      | some old =>
          if old = inode then (.ok (), world, next)
          else refuse world next old [.directory]
            (.ok (), ((world.drop (some old)).bind name none).bind onto (some inode), next)
  | .seek descriptor, (world, next) => withFile world next descriptor fun file =>
      (.ok (), world.hold descriptor (some { file with offset := 0 }), next)
  | .read descriptor count, (world, next) => withFile world next descriptor fun file =>
      let chunk := ((world.inodes file.inode).content.drop file.offset).take count
      (.ok chunk, world.hold descriptor (some { file with offset := file.offset + chunk.length }), next)
  | .unlink name, (world, next) => withName world next name fun inode =>
      refuse world next inode [.directory] (.ok (), (world.drop (some inode)).bind name none, next)
  | .close descriptor, (world, next) =>
      withFile world next descriptor fun _ => (.ok (), world.hold descriptor none, next)

/-- What the others leave alone: the output name and the names that the script has made, with what is found there, the
    inodes that the script has made, and its descriptors. -/
structure Untouched (output : String) (world next : World) : Prop where
  names : ∀ name, name = output ∨ name ∈ world.ownNames → next.names name = world.names name
  data : ∀ name inode, name = output ∨ name ∈ world.ownNames → world.names name = some inode →
    (next.inodes inode).data = (world.inodes inode).data
  inodes : ∀ inode ∈ world.ownInodes, next.inodes inode = world.inodes inode
  files : next.files = world.files
  ownNames : next.ownNames = world.ownNames
  ownInodes : next.ownInodes = world.ownInodes
  faults : next.faults = world.faults

/-- Others change the directory and the files in it at any time. -/
def others (output : String) : Environment Answer World where
  move := Untouched output
  answers := Answers

/-! ### The script -/

/-- `ValueError` or `OSError` -/
inductive Failure where
  | value (message : String)
  | system (fault : Fault)
deriving DecidableEq, Repr

abbrev Program (α : Type) : Type := Interaction Answer Failure α

/-- A system call. -/
def call (query : Call) : Program (Result query) :=
  .ask query fun
    | .ok result => .done result
    | .error fault => .raise (.system fault)

/-- `if condition: raise ValueError(message)` -/
def check (condition : Prop) [Decidable condition] (message : String) : Program Unit :=
  Interaction.throwIf condition (.value message)

/-- `except OSError as error: raise ValueError(message)` -/
def orValueError {α : Type} (program : Program α) (message : String) : Program α := do
  match ← program.attempt with
  | .ok a => pure a
  | .error (.system _) => .raise (.value message)
  | .error error => .raise error

/-- The call on an optional value. -/
def whenSome {α : Type} (value : Option α) (body : α → Program Unit) : Program Unit :=
  match value with
  | some a => body a
  | none => pure ()

/-- `MAX_SOURCE_ARCHIVE_BYTES` -/
def maxSourceArchiveBytes : Nat := 512 * 1024 * 1024

/-- `COPY_BUFFER_BYTES` -/
def copyBufferBytes : Nat := 1024 * 1024

/-- `source_root_identity` -/
def sourceRootIdentity (metadata : Stat) : Program Nat := do
  check (metadata.kind ≠ .directory) "source bundle root is not a directory"
  pure metadata.ino

/-- `verify_directory_path` -/
def verifyDirectoryPath (expected : Nat) : Program Unit := do
  let descriptor : Nat ← orValueError (call (.openDirectory false)) "source archive output directory changed"
  finally_
    (do
      let metadata : Stat ← call (.fstat descriptor)
      let identity ← sourceRootIdentity metadata
      check (identity ≠ expected) "source archive output directory changed")
    (call (.close descriptor))

def lockName (output : String) : String := s!".{output}.lock"

/-- `open_output_lock` -/
def openOutputLock (output : String) : Program Nat := do
  let descriptor : Nat ← orValueError (call (.openLock (lockName output))) "source archive lock is unsafe"
  match ← (do
    let metadata : Stat ← call (.fstat descriptor)
    check (metadata.kind ≠ FileKind.regular ∨ metadata.nlink ≠ 1) "source archive lock is not a private regular file"
    orValueError (call (.lock descriptor)) s!"source archive build is already running for: {output}").attempt with
  | .ok _ => pure descriptor
  | .error error => do
      call (.close descriptor)
      .raise error

/-- `verify_output_lock`; a fingerprint is all of a `Stat`. -/
def verifyOutputLock (output : String) (lock : Nat) (fingerprint : Stat) : Program Unit := do
  let expected : Stat ← call (.fstat lock)
  check (expected.kind ≠ .regular ∨ expected.nlink ≠ 1 ∨ expected ≠ fingerprint)
    "source archive lock changed while held"
  let reopened : Nat ←
    orValueError (call (.openLeaf (lockName output))) "source archive lock path changed while held"
  finally_
    (do
      let current : Stat ← call (.fstat reopened)
      check (current.kind ≠ .regular ∨ current.nlink ≠ 1 ∨ current ≠ fingerprint)
        "source archive lock path changed while held")
    (call (.close reopened))

/-- What `descriptor_matches_name` and `descriptor_name_identity_matches` have in common. -/
def compareWithName (matching : Stat → Stat → Bool) (name : String) (descriptor : Nat) : Program Bool := do
  match ← (do
    let opened : Stat ← call (.fstat descriptor)
    let named : Stat ← call (.stat name)
    pure (matching opened named)).attempt with
  | .ok same => pure same
  | .error (.system _) => pure false
  | .error error => .raise error

/-- `descriptor_name_identity_matches` -/
def descriptorNameIdentityMatches : String → Nat → Program Bool :=
  compareWithName fun opened named =>
    opened.kind = .regular && named.kind = .regular && opened.ino = named.ino

/-- `descriptor_matches_name` -/
def descriptorMatchesName : String → Nat → Program Bool :=
  compareWithName fun opened named =>
    opened.kind = .regular && named.kind = .regular && opened.nlink = 1 && named.nlink = 1 && opened.ino = named.ino

/-- `verify_staged_name` -/
def verifyStagedName (name : String) (descriptor : Nat) : Program Unit := do
  let same ← descriptorMatchesName name descriptor
  check (same = false) "source archive staging name changed before publish"

/-- `verify_published_name` -/
def verifyPublishedName (name : String) (descriptor : Nat) : Program Unit := do
  let same ← descriptorMatchesName name descriptor
  check (same = false) "published source archive does not match staged file"

/-- `unlink_staged_if_owned` -/
def unlinkStagedIfOwned (name : String) (descriptor : Nat) : Program Unit := do
  if ← descriptorMatchesName name descriptor then call (.unlink name)

/-- `unlink_backup_if_owned` -/
def unlinkBackupIfOwned (name : String) (descriptor : Nat) : Program Unit := do
  if ← descriptorNameIdentityMatches name descriptor then call (.unlink name)

/-- `verify_compressed_archive_size` -/
def verifyCompressedArchiveSize (descriptor : Nat) : Program Unit := do
  let metadata : Stat ← call (.fstat descriptor)
  check (metadata.kind ≠ .regular ∨ metadata.nlink ≠ 1 ∨ metadata.size > maxSourceArchiveBytes)
    s!"compressed source archive exceeds {maxSourceArchiveBytes} bytes"

/-- `while total <= expected_size: …`, where `read` is what was read so far. -/
def readPayload (descriptor expectedSize : Nat) : Nat → Bytes → Program Bytes
  | 0, read => pure read
  | turns + 1, read =>
      if expectedSize < read.length then pure read
      else do
        let chunk : Bytes ← call (.read descriptor (min copyBufferBytes (expectedSize + 1 - read.length)))
        if chunk = [] then pure read else readPayload descriptor expectedSize turns (read ++ chunk)

/-- `verify_descriptor_payload` -/
def verifyDescriptorPayload (descriptor expectedSize : Nat) (expectedSha256 : Py.Text) : Program Unit := do
  check (expectedSize > maxSourceArchiveBytes) "published source archive has an invalid size"
  let _ ← call (.seek descriptor)
  let read ← readPayload descriptor expectedSize (expectedSize + 2) []
  check (read.length ≠ expectedSize ∨ Py.sha256Hex read ≠ expectedSha256) "published source archive payload changed"

def stagedName (output token : String) : String := s!".{output}.{token}.tmp"

/-- `open_unique_staged_output`, in so many turns -/
def openUniqueStagedOutput (output : String) : Nat → Program (String × Nat)
  | 0 => .raise (.value "source archive could not allocate a unique staging file")
  | turns + 1 => do
      let token : String ← call .token
      let name := stagedName output token
      match ← (call (.create name)).attempt with
      | .error (.system .taken) => openUniqueStagedOutput output turns
      | .error (.system _) => .raise (.value "source archive staging path is unsafe")
      | .error error => .raise error
      | .ok (descriptor : Nat) => do
          match ← (do
            let metadata : Stat ← call (.fstat descriptor)
            check (¬ (metadata.kind = FileKind.regular ∧ metadata.nlink = 1))
              "source archive staging file is not regular").attempt with
          | .ok _ => pure (name, descriptor)
          | .error error => do
              finally_ (unlinkStagedIfOwned name descriptor) (call (.close descriptor))
              .raise error

def backupName (output token : String) : String := s!".{output}.{token}.old"

/-- The link to the old archive, opened. -/
structure Backup where
  name : String
  descriptor : Nat

/-- The block of `create_existing_output_backup` behind the link. -/
def openBackup (output name : String) : Program Backup := do
  match ← (call (.openLeaf name)).attempt with
  | .error error => do
      let _ ← (call (.unlink name)).attempt
      .raise error
  | .ok (descriptor : Nat) => do
      match ← (do
        let outputSame ← descriptorNameIdentityMatches output descriptor
        check (outputSame = false) "existing source archive changed before publish"
        let backupSame ← descriptorNameIdentityMatches name descriptor
        check (backupSame = false) "existing source archive changed before publish").attempt with
      | .ok _ => pure ⟨name, descriptor⟩
      | .error error => do
          unlinkBackupIfOwned name descriptor
          call (.close descriptor)
          .raise error

/-- The loop of `create_existing_output_backup`, in so many turns -/
def linkBackup (output : String) : Nat → Program Backup
  | 0 => .raise (.value "source archive could not allocate a rollback name")
  | turns + 1 => do
      let token : String ← call .token
      let name := backupName output token
      match ← (call (.link output name)).attempt with
      | .error (.system .taken) => linkBackup output turns
      | .error (.system _) => .raise (.value "existing source archive cannot be preserved")
      | .error error => .raise error
      | .ok _ => openBackup output name

/-- `create_existing_output_backup` -/
def createExistingOutputBackup (output : String) : Program (Option Backup) := do
  match ← (call (.stat output)).attempt with
  | .error (.system .missing) => pure none
  | .error (.system _) => .raise (.value "existing source archive cannot be inspected")
  | .error error => .raise error
  | .ok (metadata : Stat) =>
      if metadata.kind ≠ .regular then pure none
      else do
        let backup ← linkBackup output 128
        pure (some backup)

/-! ### The archive -/

/-- What gzip writes while the tree is added and when it is closed, what `add_tree` raises in the end, and what the
    writer still gets after an error. -/
structure Archive where
  chunks : List Bytes
  error : Option Failure
  trailer : List Bytes

/-- All of a finished archive. -/
def Archive.bytes (archive : Archive) : Bytes := archive.chunks.flatten

/-- `while view: …`, where `view` is what is left -/
def writeAll (descriptor : Nat) : Nat → Bytes → Program Unit
  | 0, _ => pure ()
  | turns + 1, view =>
      if view = [] then pure ()
      else do
        let written : Nat ← call (.write descriptor view)
        if written = 0 then .raise (.system .other) else writeAll descriptor turns (view.drop written)

/-- `DescriptorWriter.write`; the writer is what it has written so far. -/
def descriptorWrite (descriptor : Nat) (written payload : Bytes) : Program Bytes := do
  check (payload.length > maxSourceArchiveBytes - written.length)
    s!"compressed source archive exceeds {maxSourceArchiveBytes} bytes"
  writeAll descriptor payload.length payload
  pure (written ++ payload)

/-- The writing of the archive, and the errors in it. -/
def writeArchive (descriptor : Nat) (archive : Archive) : Program Bytes := do
  match ← (do
    let written ← archive.chunks.foldlM (descriptorWrite descriptor) []
    whenSome archive.error .raise
    pure written).attempt with
  | .ok written => pure written
  | .error error => do
      archive.trailer.forM fun chunk => writeAll descriptor chunk.length chunk
      .raise error

/-! ### The publication -/

/-- The variables of `write_source_archive` that its `except` and `finally` look at. -/
structure Held where
  lock : Option Nat
  staged : Option (String × Nat)
  backup : Option Backup
  backupNamed : Bool
  replaced : Bool
  published : Bool

def Held.nothing : Held := ⟨none, none, none, false, false, false⟩

/-- The block under `except`; it says whether the backup still has its name. -/
def rollback (output : String) (parent : Nat) (held : Held) : Program Bool :=
  match held.backup, held.staged with
  | some backup, some staged =>
      if held.replaced = true ∧ held.published = false ∧ held.backupNamed = true then do
        if ← descriptorMatchesName output staged.2 then
          match ← (call (.replace backup.name output)).attempt with
          | .error _ => pure true
          | .ok _ => do
              let _ ← (do
                let same ← descriptorNameIdentityMatches output backup.descriptor
                check (same = false) "source archive rollback identity changed"
                let _ ← (call (.fsync parent)).attempt).attempt
              pure false
        else pure true
      else pure held.backupNamed
  | _, _ => pure held.backupNamed

/-- The block under `finally` -/
def cleanup (parent : Nat) (held : Held) : Program Unit :=
  finally_
    (finally_
      (if held.published = false ∧ held.replaced = false then
        whenSome held.staged fun staged => unlinkStagedIfOwned staged.1 staged.2
      else pure ())
      (whenSome held.staged fun staged => call (.close staged.2)))
    (finally_
      (finally_
        (if held.backupNamed = true ∧ (held.published = true ∨ held.replaced = false) then
          whenSome held.backup fun backup => unlinkBackupIfOwned backup.name backup.descriptor
        else pure ())
        (whenSome held.backup fun backup => call (.close backup.descriptor)))
      (finally_
        (whenSome held.lock fun lock => finally_ (call (.unlock lock)) (call (.close lock)))
        (call (.close parent))))

/-- A part of the block under `try`, with what is held so far. -/
def guarded {α : Type} (output : String) (parent : Nat) (held : Held) (program : Program α) (next : α → Program Unit) :
    Program Unit := do
  match ← program.attempt with
  | .ok a => next a
  | .error error => do
      let backupNamed ← rollback output parent held
      finally_ (.raise error) (cleanup parent { held with backupNamed })

/-- Up to the lock. -/
def lockOutput (output : String) (parent : Nat) : Program (Nat × Nat) := do
  let metadata : Stat ← call (.fstat parent)
  let identity ← sourceRootIdentity metadata
  verifyDirectoryPath identity
  let lock ← openOutputLock output
  pure (identity, lock)

/-- Up to the staged file. -/
def stageOutput (output : String) (lock : Nat) : Program (Stat × String × Nat) := do
  let fingerprint : Stat ← call (.fstat lock)
  let staged ← openUniqueStagedOutput output 128
  pure (fingerprint, staged)

/-- The archive in the staged file. -/
def fillStaged (staged : Nat) (archive : Archive) : Program Bytes := do
  let written ← writeArchive staged archive
  verifyCompressedArchiveSize staged
  let metadata : Stat ← call (.fstat staged)
  check (metadata.size ≠ written.length) "compressed source archive size changed while written"
  let _ ← call (.chmod staged 0o644)
  let _ ← call (.fsync staged)
  pure written

/-- The checks in front of the replacement, and the backup. -/
def prepareReplacement (output : String) (identity lock : Nat) (fingerprint : Stat) (staged : String × Nat) :
    Program (Option Backup) := do
  verifyOutputLock output lock fingerprint
  verifyStagedName staged.1 staged.2
  verifyCompressedArchiveSize staged.2
  verifyDirectoryPath identity
  createExistingOutputBackup output

/-- The replacement. -/
def replaceOutput (output : String) (parent : Nat) (staged : String) (backup : Option Backup) : Program Unit := do
  whenSome backup fun backup => do
    let _ ← call (.fsync parent)
    let same ← descriptorNameIdentityMatches output backup.descriptor
    check (same = false) "existing source archive changed before publish"
  call (.replace staged output)

/-- The checks behind the replacement. -/
def confirmOutput (output : String) (parent identity staged : Nat) (written : Bytes) : Program Unit := do
  verifyPublishedName output staged
  verifyCompressedArchiveSize staged
  verifyDescriptorPayload staged written.length (Py.sha256Hex written)
  let _ ← call (.fsync parent)
  verifyDirectoryPath identity

/-- What is left to do with the backup of a published archive; an error in the last `fsync` is passed over. -/
def dropBackup (backup : Option Backup) : Program Unit :=
  whenSome backup fun backup => unlinkBackupIfOwned backup.name backup.descriptor

def syncDropped (parent : Nat) (backup : Option Backup) : Program Unit :=
  whenSome backup fun _ => do
    let _ ← (call (.fsync parent)).attempt

/-- `write_source_archive` -/
def writeSourceArchive (output : String) (archive : Archive) : Program Unit := do
  check (output = "" ∨ output = "." ∨ output = ".." ∨ '/' ∈ output.toList) "source archive output name is unsafe"
  let parent : Nat ←
    orValueError (call (.openDirectory true)) "source archive output directory cannot be opened securely"
  let held := Held.nothing
  guarded output parent held (lockOutput output parent) fun (identity, lock) =>
  let held := { held with lock := some lock }
  guarded output parent held (stageOutput output lock) fun (fingerprint, staged) =>
  let held := { held with staged := some staged }
  guarded output parent held
    (do
      let written ← fillStaged staged.2 archive
      let backup ← prepareReplacement output identity lock fingerprint staged
      pure (written, backup)) fun (written, backup) =>
  let held := { held with backup, backupNamed := backup.isSome }
  guarded output parent held (replaceOutput output parent staged.1 backup) fun _ =>
  let held := { held with replaced := true }
  guarded output parent held (confirmOutput output parent identity staged.2 written) fun _ =>
  let held := { held with published := true }
  guarded output parent held (dropBackup backup) fun _ => do
  syncDropped parent backup
  cleanup parent { held with backupNamed := false }

end ExitfyCores.Bundle.Publish
