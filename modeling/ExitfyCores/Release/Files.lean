/-
Module: ExitfyCores.Release.Files
Layer: Release
Purpose: `_read_regular`, `_digest_regular` and `_copy_regular` of `scripts/candidate_handoff.py`, call by call, over a file
  system that others change between the calls.
Imports: ExitfyCores.Lib.Interleaving, ExitfyCores.Release.Handoff, Mathlib.Logic.Function.Basic
Trusted boundary: human-reviewed spec; the file system is names bound to inodes, where every change of an inode gives it a
  fresh change time; a call is one step, and it may fail at any time without having done anything
Main exports: World, WriterStep, Call, Answers, writers, identity, readRegular, digestRegular, copyBlock, copyRegular
Open obligations: none
-/
import ExitfyCores.Lib.Interleaving
import ExitfyCores.Release.Handoff
import Mathlib.Logic.Function.Basic

namespace ExitfyCores.Release.Files

open Interaction Py

/-! ### The file system -/

/-- A name in a directory that is held open. -/
structure Entry where
  directory : Nat
  name : Text
deriving DecidableEq

/-- `st_dev` and `st_ino` -/
structure InodeNumber where
  dev : Nat
  ino : Nat
deriving DecidableEq

inductive Kind where
  | regular
  | directory
  | symlink
  | other
deriving DecidableEq

structure Inode where
  kind : Kind
  permissions : Nat
  nlink : Nat
  content : List UInt8
  mtime : Nat
  ctime : Nat

/-- An open file by its inode and the position in it. -/
structure OpenFile where
  number : InodeNumber
  offset : Nat

/-- The file system, the descriptors of the script, and the inodes that the script has made. No change time lies in the
future. -/
structure World where
  names : Entry → Option InodeNumber
  inodes : InodeNumber → Inode
  clock : Nat
  stamped : ∀ number, (inodes number).ctime ≤ clock
  descriptors : List (Nat × OpenFile)
  outputs : List InodeNumber

/-- A change of an inode: its change time is fresh. -/
def World.touch (world : World) (number : InodeNumber) (change : Inode → Inode) : World where
  names := world.names
  inodes := Function.update world.inodes number { change (world.inodes number) with ctime := world.clock + 1 }
  clock := world.clock + 1
  stamped := by
    intro other
    by_cases same : other = number
    · rw [same, Function.update_self]
    · rw [Function.update_of_ne same]
      exact Nat.le_succ_of_le (world.stamped other)
  descriptors := world.descriptors
  outputs := world.outputs

/-- A name is bound, or not bound any more. -/
def World.bind (world : World) (entry : Entry) (number : Option InodeNumber) : World :=
  { world with names := Function.update world.names entry number }

def World.file (world : World) (descriptor : Nat) : Option OpenFile :=
  (world.descriptors.find? fun opened => opened.1 = descriptor).map Prod.snd

def World.release (world : World) (descriptor : Nat) : World :=
  { world with descriptors := world.descriptors.filter fun opened => opened.1 ≠ descriptor }

def World.hold (world : World) (descriptor : Nat) (file : OpenFile) : World :=
  { world with descriptors := (descriptor, file) :: world.descriptors.filter fun opened => opened.1 ≠ descriptor }

/-- A number that a new inode may get. -/
def World.Free (world : World) (number : InodeNumber) : Prop :=
  (world.inodes number).nlink = 0 ∧ ∀ opened ∈ world.descriptors, opened.2.number ≠ number

instance (world : World) (number : InodeNumber) : Decidable (world.Free number) := inferInstanceAs (Decidable (_ ∧ _))

/-- A new inode under a name. -/
def World.make (world : World) (entry : Entry) (number : InodeNumber) (inode : Inode) : World :=
  (world.touch number fun _ => { inode with nlink := 1 }).bind entry (some number)

/-- One link less. -/
def World.unlinked (world : World) (number : InodeNumber) : World :=
  world.touch number fun inode => { inode with nlink := inode.nlink - 1 }

/-! ### The others -/

/-- What others do: a write or a truncation, a change of attributes, and the changes of names. -/
inductive WriterStep where
  | write (number : InodeNumber) (content : List UInt8) (mtime : Nat)
  | attributes (number : InodeNumber) (permissions mtime : Nat)
  | create (entry : Entry) (number : InodeNumber) (inode : Inode)
  | link (entry new : Entry)
  | unlink (entry : Entry)
  | rename (entry onto : Entry)

/-- The step; one that is not possible does nothing. -/
def WriterStep.apply (world : World) : WriterStep → World
  | .write number content mtime => world.touch number fun inode => { inode with content := content, mtime := mtime }
  | .attributes number permissions mtime =>
      world.touch number fun inode => { inode with permissions := permissions, mtime := mtime }
  | .create entry number inode =>
      if world.names entry = none ∧ world.Free number then world.make entry number inode else world
  | .link entry new =>
      match world.names entry, world.names new with
      | some number, none => (world.touch number fun inode => { inode with nlink := inode.nlink + 1 }).bind new (some number)
      | _, _ => world
  | .unlink entry =>
      match world.names entry with
      | some number => (world.unlinked number).bind entry none
      | none => world
  | .rename entry onto =>
      match world.names entry with
      | none => world
      | some number =>
          match world.names onto with
          | none => ((world.touch number id).bind entry none).bind onto (some number)
          | some replaced =>
              if replaced = number then world
              else (((world.unlinked replaced).touch number id).bind entry none).bind onto (some number)

/-! ### The calls -/

/-- `os.stat_result`, the fields that the script reads. -/
structure Stat where
  dev : Nat
  ino : Nat
  kind : Kind
  permissions : Nat
  nlink : Nat
  size : Nat
  mtime : Nat
  ctime : Nat
deriving DecidableEq

def World.status (world : World) (number : InodeNumber) : Stat :=
  let inode := world.inodes number
  { dev := number.dev, ino := number.ino, kind := inode.kind, permissions := inode.permissions, nlink := inode.nlink
    size := inode.content.length, mtime := inode.mtime, ctime := inode.ctime }

/-- The system calls; `open` is for reading, and `create` is for writing with `O_CREAT` and `O_EXCL`. -/
inductive Call where
  | stat (entry : Entry)
  | open (entry : Entry)
  | create (entry : Entry)
  | fstat (descriptor : Nat)
  | read (descriptor count : Nat)
  | write (descriptor : Nat) (data : List UInt8)
  | fsync (descriptor : Nat)
  | close (descriptor : Nat)
  | unlink (entry : Entry)

/-- What a call returns. -/
def Result : Call → Type
  | .stat _ | .fstat _ => Stat
  | .open _ | .create _ | .write _ _ => Nat
  | .read _ _ => List UInt8
  | .fsync _ | .close _ | .unlink _ => Unit

/-- What a call returns, or nothing where it raises `OSError`. -/
abbrev Answer (call : Call) : Type := Option (Result call)

/-- How a call is answered. -/
inductive Answers : World → Exchange Answer → World → Prop where
  | failed (world : World) (call : Call) : Answers world ⟨call, none⟩ world
  | stat {world : World} {entry : Entry} {number : InodeNumber} (bound : world.names entry = some number) :
      Answers world ⟨.stat entry, some (world.status number)⟩ world
  | open {world : World} {entry : Entry} {number : InodeNumber} (descriptor : Nat)
      (bound : world.names entry = some number) (followed : (world.inodes number).kind ≠ .symlink)
      (fresh : world.file descriptor = none) :
      Answers world ⟨.open entry, some descriptor⟩ (world.hold descriptor ⟨number, 0⟩)
  | create {world : World} {entry : Entry} (descriptor : Nat) (number : InodeNumber) (mtime : Nat)
      (unbound : world.names entry = none) (free : world.Free number) (fresh : world.file descriptor = none) :
      Answers world ⟨.create entry, some descriptor⟩
        { (world.make entry number
            { kind := .regular, permissions := 0o600, nlink := 1, content := [], mtime := mtime, ctime := 0 }).hold
            descriptor ⟨number, 0⟩ with
          outputs := number :: world.outputs }
  | fstat {world : World} {descriptor : Nat} {file : OpenFile} (opened : world.file descriptor = some file) :
      Answers world ⟨.fstat descriptor, some (world.status file.number)⟩ world
  | read {world : World} {descriptor count : Nat} {file : OpenFile} (length : Nat)
      (opened : world.file descriptor = some file) (small : length ≤ count)
      (ending : length = 0 → count = 0 ∨ (world.inodes file.number).content.length ≤ file.offset) :
      Answers world
        ⟨.read descriptor count, some (((world.inodes file.number).content.drop file.offset).take length)⟩
        (world.hold descriptor
          { file with
            offset := file.offset + (((world.inodes file.number).content.drop file.offset).take length).length })
  | write {world : World} {descriptor : Nat} {data : List UInt8} {file : OpenFile} (length mtime : Nat)
      (opened : world.file descriptor = some file) (small : length ≤ data.length) :
      Answers world ⟨.write descriptor data, some length⟩
        ((world.touch file.number fun inode =>
          { inode with
            content := inode.content.take file.offset ++ data.take length ++ inode.content.drop (file.offset + length)
            mtime := mtime }).hold
          descriptor { file with offset := file.offset + length })
  | fsync {world : World} {descriptor : Nat} {file : OpenFile} (opened : world.file descriptor = some file) :
      Answers world ⟨.fsync descriptor, some ()⟩ world
  | close {world : World} {descriptor : Nat} {file : OpenFile} (opened : world.file descriptor = some file) :
      Answers world ⟨.close descriptor, some ()⟩ (world.release descriptor)
  | closeFailed {world : World} {descriptor : Nat} :
      Answers world ⟨.close descriptor, none⟩ (world.release descriptor)
  | unlink {world : World} {entry : Entry} {number : InodeNumber} (bound : world.names entry = some number) :
      Answers world ⟨.unlink entry, some ()⟩ ((world.unlinked number).bind entry none)

/-- Others do anything at any time. -/
def writers : Environment Answer World where
  move world next := ∃ step : WriterStep, next = step.apply world
  answers := Answers

/-- Others leave the inodes alone that the script has made, and the names of these. -/
def Spares (world next : World) : Prop :=
  ∀ number ∈ world.outputs, next.inodes number = world.inodes number ∧
    ∀ entry, next.names entry = some number ↔ world.names entry = some number

/-- Others do anything at any time, to other files than those that the script makes. -/
def sourceWriters : Environment Answer World where
  move world next := Spares world next ∧ ∃ step : WriterStep, next = step.apply world
  answers := Answers

/-! ### The script -/

abbrev Program (α : Type) : Type := Interaction Answer Raised α

/-- A system call. -/
def call (query : Call) : Program (Result query) :=
  .ask query fun
    | some result => .done result
    | none => .raise .unexpected

/-- `if condition: raise ValueError(label + message)` -/
def check (condition : Prop) [Decidable condition] (label : Text) (message : String) : Program Unit :=
  ofExcept (throwIf condition (.value (label ++ text message)))

/-- The tuple of `_identity`; the mode is the kind with the permissions. -/
structure Identity where
  dev : Nat
  ino : Nat
  mode : Kind × Nat
  nlink : Nat
  size : Nat
  mtime : Nat
  ctime : Nat
deriving DecidableEq

/-- `_identity` -/
def identity (value : Stat) : Identity where
  dev := value.dev
  ino := value.ino
  mode := (value.kind, value.permissions)
  nlink := value.nlink
  size := value.size
  mtime := value.mtime
  ctime := value.ctime

/-- The first check of the three functions. -/
def checkBounded (before : Stat) (maximum : Nat) (label : Text) : Program Unit :=
  check (before.kind ≠ .regular ∨ before.nlink ≠ 1 ∨ before.size ≤ 0 ∨ maximum < before.size) label
    " is not a bounded single-link regular file"

/-- The bytes that one `os.read` asks for when `total` are there. -/
def readSize (maximum total : Nat) : Nat := min (64 * 1024) (maximum + 1 - total)

/-- `while total <= maximum: …`, where `value` are the chunks so far and `total` is their length. -/
def readChunks (descriptor maximum : Nat) : Nat → List UInt8 → Program (List UInt8)
  | 0, value => pure value
  | turns + 1, value =>
      if maximum < value.length then pure value
      else do
        let chunk : List UInt8 ← call (.read descriptor (readSize maximum value.length))
        if chunk = [] then pure value else readChunks descriptor maximum turns (value ++ chunk)

/-- The block of `_read_regular` and `_digest_regular` under `try`. -/
def readBlock (descriptor : Nat) (before : Stat) (maximum : Nat) (label : Text) : Program (List UInt8 × Stat) := do
  let opened : Stat ← call (.fstat descriptor)
  check (identity opened ≠ identity before) label " changed while opening"
  let value ← readChunks descriptor maximum (maximum + 1) []
  let after : Stat ← call (.fstat descriptor)
  pure (value, after)

/-- What `_read_regular` and `_digest_regular` have in common: all but what they return. -/
def readStable (entry : Entry) (maximum : Nat) (label : Text) : Program (List UInt8) := do
  ofExcept (canonicalComponent entry.name label)
  let before : Stat ← call (.stat entry)
  checkBounded before maximum label
  let descriptor : Nat ← call (.open entry)
  let found ← finally_ (readBlock descriptor before maximum label) (call (.close descriptor))
  let final : Stat ← call (.stat entry)
  check
    (maximum < found.1.length ∨ found.1.length ≠ before.size ∨ identity found.2 ≠ identity before ∨
      identity final ≠ identity before)
    label " changed while reading"
  let finalDescriptor : Nat ← call (.open entry)
  finally_
    (do
      let last : Stat ← call (.fstat finalDescriptor)
      check (identity last ≠ identity before) label " changed before final verification")
    (call (.close finalDescriptor))
  pure found.1

/-- `_read_regular(directory, name, maximum, label)` -/
def readRegular (sha256 : Sha256) (entry : Entry) (maximum : Nat) (label : Text) : Program (List UInt8 × Text) := do
  let value ← readStable entry maximum label
  pure (value, sha256.hexdigest value)

/-- `_digest_regular(directory, name, maximum, label)` -/
def digestRegular (sha256 : Sha256) (entry : Entry) (maximum : Nat) (label : Text) : Program (Nat × Text) := do
  let value ← readStable entry maximum label
  pure (value.length, sha256.hexdigest value)

/-- `while offset < len(view): …`, where `view` is what is left. -/
def writeAll (descriptor : Nat) : Nat → List UInt8 → Program Unit
  | 0, _ => pure ()
  | turns + 1, view =>
      if view = [] then pure ()
      else do
        let written : Nat ← call (.write descriptor view)
        if written = 0 then .raise .unexpected else writeAll descriptor turns (view.drop written)

/-- The loop of `_copy_regular`; `value` is what the digest was updated with, and `total` is its length. -/
def copyChunks (source destination maximum : Nat) : Nat → List UInt8 → Program (List UInt8)
  | 0, value => pure value
  | turns + 1, value =>
      if maximum < value.length then pure value
      else do
        let chunk : List UInt8 ← call (.read source (readSize maximum value.length))
        if chunk = [] then pure value
        else do
          writeAll destination chunk.length chunk
          copyChunks source destination maximum turns (value ++ chunk)

/-- The block of `_copy_regular` under `try` before there is a destination. -/
def createBlock (source : Nat) (before : Stat) (output : Entry) (label : Text) : Program Nat := do
  let opened : Stat ← call (.fstat source)
  check (identity opened ≠ identity before) label " changed while opening"
  call (.create output)

/-- The rest of that block. -/
def copyBlock (source destination : Nat) (before : Stat) (maximum : Nat) (label : Text) : Program (List UInt8) := do
  let value ← copyChunks source destination maximum (maximum + 1) []
  let sourceAfter : Stat ← call (.fstat source)
  let _ ← call (.fsync destination)
  let destinationAfter : Stat ← call (.fstat destination)
  check
    (maximum < value.length ∨ value.length ≠ before.size ∨ identity sourceAfter ≠ identity before ∨
      destinationAfter.kind ≠ .regular ∨ destinationAfter.nlink ≠ 1 ∨ destinationAfter.size ≠ value.length)
    label " changed while copying"
  pure value

/-- The block under `finally`. -/
def closeFiles (destination : Option Nat) (source : Nat) : Program Unit := do
  match destination with
  | some descriptor => call (.close descriptor)
  | none => pure ()
  call (.close source)

/-- `except BaseException: …`, then `finally: …`, behind the creation. -/
def abandonCopy (source destination : Nat) (output : Entry) (error : Raised) : Program Unit := do
  match ← (call (.close destination)).attempt with
  | .error later => do
      closeFiles (some destination) source
      .raise later
  | .ok _ => do
      let _ ← (call (.unlink output)).attempt
      closeFiles none source
      .raise error

/-- What `_copy_regular` does behind the block. -/
def confirmCopy (sha256 : Sha256) (entry output : Entry) (before : Stat) (maximum : Nat) (label : Text)
    (value : List UInt8) : Program (Nat × Text) := do
  let sourceFinal : Stat ← call (.stat entry)
  check (identity sourceFinal ≠ identity before) label " changed after copying"
  let (finalSize, finalDigest) ← digestRegular sha256 output maximum (text "copied " ++ label)
  check (finalSize ≠ value.length ∨ finalDigest ≠ sha256.hexdigest value) (text "copied " ++ label)
    " differs from its source"
  pure (value.length, sha256.hexdigest value)

/-- `_copy_regular` from the creation on. -/
def copyCreated (sha256 : Sha256) (entry output : Entry) (before : Stat) (maximum : Nat) (label : Text)
    (source destination : Nat) : Program (Nat × Text) := do
  match ← (copyBlock source destination before maximum label).attempt with
  | .error error => do
      abandonCopy source destination output error
      .raise error
  | .ok value => do
      closeFiles (some destination) source
      confirmCopy sha256 entry output before maximum label value

/-- `_copy_regular(source_directory, source_name, destination_directory, destination_name, maximum, label)` -/
def copyRegular (sha256 : Sha256) (entry output : Entry) (maximum : Nat) (label : Text) : Program (Nat × Text) := do
  ofExcept (canonicalComponent entry.name label)
  ofExcept (canonicalComponent output.name (text "candidate output"))
  let before : Stat ← call (.stat entry)
  checkBounded before maximum label
  let source : Nat ← call (.open entry)
  match ← (createBlock source before output label).attempt with
  | .error error => do
      closeFiles none source
      .raise error
  | .ok destination => copyCreated sha256 entry output before maximum label source destination

end ExitfyCores.Release.Files
