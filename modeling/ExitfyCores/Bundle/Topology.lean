/-
Module: ExitfyCores.Bundle.Topology
Layer: Bundle
Purpose: `validate_builder_topology` of `scripts/audit_singbox_source_bundle.py`: the one-pass check of the order and
  the shape of the members, with its stack of open directories. A path is its parts here, which is what the check
  compares.
Imports: ExitfyCores.Bundle.Names, ExitfyCores.Lib.PathOrder
Trusted boundary: human-reviewed spec
Main exports: Strs, partsOf, sortedParts, OpenDirectories, closeDirectory, closeUntil, visitPath,
  validateBuilderTopology
Open obligations: none
-/
import ExitfyCores.Bundle.Names
import ExitfyCores.Lib.PathOrder

namespace ExitfyCores.Bundle

open PathOrder

/-- `path.parts`, as Python orders them. -/
def PosixPath.strs (path : PosixPath) : Parts := path.parts.map Str.mk

/-- `path.as_posix()` in a message. -/
def partsText (path : Parts) : String :=
  match path.map Str.bytes with
  | [] => "."
  | first :: rest =>
      if first.head? = some (byte '/') then escapedText (first ++ [byte '/'].intercalate rest)
      else escapedText ([byte '/'].intercalate (first :: rest))

/-- `sorted(paths, key=lambda path: path.parts)` -/
def sortedParts (paths : List Parts) : List Parts := paths.insertionSort (· ≤ ·)

/-- The local variables of the last loops: the failures, and `active_directories` with its top first. -/
structure OpenDirectories where
  failures : List String
  active : List (Parts × Bool)
deriving Repr, DecidableEq

/-- `close_directory` -/
def closeDirectory (state : OpenDirectories) : OpenDirectories :=
  match state.active with
  | [] => state
  | (path, hasFile) :: rest =>
      if hasFile = false then
        { failures := state.failures ++
            [s!"empty archive directory is not emitted by builder: {partsText path}"]
          active := rest }
      else
        match rest with
        | [] => { state with active := [] }
        | (parent, _) :: above => { state with active := (parent, true) :: above }

/-- A loop that closes directories up to one that `stop` names. Every turn closes one, which bounds the turns. -/
def closeUntil (stop : Parts → Prop) [DecidablePred stop] : Nat → OpenDirectories → OpenDirectories
  | 0, state => state
  | turns + 1, state =>
      match state.active with
      | [] => state
      | (parent, _) :: _ => if stop parent then state else closeUntil stop turns (closeDirectory state)

/-- One turn of the loop over the sorted paths. -/
def visitPath (memberKinds : List (Parts × Kind)) (state : OpenDirectories) (path : Parts) :
    OpenDirectories :=
  let closed := closeUntil
    (fun parent => parent.length < path.length ∧ path.take parent.length = parent) state.active.length state
  let entered :=
    if (path, Kind.directory) ∈ memberKinds then { closed with active := (path, false) :: closed.active }
    else closed
  match entered.active with
  | [] => entered
  | (current, _) :: rest =>
      if (path, Kind.file) ∈ memberKinds ∧ current ≠ path then { entered with active := (current, true) :: rest }
      else entered

/-- `validate_builder_topology`: `memberKinds` has the paths in the order of their first members, each with its
kinds. -/
def validateBuilderTopology (memberSequence : List Parts) (memberKinds : List (Parts × Kind)) :
    List String :=
  let paths := (memberKinds.map Prod.fst).eraseDups
  let visited := (sortedParts paths).foldl (visitPath memberKinds) { failures := [], active := [] }
  failIf (∃ path ∈ memberSequence, path.length = 1) "explicit logical root archive member is forbidden" ++
    failIf (memberSequence ≠ sortedParts memberSequence)
      "archive members are not in canonical builder order" ++
    (paths.flatMap fun path =>
      failIf (2 < path.length ∧ (path.dropLast, Kind.directory) ∉ memberKinds)
        s!"archive parent directory is missing: {partsText path.dropLast}") ++
    (closeUntil (fun _ => False) visited.active.length visited).failures

/-- The same check on the paths of members. -/
def builderTopologyFailures (memberSequence : List PosixPath) (memberKinds : List (PosixPath × Kind)) :
    List String :=
  validateBuilderTopology (memberSequence.map PosixPath.strs)
    (memberKinds.map fun entry => (entry.1.strs, entry.2))

/-- The members of the files and of all directories above them, but the root, in order. -/
def canonicalSequence (files : List Parts) : List (Parts × Kind) :=
  (sortedParts (files ++ files.flatMap (ancestors 2)).dedup).map fun path =>
    (path, if path ∈ files then Kind.file else Kind.directory)

end ExitfyCores.Bundle
