/-
Module: ExitfyCores.Proofs.BuilderWalk
Layer: Proofs
Purpose: What a successful traversal of the builder has written: one member for each object it visited, in the order
  of the visits, each with the checks that it passed.
Imports: ExitfyCores.Bundle.Builder, Mathlib.Algebra.Ring.Int.Defs
Trusted boundary: none
Main exports: Visit, walk, SafeName, VisitChecked, Adds, archiveDirectory_adds, Built, addTree_built
Open obligations: none
-/
import ExitfyCores.Bundle.Builder
import Mathlib.Algebra.Ring.Int.Defs

namespace ExitfyCores.Bundle.Builder

/-- An object that the traversal visits: a file with what was found there, or a directory. -/
structure Visit where
  path : PosixPath
  found : Option FileObservation

/-- The objects below a directory, in the order of the traversal. -/
def walk : Source → PosixPath → List Visit
  | .directory names _ child _, relative =>
      (sortedNames names).flatMap fun name =>
        match child name with
        | .file found => [{ path := relative.child name, found := some found }]
        | .directory _ _ _ _ =>
            { path := relative.child name, found := none } :: walk (child name) (relative.child name)
        | .special => []
        | .unreadable => []
  | _, _ => []

/-- The member that is written for a visit. -/
def Visit.header (root : Bytes) (visit : Visit) : TarHeader :=
  match visit.found with
  | some found => archiveInfo (archivePath root visit.path) found.size found.executable false
  | none => archiveInfo (archivePath root visit.path) 0 true true

/-- The payload that a visit copies. -/
def Visit.size (visit : Visit) : Int := (visit.found.map FileObservation.size).getD 0

/-- The files among the visits. -/
def filePaths (visits : List Visit) : List PosixPath :=
  visits.filterMap fun visit => visit.found.map fun _ => visit.path

/-- A name that is one part of a path. -/
structure SafeName (name : Bytes) : Prop where
  decodes : DecodesStrictly name
  part : name ∉ unsafeNames
  slash : byte '/' ∉ name

/-- The checks that a visited object has passed. -/
structure VisitChecked (traversal : Traversal) (visit : Visit) : Prop where
  relative : visit.path.root = []
  nonempty : visit.path.names ≠ []
  safe : ∀ name ∈ visit.path.names, SafeName name
  within : checkArchivePath traversal.root visit.path = .ok ()
  file : ∀ found, visit.found = some found → 0 ≤ found.size ∧ found.size ≤ maxPublicFileBytes ∧
    ∃ entry, traversal.expectedManifest.get visit.path = some entry ∧ entry.size = found.size ∧
      entry.mode = if found.executable then 0o755 else 0o644
  directory : visit.found = none → visit.path ∈ traversal.expectedDirectories

/-- What a part of the traversal adds: the members and files of these visits, each checked. -/
structure Adds (traversal : Traversal) (before after : Emission) (visits : List Visit) : Prop where
  members : after.members = before.members ++ visits.map (Visit.header traversal.root)
  seenEntries : after.seenEntries = before.seenEntries ++ filePaths visits
  copiedBytes : after.copiedBytes = before.copiedBytes + (visits.map Visit.size).sum
  bounded : before.copiedBytes ≤ maxPublicTreeBytes → after.copiedBytes ≤ maxPublicTreeBytes
  checked : ∀ visit ∈ visits, VisitChecked traversal visit

theorem Adds.refl (traversal : Traversal) (emission : Emission) : Adds traversal emission emission [] where
  members := (List.append_nil _).symm
  seenEntries := (List.append_nil _).symm
  copiedBytes := (Int.add_zero _).symm
  bounded := id
  checked := fun _ member => absurd member List.not_mem_nil

theorem Adds.trans {traversal : Traversal} {first second third : Emission} {left right : List Visit}
    (one : Adds traversal first second left) (two : Adds traversal second third right) :
    Adds traversal first third (left ++ right) where
  members := by rw [two.members, one.members, List.map_append, List.append_assoc]
  seenEntries := by
    rw [two.seenEntries, one.seenEntries, filePaths, filePaths, filePaths, List.filterMap_append,
      List.append_assoc]
  copiedBytes := by
    rw [two.copiedBytes, one.copiedBytes, List.map_append, List.sum_append, Int.add_assoc]
  bounded := fun small => two.bounded (one.bounded small)
  checked := fun visit member => by
    rcases List.mem_append.mp member with inLeft | inRight
    · exact one.checked visit inLeft
    · exact two.checked visit inRight

/-- The names that `archive_directory_names` lets pass are safe, and it sorts them. -/
theorem archiveDirectoryNames_eq_ok {names sorted : List Bytes}
    (listed : archiveDirectoryNames names = .ok sorted) :
    sorted = sortedNames names ∧ ∀ name ∈ names, SafeName name := by
  unfold archiveDirectoryNames at listed
  rcases bind_eq_ok listed with ⟨retained, run, listed⟩
  cases listed
  refine ⟨rfl, ?_⟩
  have loop := foldlM_rule
    (fun rest _ => (∀ name ∈ names, name ∈ rest ∨ SafeName name)) ?_ (fun name member => Or.inl member) run
  · intro name member
    rcases loop name member with inNil | safe
    · exact absurd inNil List.not_mem_nil
    · exact safe
  · intro head rest state next kept step name member
    unfold retainName at step
    rcases bind_eq_ok step with ⟨_, _, step⟩
    rcases bind_eq_ok step with ⟨_, decodes, step⟩
    rcases bind_eq_ok step with ⟨_, _, step⟩
    rcases bind_eq_ok step with ⟨_, safe, step⟩
    rw [raiseIf_eq_ok, not_not] at decodes
    rw [raiseIf_eq_ok, not_or] at safe
    rcases kept name member with inList | done
    · rcases List.mem_cons.mp inList with rfl | later
      · exact Or.inr ⟨decodes, safe.1, safe.2⟩
      · exact Or.inl later
    · exact Or.inr done

/-- A leaf that was archived. -/
theorem archiveFile_adds {traversal : Traversal} {path : PosixPath} {found : FileObservation}
    {emission next : Emission} (run : archiveFile traversal path found emission = .ok next)
    (relative : path.root = []) (nonempty : path.names ≠ []) (safe : ∀ name ∈ path.names, SafeName name)
    (within : checkArchivePath traversal.root path = .ok ()) :
    Adds traversal emission next [{ path := path, found := some found }] := by
  unfold archiveFile at run
  rcases bind_eq_ok run with ⟨_, size, run⟩
  rcases bind_eq_ok run with ⟨_, total, run⟩
  rw [raiseIf_eq_ok, not_or] at size
  rw [raiseIf_eq_ok] at total
  cases expected : traversal.expectedManifest.get path with
  | none =>
      rw [expected] at run
      cases run
  | some entry =>
      rw [expected] at run
      dsimp only at run
      rcases bind_eq_ok run with ⟨written, write, run⟩
      rcases bind_eq_ok run with ⟨_, bytesRead, run⟩
      rcases bind_eq_ok run with ⟨_, _, run⟩
      rcases bind_eq_ok run with ⟨_, same, run⟩
      cases run
      rw [raiseIf_eq_ok, not_or, not_not] at bytesRead
      rw [raiseIf_eq_ok, not_not] at same
      unfold Traversal.write at write
      rcases bind_eq_ok write with ⟨_, _, write⟩
      cases write
      refine ⟨rfl, rfl, ?_, fun _ => ?_, ?_⟩
      · simp [Visit.size]
      · change emission.copiedBytes + found.size ≤ maxPublicTreeBytes
        omega
      · intro visit member
        cases List.mem_singleton.mp member
        refine ⟨relative, nonempty, safe, within, ?_, fun none => nomatch none⟩
        intro other which
        cases which
        refine ⟨by omega, by omega, entry, expected, ?_⟩
        rw [← same]
        exact ⟨bytesRead.1, rfl⟩

theorem mem_sortedNames {names : List Bytes} {name : Bytes} :
    name ∈ sortedNames names ↔ name ∈ names := by
  simp [sortedNames, List.mem_insertionSort]

/-- A loop whose turns add their visits adds the visits of all its turns. -/
theorem foldlM_adds {traversal : Traversal} {step : Emission → Bytes → Except String Emission}
    {visits : Bytes → List Visit} {names : List Bytes} {emission final : Emission}
    (turn : ∀ name ∈ names, ∀ state next, step state name = .ok next →
      Adds traversal state next (visits name))
    (run : names.foldlM step emission = .ok final) :
    Adds traversal emission final (names.flatMap visits) := by
  induction names generalizing emission with
  | nil =>
      cases run
      exact Adds.refl traversal _
  | cons name rest ih =>
      rw [List.foldlM_cons] at run
      rcases bind_eq_ok run with ⟨next, stepped, run⟩
      have here := turn name List.mem_cons_self emission next stepped
      have behind := ih (fun other later => turn other (List.mem_cons_of_mem name later)) run
      exact here.trans behind

/-- A directory that is announced. -/
theorem write_directory_adds {traversal : Traversal} {path : PosixPath} {emission next : Emission}
    (write : traversal.write emission (archiveInfo (archivePath traversal.root path) 0 true true) = .ok next)
    (relative : path.root = []) (nonempty : path.names ≠ []) (safe : ∀ name ∈ path.names, SafeName name)
    (within : checkArchivePath traversal.root path = .ok ())
    (expected : path ∈ traversal.expectedDirectories) :
    Adds traversal emission next [{ path := path, found := none }] := by
  unfold Traversal.write at write
  rcases bind_eq_ok write with ⟨_, _, write⟩
  cases write
  refine ⟨rfl, (List.append_nil _).symm, (Int.add_zero _).symm, id, ?_⟩
  intro visit member
  cases List.mem_singleton.mp member
  exact ⟨relative, nonempty, safe, within, fun found some => (nomatch some), fun _ => expected⟩

/-- A successful traversal adds the objects below the directory, in the order of `walk`. -/
theorem archiveDirectory_adds {traversal : Traversal} {source : Source} {relative : PosixPath} {depth : Nat}
    {emission next : Emission} (run : archiveDirectory traversal source relative depth emission = .ok next)
    (isRelative : relative.root = []) (safe : ∀ name ∈ relative.names, SafeName name) :
    Adds traversal emission next (walk source relative) := by
  induction source generalizing relative depth emission next with
  | file observation => cases run
  | special => cases run
  | unreadable => cases run
  | directory names nodup child unchanged ih =>
      unfold archiveDirectory at run
      rcases bind_eq_ok run with ⟨_, _, run⟩
      rcases bind_eq_ok run with ⟨initialNames, listed, run⟩
      rcases bind_eq_ok run with ⟨final, loop, run⟩
      rcases bind_eq_ok run with ⟨_, _, run⟩
      cases run
      rcases archiveDirectoryNames_eq_ok listed with ⟨rfl, names_safe⟩
      unfold walk
      apply foldlM_adds _ loop
      intro name member state next step
      have childSafe : ∀ part ∈ (relative.child name).names, SafeName part := by
        intro part inside
        rcases List.mem_append.mp inside with above | last
        · exact safe part above
        · rw [List.mem_singleton.mp last]
          exact names_safe name (mem_sortedNames.mp member)
      have childNonempty : (relative.child name).names ≠ [] := List.append_ne_nil_of_right_ne_nil _ (by simp)
      rcases bind_eq_ok step with ⟨_, within, step⟩
      cases opened : child name with
      | file found =>
          rw [opened] at step
          exact archiveFile_adds step isRelative childNonempty childSafe within
      | directory inner innerNodup grandchild innerUnchanged =>
          rw [opened] at step
          rcases bind_eq_ok step with ⟨_, expected, step⟩
          rw [raiseIf_eq_ok, not_not] at expected
          rcases bind_eq_ok step with ⟨announced, write, step⟩
          have first := write_directory_adds write isRelative childNonempty childSafe within expected
          rw [← opened] at step
          have below := ih name step isRelative childSafe
          rw [opened] at below
          exact first.trans below
      | special =>
          rw [opened] at step
          cases step
      | unreadable =>
          rw [opened] at step
          cases step

/-- What a successful `add_tree` has checked and written. -/
structure Built (root : Bytes) (manifest : Manifest) (source : Source) (members : List TarHeader) : Prop where
  rootDecodes : DecodesStrictly root
  rootParts : root ≠ [] ∧ ∀ part ∈ splitSlashes root, part ∉ unsafeNames
  members : members = (walk source { root := [], names := [] }).map (Visit.header root)
  run : ∃ traversal final expectedDirectories, traversal.root = root ∧ traversal.expectedManifest = manifest ∧
    traversal.expectedDirectories = expectedDirectories ∧
    validateArchiveManifest manifest root = .ok expectedDirectories ∧
    Adds traversal { members := [], seenEntries := [], copiedBytes := 0 } final
      (walk source { root := [], names := [] }) ∧
    final.seenEntries ⊆ manifest.keys ∧ manifest.keys ⊆ final.seenEntries

/-- A successful `add_tree`. -/
theorem addTree_built {addfile : List TarHeader → TarHeader → Except String Unit} {source : Source}
    {root : Bytes} {manifest : Manifest} {rootUnchanged : Bool} {members : List TarHeader}
    (run : addTree addfile source root manifest rootUnchanged = .ok members) :
    Built root manifest source members := by
  unfold addTree at run
  rcases bind_eq_ok run with ⟨_, parts, run⟩
  rcases bind_eq_ok run with ⟨_, _, run⟩
  rcases bind_eq_ok run with ⟨_, decodes, run⟩
  rcases bind_eq_ok run with ⟨_, _, run⟩
  rcases bind_eq_ok run with ⟨expectedDirectories, validated, run⟩
  rcases bind_eq_ok run with ⟨final, traversed, run⟩
  rcases bind_eq_ok run with ⟨_, seen, run⟩
  rcases bind_eq_ok run with ⟨_, _, run⟩
  cases run
  rw [raiseIf_eq_ok, not_or] at parts
  rw [raiseIf_eq_ok, not_not] at decodes seen
  have adds := archiveDirectory_adds traversed rfl (fun name member => absurd member List.not_mem_nil)
  refine ⟨decodes, ⟨parts.1, fun part member isUnsafe => parts.2 ⟨part, member, isUnsafe⟩⟩, ?_, ?_⟩
  · rw [adds.members]
    rfl
  · exact ⟨_, final, expectedDirectories, rfl, rfl, rfl, validated, adds, seen.1, seen.2⟩

end ExitfyCores.Bundle.Builder
