/-
Module: ExitfyCores.Proofs.ManifestChecks
Layer: Proofs
Purpose: What `validate_archive_manifest` has checked when it succeeds, and the directories it expects.
Imports: ExitfyCores.Bundle.Builder, Mathlib.Algebra.BigOperators.Group.List.Basic, Mathlib.Algebra.Ring.Int.Defs
Trusted boundary: none
Main exports: EntryChecked, ManifestScanned, validateArchiveManifest_scanned, mem_ancestorPaths
Open obligations: none
-/
import ExitfyCores.Bundle.Builder
import Mathlib.Algebra.BigOperators.Group.List.Basic
import Mathlib.Algebra.Ring.Int.Defs

namespace ExitfyCores.Bundle.Builder

/-- The bytes of some paths. -/
def pathBytes (paths : List PosixPath) : Nat := (paths.map fun path => path.asPosix.length).sum

theorem pathBytes_append (first second : List PosixPath) :
    pathBytes (first ++ second) = pathBytes first + pathBytes second := by
  rw [pathBytes, List.map_append, List.sum_append]
  rfl

theorem pathBytes_singleton (path : PosixPath) : pathBytes [path] = path.asPosix.length := by
  rw [pathBytes, List.map_singleton, List.sum_singleton]

/-- The directories on the way to a path. -/
theorem mem_ancestorPaths {directory path : PosixPath} :
    directory ∈ ancestorPaths path ↔
      directory.root = [] ∧ directory.names ≠ [] ∧ directory.names <+: path.names ∧
        directory.names.length < path.names.length := by
  rw [ancestorPaths, List.mem_map]
  constructor
  · rintro ⟨index, range, rfl⟩
    have bounds := List.mem_range'_1.mp range
    have length : (path.names.take index).length = index := by
      rw [List.length_take]
      omega
    refine ⟨rfl, ?_, List.take_prefix index path.names, ?_⟩
    · intro empty
      have zero := congrArg List.length empty
      dsimp only at zero
      rw [length, List.length_nil] at zero
      omega
    · dsimp only
      rw [length]
      omega
  · rintro ⟨isRelative, nonempty, isPrefix, shorter⟩
    have positive := List.length_pos_of_ne_nil nonempty
    refine ⟨directory.names.length, List.mem_range'_1.mpr (by omega), ?_⟩
    rcases directory with ⟨root, names⟩
    cases isRelative
    exact congrArg (PosixPath.mk []) (List.prefix_iff_eq_take.mp isPrefix).symm

/-- The checks that an entry of the manifest has passed. -/
structure EntryChecked (root : Bytes) (item : PosixPath × ArchiveEntry) : Prop where
  relative : item.1.root = []
  nonempty : item.1.names ≠ []
  depth : item.1.names.length ≤ 128
  safe : ∀ part ∈ item.1.names, part ∉ unsafeNames
  value : item.1.asPosix.length ≤ maxArchivePathBytes
  prefixed : (archivePath root item.1).length ≤ maxArchivePathBytes
  size : 0 ≤ item.2.size ∧ item.2.size ≤ maxPublicFileBytes
  mode : item.2.mode = 0o644 ∨ item.2.mode = 0o755

/-- What is known after some entries of the manifest. -/
structure ManifestScanned (root : Bytes) (done : List (PosixPath × ArchiveEntry)) (scan : ManifestScan) : Prop where
  checked : ∀ item ∈ done, EntryChecked root item
  payload : scan.payloadBytes = (done.map fun item => item.2.size).sum
  payloadBound : scan.payloadBytes ≤ maxPublicTreeBytes
  retained : scan.retainedPathBytes = pathBytes (done.map Prod.fst) + pathBytes scan.expectedDirectories
  retainedBound : scan.retainedPathBytes ≤ maxRetainedPathBytes
  nodup : scan.expectedDirectories.Nodup
  expected : ∀ directory, directory ∈ scan.expectedDirectories ↔
    ∃ item ∈ done, directory ∈ ancestorPaths item.1
  directories : scan.expectedDirectories.length ≤ maxArchiveDirectories

/-- What the loop over the ancestors of one path keeps, after the ancestors `done`. -/
structure AncestorsScanned (before : ManifestScan) (done : List PosixPath) (scan : ManifestScan) : Prop where
  payload : scan.payloadBytes = before.payloadBytes
  retained : scan.retainedPathBytes + pathBytes before.expectedDirectories =
    before.retainedPathBytes + pathBytes scan.expectedDirectories
  retainedBound : scan.retainedPathBytes ≤ maxRetainedPathBytes
  nodup : scan.expectedDirectories.Nodup
  expected : ∀ directory, directory ∈ scan.expectedDirectories ↔
    directory ∈ before.expectedDirectories ∨ directory ∈ done
  directories : scan.expectedDirectories.length ≤ maxArchiveDirectories

/-- Before the first ancestor of an entry whose size and path are counted. -/
theorem ManifestScanned.ancestors_start {root : Bytes} {done : List (PosixPath × ArchiveEntry)} {scan : ManifestScan}
    (scanned : ManifestScanned root done scan) (payload : Int) {retained : Nat} (bound : retained ≤ maxRetainedPathBytes) :
    AncestorsScanned { scan with payloadBytes := payload, retainedPathBytes := retained } []
      { scan with payloadBytes := payload, retainedPathBytes := retained } :=
  ⟨rfl, rfl, bound, scanned.nodup, fun _ => (or_iff_left List.not_mem_nil).symm, scanned.directories⟩

theorem expectDirectory_scanned {before scan next : ManifestScan} {done : List PosixPath} {directory : PosixPath}
    (scanned : AncestorsScanned before done scan) (step : expectDirectory scan directory = .ok next) :
    AncestorsScanned before (done ++ [directory]) next := by
  unfold expectDirectory at step
  by_cases known : directory ∈ scan.expectedDirectories
  · rw [if_pos known] at step
    cases step
    refine ⟨scanned.payload, scanned.retained, scanned.retainedBound, scanned.nodup, ?_, scanned.directories⟩
    intro other
    rw [List.mem_append, List.mem_singleton, ← or_assoc, ← scanned.expected]
    constructor
    · exact Or.inl
    · rintro (member | rfl)
      · exact member
      · exact known
  · rw [if_neg known] at step
    rcases bind_eq_ok step with ⟨_, directories, step⟩
    rcases bind_eq_ok step with ⟨_, retained, step⟩
    cases step
    rw [raiseIf_eq_ok, Nat.not_lt] at directories retained
    refine ⟨scanned.payload, ?_, retained, ?_, ?_, directories⟩
    · dsimp only
      rw [pathBytes_append, pathBytes_singleton, ← Nat.add_assoc, ← scanned.retained]
      omega
    · apply List.Nodup.append scanned.nodup (List.nodup_singleton directory)
      exact List.disjoint_singleton.mpr known
    · intro other
      rw [List.mem_append, List.mem_append, scanned.expected, or_assoc]

/-- One entry of the manifest. -/
theorem validateManifestEntry_scanned {root : Bytes} {done : List (PosixPath × ArchiveEntry)}
    {item : PosixPath × ArchiveEntry} {scan next : ManifestScan} (scanned : ManifestScanned root done scan)
    (step : validateManifestEntry root scan item = .ok next) : ManifestScanned root (done ++ [item]) next := by
  unfold validateManifestEntry at step
  rcases bind_eq_ok step with ⟨_, _, step⟩
  rcases bind_eq_ok step with ⟨_, path, step⟩
  rcases bind_eq_ok step with ⟨_, entry, step⟩
  rcases bind_eq_ok step with ⟨_, payload, step⟩
  rcases bind_eq_ok step with ⟨_, retained, step⟩
  rw [raiseIf_eq_ok] at path entry payload retained
  simp only [not_or, not_not, Nat.not_lt, not_exists, not_and] at path entry
  rcases path with ⟨nonempty, isRelative, depth, safe, value, prefixed⟩
  have parts : item.1.parts = item.1.names := if_pos isRelative
  rw [parts] at nonempty depth safe
  have checked : EntryChecked root item :=
    { relative := isRelative
      nonempty := nonempty
      depth := depth
      safe := safe
      value := value
      prefixed := prefixed
      size := ⟨by omega, by omega⟩
      mode := by omega }
  have start := scanned.ancestors_start (scan.payloadBytes + item.2.size) (Nat.le_of_not_lt retained)
  have ancestors := foldlM_done (AncestorsScanned _) (fun _ _ _ _ => expectDirectory_scanned) start step
  refine ⟨?_, ?_, ?_, ?_, ancestors.retainedBound, ancestors.nodup, ?_, ancestors.directories⟩
  · intro other member
    rcases List.mem_append.mp member with earlier | last
    · exact scanned.checked other earlier
    · rw [List.mem_singleton.mp last]
      exact checked
  · rw [ancestors.payload, List.map_append, List.sum_append, ← scanned.payload]
    simp
  · rw [ancestors.payload]
    exact Int.not_lt.mp payload
  · have sum := ancestors.retained
    dsimp only at sum
    rw [scanned.retained] at sum
    rw [List.map_append, pathBytes_append, List.map_singleton, pathBytes_singleton]
    omega
  · intro directory
    rw [ancestors.expected, scanned.expected]
    constructor
    · rintro (⟨other, earlier, above⟩ | above)
      · exact ⟨other, List.mem_append_left _ earlier, above⟩
      · exact ⟨item, List.mem_append_right _ (List.mem_singleton_self item), above⟩
    · rintro ⟨other, member, above⟩
      rcases List.mem_append.mp member with earlier | last
      · exact Or.inl ⟨other, earlier, above⟩
      · rw [List.mem_singleton.mp last] at above
        exact Or.inr above

/-- Before the first entry. -/
theorem manifestScanned_start (root : Bytes) :
    ManifestScanned root [] { retainedPathBytes := 0, payloadBytes := 0, expectedDirectories := [] } := by
  refine ⟨?_, rfl, by decide, rfl, Nat.zero_le _, List.nodup_nil, ?_, Nat.zero_le _⟩
  · exact fun item member => absurd member List.not_mem_nil
  · intro directory
    refine iff_of_false List.not_mem_nil ?_
    rintro ⟨item, member, _⟩
    exact absurd member List.not_mem_nil

/-- What a manifest has passed when it is accepted. -/
theorem validateArchiveManifest_scanned {manifest : Manifest} {root : Bytes} {expected : List PosixPath}
    (validated : validateArchiveManifest manifest root = .ok expected) :
    manifest.entries.length ≤ maxArchiveFiles ∧
      ∃ scan, scan.expectedDirectories = expected ∧ ManifestScanned root manifest.entries scan := by
  unfold validateArchiveManifest at validated
  rcases bind_eq_ok validated with ⟨_, count, validated⟩
  rcases bind_eq_ok validated with ⟨scan, run, validated⟩
  cases validated
  rw [raiseIf_eq_ok, Nat.not_lt] at count
  exact ⟨count, scan, rfl,
    foldlM_done (ManifestScanned root) (fun _ _ _ _ => validateManifestEntry_scanned) (manifestScanned_start root) run⟩

end ExitfyCores.Bundle.Builder
