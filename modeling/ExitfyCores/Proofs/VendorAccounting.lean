/-
Module: ExitfyCores.Proofs.VendorAccounting
Layer: Proofs
Purpose: The counters of `build_minimal_vendor` after any calls of its inner functions, and the totals of the manifest that
  `main` merges from the public files and the generated vendor.
Imports: ExitfyCores.Bundle.Vendor, ExitfyCores.Proofs.ManifestChecks, Mathlib.Algebra.Order.BigOperators.Group.List,
  Mathlib.Algebra.Order.Group.Nat, Mathlib.Data.List.Perm.Subperm
Trusted boundary: none
Main exports: Accounted, WithinManifestLimits, apply_accounted, buildMinimalVendor_accounted, archiveManifest_within,
  archiveManifest_counters
Open obligations: none
-/
import ExitfyCores.Bundle.Vendor
import ExitfyCores.Proofs.ManifestChecks
import Mathlib.Algebra.Order.BigOperators.Group.List
import Mathlib.Algebra.Order.Group.Nat
import Mathlib.Data.List.Perm.Subperm

namespace ExitfyCores.Bundle

/-- The prefixes of a relative path are the directories above it. -/
theorem partPrefixes_eq {path : PosixPath} (isRelative : path.root = []) :
    path.partPrefixes = Builder.ancestorPaths path := if_pos isRelative

namespace Builder

theorem sumPathBytes_eq (paths : List PosixPath) : sumPathBytes paths = pathBytes paths := rfl

theorem pathBytes_perm {first second : List PosixPath} (perm : first.Perm second) : pathBytes first = pathBytes second :=
  (perm.map _).sum_eq

/-- Paths without repetitions among others have no more bytes. -/
theorem pathBytes_le {first second : List PosixPath} (nodup : first.Nodup) (among : first ⊆ second) :
    pathBytes first ≤ pathBytes second := by
  rcases nodup.subperm among with ⟨chosen, perm, sublist⟩
  rw [← pathBytes_perm perm]
  exact (sublist.map _).sum_le_sum fun _ _ => Nat.zero_le _

/-! ### The counters -/

/-- The running counters equal their recomputation from the manifest, and no limit is exceeded. -/
structure Accounted (limits : VendorLimits) (state : VendorState) : Prop where
  bytes : state.vendorBytes = manifestBytes state.vendorManifest
  directories : state.vendorDirectories.Perm (manifestDirectories state.vendorManifest)
  retained : state.retainedPathBytes = manifestPathBytes state.vendorManifest
  bytesLimit : state.vendorBytes ≤ limits.maxTreeBytes
  filesLimit : state.vendorManifest.entries.length ≤ limits.maxFiles
  directoriesLimit : state.vendorDirectories.length ≤ limits.maxDirectories
  retainedLimit : state.retainedPathBytes ≤ limits.maxRetainedPathBytes

theorem Accounted.mem_directories {limits : VendorLimits} {state : VendorState} (accounted : Accounted limits state)
    {directory : PosixPath} :
    directory ∈ state.vendorDirectories ↔ ∃ key ∈ state.vendorManifest.keys, directory ∈ key.partPrefixes := by
  rw [accounted.directories.mem_iff, manifestDirectories, List.mem_dedup, List.mem_flatMap]

/-- `new_directories` -/
def newDirectories (state : VendorState) (key : PosixPath) : List PosixPath :=
  key.partPrefixes.dedup.filter (· ∉ state.vendorDirectories)

theorem mem_newDirectories {state : VendorState} {key directory : PosixPath} :
    directory ∈ newDirectories state key ↔ directory ∈ key.partPrefixes ∧ directory ∉ state.vendorDirectories := by
  rw [newDirectories, List.mem_filter, List.mem_dedup, decide_eq_true_iff]

theorem newDirectories_nodup (state : VendorState) (key : PosixPath) : (newDirectories state key).Nodup :=
  (List.nodup_dedup _).filter _

/-- What `record` leaves for a new path. -/
def recorded (state : VendorState) (key : PosixPath) (entry : ArchiveEntry) (fresh : key ∉ state.vendorManifest.keys) :
    VendorState where
  vendorManifest := Manifest.add state.vendorManifest key entry fresh
  vendorBytes := state.vendorBytes + entry.size
  retainedPathBytes := state.retainedPathBytes + (key.asPosix.length + pathBytes (newDirectories state key))
  vendorDirectories := state.vendorDirectories ++ newDirectories state key

/-- The limits that a new path has passed. -/
structure Admitted (limits : VendorLimits) (state : VendorState) (key : PosixPath) (entry : ArchiveEntry) : Prop where
  files : state.vendorManifest.entries.length < limits.maxFiles
  directories : state.vendorDirectories.length + (newDirectories state key).length ≤ limits.maxDirectories
  retained : state.retainedPathBytes + (key.asPosix.length + pathBytes (newDirectories state key)) ≤
    limits.maxRetainedPathBytes
  bytes : entry.size ≤ limits.maxTreeBytes - state.vendorBytes

/-- All that `record` does: nothing for a path that it knows, one entry with its directories for another. -/
theorem record_cases {limits : VendorLimits} {manifestPrefix relative : PosixPath} {state next : VendorState}
    {entry : ArchiveEntry} (run : record limits manifestPrefix state relative entry = .ok next) :
    (next = state ∧ state.vendorManifest.get (manifestPrefix.join relative) = some entry) ∨
      ∃ fresh : manifestPrefix.join relative ∉ state.vendorManifest.keys,
        Admitted limits state (manifestPrefix.join relative) entry ∧
          next = recorded state (manifestPrefix.join relative) entry fresh := by
  unfold record checkedKey at run
  by_cases known : manifestPrefix.join relative ∈ state.vendorManifest.keys
  · rw [if_pos known] at run
    simp only [pure_bind, dif_pos known, check_bind_eq_ok, raiseIf_eq_ok, not_not, pure_eq_ok] at run
    exact Or.inl ⟨run.2.symm, run.1⟩
  · rw [if_neg known] at run
    simp only [bind_assoc, pure_bind, dif_neg known, check_bind_eq_ok, raiseIf_eq_ok, pure_eq_ok, not_lt, not_le] at run
    rcases run with ⟨_, _, _, files, directories, retained, bytes, rfl⟩
    exact Or.inr ⟨known, ⟨files, directories, retained, bytes⟩, rfl⟩

theorem manifestBytes_add {manifest : Manifest} {key : PosixPath} {entry : ArchiveEntry} (fresh : key ∉ manifest.keys) :
    manifestBytes (Manifest.add manifest key entry fresh) = manifestBytes manifest + entry.size := by
  simp [manifestBytes, Manifest.add]

theorem keys_add {manifest : Manifest} {key : PosixPath} {entry : ArchiveEntry} (fresh : key ∉ manifest.keys) :
    (Manifest.add manifest key entry fresh).keys = manifest.keys ++ [key] := by
  simp [Manifest.add, Dict.keys]

/-- The directories of a new path that are not there yet are the only new ones. -/
theorem directories_recorded {limits : VendorLimits} {state : VendorState} (accounted : Accounted limits state)
    {key : PosixPath} (entry : ArchiveEntry) (fresh : key ∉ state.vendorManifest.keys) :
    (state.vendorDirectories ++ newDirectories state key).Perm
      (manifestDirectories (Manifest.add state.vendorManifest key entry fresh)) := by
  have earlier : state.vendorDirectories.Nodup := accounted.directories.nodup_iff.mpr (List.nodup_dedup _)
  have nodup : (state.vendorDirectories ++ newDirectories state key).Nodup := by
    apply earlier.append (newDirectories_nodup state key)
    intro directory known isNew
    exact (mem_newDirectories.mp isNew).2 known
  apply (List.perm_ext_iff_of_nodup nodup (List.nodup_dedup _)).mpr
  intro directory
  rw [List.mem_dedup, keys_add, List.flatMap_append, List.mem_append, List.mem_append, List.flatMap_singleton,
    mem_newDirectories, accounted.mem_directories, List.mem_flatMap]
  by_cases known : ∃ other ∈ state.vendorManifest.keys, directory ∈ other.partPrefixes
  · simp [known]
  · simp [known]

/-- One new path keeps the accounting. -/
theorem recorded_accounted {limits : VendorLimits} {state : VendorState} (accounted : Accounted limits state)
    {key : PosixPath} {entry : ArchiveEntry} (fresh : key ∉ state.vendorManifest.keys)
    (admitted : Admitted limits state key entry) : Accounted limits (recorded state key entry fresh) := by
  have directories := directories_recorded accounted entry fresh
  refine ⟨?_, directories, ?_, ?_, ?_, ?_, admitted.retained⟩
  · rw [recorded, manifestBytes_add, accounted.bytes]
  · have paths := pathBytes_perm directories
    have earlier := pathBytes_perm accounted.directories
    rw [pathBytes_append] at paths
    change state.retainedPathBytes + _ = _
    rw [accounted.retained]
    simp only [manifestPathBytes, sumPathBytes_eq, recorded, keys_add, pathBytes_append, pathBytes_singleton, ← paths,
      ← earlier]
    ac_rfl
  · have bytes := admitted.bytes
    change state.vendorBytes + entry.size ≤ limits.maxTreeBytes
    omega
  · have files := admitted.files
    change ((state.vendorManifest.entries ++ [(key, entry)]).length : Int) ≤ limits.maxFiles
    rw [List.length_append, List.length_singleton, Int.natCast_add]
    exact files
  · change ((state.vendorDirectories ++ newDirectories state key).length : Int) ≤ limits.maxDirectories
    rw [List.length_append, Int.natCast_add]
    exact admitted.directories

theorem record_accounted {limits : VendorLimits} {manifestPrefix relative : PosixPath} {state next : VendorState}
    {entry : ArchiveEntry} (accounted : Accounted limits state)
    (run : record limits manifestPrefix state relative entry = .ok next) : Accounted limits next := by
  rcases record_cases run with ⟨rfl, _⟩ | ⟨fresh, admitted, rfl⟩
  · exact accounted
  · exact recorded_accounted accounted fresh admitted

/-- One call keeps the accounting. -/
theorem apply_accounted {limits : VendorLimits} {manifestPrefix : PosixPath} {state next : VendorState}
    {operation : Operation} (accounted : Accounted limits state)
    (run : Operation.apply limits manifestPrefix state operation = .ok next) : Accounted limits next := by
  cases operation with
  | record relative entry => exact record_accounted accounted run
  | copyAndRecord relative copyFile =>
      rcases bind_eq_ok run with ⟨_, _, run⟩
      rcases bind_eq_ok run with ⟨entry, _, run⟩
      exact record_accounted accounted run

theorem emptyVendor_accounted {limits : VendorLimits}
    (valid : ¬ (limits.maxTreeBytes < 0 ∨ limits.maxFiles < 0 ∨ limits.maxDirectories < 0 ∨
      limits.maxRetainedPathBytes < 0)) : Accounted limits emptyVendor := by
  simp only [not_or, Int.not_lt] at valid
  rcases valid with ⟨bytes, files, directories, retained⟩
  exact ⟨rfl, .refl _, rfl, bytes, files, directories, retained⟩

/-- Any calls keep the accounting. -/
theorem buildMinimalVendor_accounted {limits : VendorLimits} {manifestPrefix : PosixPath} {operations : List Operation}
    {state : VendorState} (run : buildMinimalVendor limits manifestPrefix operations = .ok state) :
    Accounted limits state := by
  rcases check_bind_eq_ok.mp run with ⟨valid, run⟩
  exact foldlM_done (fun _ => Accounted limits) (fun _ _ _ _ => apply_accounted)
    (emptyVendor_accounted (raiseIf_eq_ok.mp valid)) run

/-! ### The merged manifest -/

/-- The totals that `validate_archive_manifest` limits. -/
structure WithinManifestLimits (manifest : Manifest) : Prop where
  files : manifest.entries.length ≤ maxArchiveFiles
  directories : (manifestDirectories manifest).length ≤ maxArchiveDirectories
  bytes : manifestBytes manifest ≤ maxPublicTreeBytes
  retained : manifestPathBytes manifest ≤ maxRetainedPathBytes

theorem keys_merge {first second : Manifest} (apart : ∀ key ∈ first.keys, key ∉ second.keys) :
    (Manifest.merge first second apart).keys = first.keys ++ second.keys := List.map_append

/-- A shared directory counts once, so that the union has at most the directories of both. -/
theorem directories_merge {first second : Manifest} (apart : ∀ key ∈ first.keys, key ∉ second.keys) :
    manifestDirectories (Manifest.merge first second apart) ⊆ manifestDirectories first ++ manifestDirectories second := by
  intro directory member
  rw [manifestDirectories, List.mem_dedup, keys_merge, List.flatMap_append, List.mem_append] at member
  rw [List.mem_append, manifestDirectories, manifestDirectories, List.mem_dedup, List.mem_dedup]
  exact member

/-- Limits that are what the public manifest leaves over bound the union. -/
theorem merge_within {publicManifest : Manifest} {limits : VendorLimits} {state : VendorState}
    (left : vendorLimits publicManifest = .ok limits) (accounted : Accounted limits state)
    (apart : ∀ key ∈ publicManifest.keys, key ∉ state.vendorManifest.keys) :
    WithinManifestLimits (Manifest.merge publicManifest state.vendorManifest apart) := by
  rcases check_bind_eq_ok.mp left with ⟨_, left⟩
  cases left
  have files := accounted.filesLimit
  have directories := accounted.directoriesLimit
  have bytes := accounted.bytesLimit
  have retained := accounted.retainedLimit
  rw [accounted.directories.length_eq] at directories
  rw [accounted.bytes] at bytes
  rw [accounted.retained] at retained
  dsimp only at files directories bytes retained
  have union := directories_merge apart
  have nodup : (manifestDirectories (Manifest.merge publicManifest state.vendorManifest apart)).Nodup :=
    List.nodup_dedup _
  refine ⟨?_, ?_, ?_, ?_⟩
  · change (publicManifest.entries ++ state.vendorManifest.entries).length ≤ maxArchiveFiles
    rw [List.length_append]
    omega
  · have count := (nodup.subperm union).length_le
    rw [List.length_append] at count
    omega
  · have sum : manifestBytes (Manifest.merge publicManifest state.vendorManifest apart) =
        manifestBytes publicManifest + manifestBytes state.vendorManifest := by
      simp [manifestBytes, Manifest.merge]
    rw [sum]
    omega
  · have paths := pathBytes_le nodup union
    rw [pathBytes_append] at paths
    simp only [manifestPathBytes, sumPathBytes_eq, keys_merge, pathBytes_append] at retained ⊢
    omega

theorem archiveManifest_within {publicManifest merged : Manifest} {manifestPrefix : PosixPath}
    {operations : List Operation} (run : archiveManifest publicManifest manifestPrefix operations = .ok merged) :
    WithinManifestLimits merged := by
  rcases bind_eq_ok run with ⟨limits, left, run⟩
  rcases bind_eq_ok run with ⟨state, built, run⟩
  split at run
  · cases run
    exact merge_within left (buildMinimalVendor_accounted built) _
  · cases run

/-! ### The check of the merged manifest -/

/-- The errors of `validate_archive_manifest` that are about one path or one entry. -/
def entryMessages : List String :=
  ["surrogates not allowed", "source archive manifest path is unsafe", "source archive manifest entry is invalid"]

theorem keys_append_mem {manifest : Manifest} {done rest : List (PosixPath × ArchiveEntry)}
    (all : done ++ rest = manifest.entries) : done.map Prod.fst ++ rest.map Prod.fst = manifest.keys := by
  rw [← List.map_append, all]
  rfl

/-- Directories that are above paths of the manifest are no more than all of its directories. -/
theorem directories_among (manifest : Manifest) {directories : List PosixPath} (nodup : directories.Nodup)
    (above : ∀ directory ∈ directories, ∃ key ∈ manifest.keys, directory ∈ key.partPrefixes) :
    directories.length ≤ (manifestDirectories manifest).length ∧
      pathBytes directories ≤ pathBytes (manifestDirectories manifest) := by
  have among : directories ⊆ manifestDirectories manifest := by
    intro directory member
    rw [manifestDirectories, List.mem_dedup, List.mem_flatMap]
    exact above directory member
  exact ⟨(nodup.subperm among).length_le, pathBytes_le nodup among⟩

theorem raiseIf_raises {kind : String → Prop} {condition : Prop} [Decidable condition] {message : String}
    (allowed : kind message) : RaisesOnly kind (raiseIf condition message) := RaisesOnly.throwIf allowed

section Checked

variable {root : Bytes} {manifest : Manifest} (within : WithinManifestLimits manifest)

include within

/-- Within the limits, the turn for one directory raises nothing. -/
theorem expectDirectory_raises {before scan : ManifestScan} {done keys : List PosixPath} {directory : PosixPath}
    {kind : String → Prop} (scanned : AncestorsScanned before done scan) (among : keys.Sublist manifest.keys)
    (retained : before.retainedPathBytes = pathBytes keys + pathBytes before.expectedDirectories)
    (known : ∀ other ∈ before.expectedDirectories, ∃ key ∈ manifest.keys, other ∈ key.partPrefixes)
    (above : ∀ other ∈ done ++ [directory], ∃ key ∈ manifest.keys, other ∈ key.partPrefixes) :
    RaisesOnly kind (expectDirectory scan directory) := by
  unfold expectDirectory
  by_cases seen : directory ∈ scan.expectedDirectories
  · rw [if_pos seen]
    exact .ok scan
  have nodup : (scan.expectedDirectories ++ [directory]).Nodup :=
    scanned.nodup.append (List.nodup_singleton directory) (List.disjoint_singleton.mpr seen)
  have bounds := directories_among manifest nodup ?_
  · have keyBytes : pathBytes keys ≤ pathBytes manifest.keys :=
      (among.map _).sum_le_sum fun _ _ => Nat.zero_le _
    have count := within.directories
    have bytes := within.retained
    have sum := scanned.retained
    rw [pathBytes_append, pathBytes_singleton] at bounds
    rw [manifestPathBytes, sumPathBytes_eq, sumPathBytes_eq] at bytes
    have directories : ¬ maxArchiveDirectories < (scan.expectedDirectories ++ [directory]).length := by omega
    have paths : ¬ maxRetainedPathBytes < scan.retainedPathBytes + directory.asPosix.length := by omega
    rw [if_neg seen]
    simp only [raiseIf_eq_ok.mpr directories, raiseIf_eq_ok.mpr paths, ok_bind]
    exact .ok _
  · intro other member
    rcases List.mem_append.mp member with earlier | last
    · rcases (scanned.expected other).mp earlier with older | older
      · exact known other older
      · exact above other (List.mem_append_left _ older)
    · exact above other (List.mem_append_right _ last)

/-- Within the limits, the turn for one entry raises only what is wrong with that entry. -/
theorem validateManifestEntry_raises {done rest : List (PosixPath × ArchiveEntry)} {item : PosixPath × ArchiveEntry}
    {scan : ManifestScan} (sizes : ∀ entry ∈ manifest.entries, 0 ≤ entry.2.size)
    (all : done ++ item :: rest = manifest.entries) (scanned : ManifestScanned root done scan) :
    RaisesOnly (· ∈ entryMessages) (validateManifestEntry root scan item) := by
  unfold validateManifestEntry
  dsimp only
  refine RaisesOnly.bind (raiseIf_raises (by decide)) ?_
  intro _ _
  refine RaisesOnly.bind (raiseIf_raises (by decide)) ?_
  intro _ path
  refine RaisesOnly.bind (raiseIf_raises (by decide)) ?_
  intro _ _
  rw [raiseIf_eq_ok] at path
  simp only [not_or, not_not] at path
  have isRelative : item.1.root = [] := path.2.1
  have payload : ¬ maxPublicTreeBytes < scan.payloadBytes + item.2.size := by
    have later : 0 ≤ (rest.map fun entry => entry.2.size).sum := by
      apply List.sum_nonneg
      intro size member
      rcases List.mem_map.mp member with ⟨entry, inRest, rfl⟩
      apply sizes entry
      rw [← all]
      exact List.mem_append_right _ (List.mem_cons_of_mem item inRest)
    have total := within.bytes
    rw [manifestBytes, ← all, List.map_append, List.sum_append, List.map_cons, List.sum_cons,
      ← scanned.payload] at total
    omega
  have keys : (done.map Prod.fst ++ [item.1]).Sublist manifest.keys := by
    rw [← keys_append_mem all, List.map_cons]
    exact List.Sublist.append_left (List.singleton_sublist.mpr List.mem_cons_self) _
  have known : ∀ other ∈ scan.expectedDirectories, ∃ key ∈ manifest.keys, other ∈ key.partPrefixes := by
    intro other member
    rcases (scanned.expected other).mp member with ⟨entry, inDone, above⟩
    refine ⟨entry.1, keys.subset (List.mem_append_left _ (List.mem_map_of_mem inDone)), ?_⟩
    rw [partPrefixes_eq (scanned.checked entry inDone).relative]
    exact above
  have retained : ¬ maxRetainedPathBytes < scan.retainedPathBytes + item.1.asPosix.length := by
    have bounds := (directories_among manifest scanned.nodup known).2
    have keyBytes : pathBytes (done.map Prod.fst ++ [item.1]) ≤ pathBytes manifest.keys :=
      (keys.map _).sum_le_sum fun _ _ => Nat.zero_le _
    have bytes := within.retained
    have sum := scanned.retained
    rw [pathBytes_append, pathBytes_singleton] at keyBytes
    rw [manifestPathBytes, sumPathBytes_eq, sumPathBytes_eq] at bytes
    omega
  simp only [raiseIf_eq_ok.mpr payload, raiseIf_eq_ok.mpr retained, ok_bind]
  have start := scanned.ancestors_start (scan.payloadBytes + item.2.size) (Nat.le_of_not_lt retained)
  refine RaisesOnly.foldlM_done (AncestorsScanned _) (fun _ _ _ _ => expectDirectory_scanned) ?_ start
  intro ancestors directory others state inOrder reached
  refine expectDirectory_raises within reached keys ?_ known ?_
  · dsimp only
    rw [pathBytes_append, pathBytes_singleton, scanned.retained]
    omega
  · intro other member
    refine ⟨item.1, keys.subset (List.mem_append_right _ (List.mem_singleton_self _)), ?_⟩
    rw [partPrefixes_eq isRelative, ← inOrder, List.append_cons]
    exact List.mem_append_left _ member

/-- A manifest within the limits fails its check for one of its paths or entries, or not at all. -/
theorem validateArchiveManifest_raises (sizes : ∀ entry ∈ manifest.entries, 0 ≤ entry.2.size) :
    RaisesOnly (· ∈ entryMessages) (validateArchiveManifest manifest root) := by
  unfold validateArchiveManifest
  rw [raiseIf_eq_ok.mpr (Nat.not_lt.mpr within.files), ok_bind]
  refine RaisesOnly.bind ?_ ?_
  · exact RaisesOnly.foldlM_done (ManifestScanned root) (fun _ _ _ _ => validateManifestEntry_scanned)
      (fun _ _ _ _ all scanned => validateManifestEntry_raises within sizes all scanned) (manifestScanned_start root)
  · exact fun scan _ => .ok _

end Checked

/-- The counters after any calls, and the merged manifest with them: it meets every aggregate limit that
`validate_archive_manifest` checks, so that this check can only find fault with one path or one entry. -/
theorem archiveManifest_counters :
    (∀ limits manifestPrefix operations state,
      buildMinimalVendor limits manifestPrefix operations = .ok state → Accounted limits state) ∧
    ∀ publicManifest manifestPrefix operations merged,
      archiveManifest publicManifest manifestPrefix operations = .ok merged →
        WithinManifestLimits merged ∧
          ((∀ item ∈ merged.entries, 0 ≤ item.2.size) →
            ∀ root, RaisesOnly (· ∈ entryMessages) (validateArchiveManifest merged root)) := by
  constructor
  · intro limits manifestPrefix operations state built
    exact buildMinimalVendor_accounted built
  · intro publicManifest manifestPrefix operations merged run
    have within := archiveManifest_within run
    exact ⟨within, fun sizes root => validateArchiveManifest_raises within sizes⟩

-- two files share a directory, and one of them comes twice: the directories `m`, `m/vendor` and `m/vendor/a` count once
example :
    ((buildMinimalVendor
      { maxTreeBytes := 9, maxFiles := 2, maxDirectories := 3, maxRetainedPathBytes := 64 }
      (posixPath (lit "m/vendor"))
      [.record (posixPath (lit "a/x")) { sha256 := [], size := 4, mode := 0o644 },
        .copyAndRecord (posixPath (lit "a/y")) fun limit => .ok { sha256 := [], size := limit, mode := 0o644 },
        .record (posixPath (lit "a/x")) { sha256 := [], size := 4, mode := 0o644 }]).toOption.map fun state =>
          (state.vendorBytes, state.retainedPathBytes, state.vendorDirectories.length)) = some (9, 43, 3) := by
  decide

end Builder

end ExitfyCores.Bundle
