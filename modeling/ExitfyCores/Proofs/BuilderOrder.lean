/-
Module: ExitfyCores.Proofs.BuilderOrder
Layer: Proofs
Purpose: The order of the members. The builder's depth-first traversal emits the canonical sequence of the files of
  its manifest, which is what the auditor's one-pass check accepts.
Imports: ExitfyCores.Proofs.BuilderHeaders, ExitfyCores.Proofs.ManifestChecks, ExitfyCores.Proofs.TopologyCheck
Trusted boundary: none
Main exports: posixPath_archivePath, walk_sorted, walk_ancestors, Built.canonical, canonicalOrder
Open obligations: none
-/
import ExitfyCores.Proofs.BuilderHeaders
import ExitfyCores.Proofs.ManifestChecks
import ExitfyCores.Proofs.TopologyCheck

namespace ExitfyCores.Bundle.Builder

open PathOrder

/-! ### Names and paths -/

/-- A prefix of one component. -/
structure SingleComponent (root : Bytes) : Prop where
  slash : byte '/' ∉ root
  part : root ∉ unsafeNames

/-- The name that the builder writes is the path that the auditor takes it for. -/
theorem posixPath_archivePath {root : Bytes} {relative : PosixPath} (single : SingleComponent root)
    (isRelative : relative.root = []) (nonempty : relative.names ≠ [])
    (safe : ∀ name ∈ relative.names, SafeName name) :
    posixPath (archivePath root relative) = { root := [], names := root :: relative.names } := by
  have parts : relative.parts ≠ [] := by
    rw [PosixPath.parts, if_pos isRelative]
    exact nonempty
  have joined : archivePath root relative = [byte '/'].intercalate (root :: relative.names) := by
    rw [archivePath, PosixPath.asPosix, if_neg parts, isRelative, List.nil_append,
      List.intercalate_cons_of_ne_nil nonempty]
  have split : splitSlashes (archivePath root relative) = root :: relative.names := by
    rw [joined]
    apply List.splitOn_intercalate
    · intro part member
      rcases List.mem_cons.mp member with rfl | below
      · exact single.slash
      · exact (safe part below).slash
    · exact List.cons_ne_nil _ _
  have kept : ∀ part ∈ root :: relative.names, decide (part ≠ [] ∧ part ≠ lit ".") = true := by
    intro part member
    have notUnsafe : part ∉ unsafeNames := by
      rcases List.mem_cons.mp member with rfl | below
      · exact single.part
      · exact (safe part below).part
    exact decide_eq_true ⟨fun empty => notUnsafe (empty ▸ List.mem_cons_self),
      fun dot => notUnsafe (dot ▸ List.mem_cons_of_mem _ List.mem_cons_self)⟩
  have noSlashes : (archivePath root relative).takeWhile (· = byte '/') = [] := by
    rcases root with _ | ⟨b, rest⟩
    · exact absurd List.mem_cons_self single.part
    · have different : b ≠ byte '/' := fun same => single.slash (same ▸ List.mem_cons_self)
      exact List.takeWhile_cons_of_neg (by simpa using different)
  rw [posixPath, noSlashes, split, List.filter_eq_self.mpr kept]
  rfl

/-- The names of a listing, sorted: a name comes once. -/
theorem pairwise_sortedNames {names : List Bytes} (nodup : names.Nodup) :
    ((sortedNames names).map Str.mk).Pairwise (· < ·) := by
  have back : (sortedNames names).map Str.mk = (names.map Str.mk).insertionSort (· ≤ ·) := by
    rw [sortedNames, List.map_map]
    exact List.map_id _
  have distinct : ((names.map Str.mk).insertionSort (· ≤ ·)).Nodup := by
    rw [(List.perm_insertionSort (· ≤ ·) _).nodup_iff]
    exact nodup.map fun first second same => congrArg Str.bytes same
  rw [back]
  exact (List.Pairwise.and (List.pairwise_insertionSort (· ≤ ·) _) distinct).imp
    fun both => lt_of_le_of_ne both.1 both.2

/-! ### The traversal -/

/-- The names on the way to a visited object. -/
def Visit.names (visit : Visit) : Parts := visit.path.names.map Str.mk

/-- What is visited for one name of a directory. -/
def visitsOf (child : Bytes → Source) (relative : PosixPath) (name : Bytes) : List Visit :=
  match child name with
  | .file found => [{ path := relative.child name, found := some found }]
  | .directory _ _ _ _ =>
      { path := relative.child name, found := none } :: walk (child name) (relative.child name)
  | .special => []
  | .unreadable => []

theorem walk_directory (names : List Bytes) (nodup : names.Nodup) (child : Bytes → Source) (unchanged : Bool)
    (relative : PosixPath) :
    walk (.directory names nodup child unchanged) relative =
      (sortedNames names).flatMap (visitsOf child relative) := by
  rw [walk]
  rfl

/-- What is visited for a name is the object itself, or below it when it is a directory. -/
theorem mem_visitsOf {child : Bytes → Source} {relative : PosixPath} {name : Bytes} {visit : Visit}
    (visited : visit ∈ visitsOf child relative name) :
    visit.path = relative.child name ∨
      { path := relative.child name, found := none } ∈ visitsOf child relative name ∧
        visit ∈ walk (child name) (relative.child name) := by
  unfold visitsOf at visited ⊢
  cases opened : child name with
  | file found =>
      rw [opened] at visited
      cases List.mem_singleton.mp visited
      exact Or.inl rfl
  | directory inner innerNodup grandchild innerUnchanged =>
      rw [opened] at visited
      rcases List.mem_cons.mp visited with rfl | deeper
      · exact Or.inl rfl
      · exact Or.inr ⟨List.mem_cons_self, deeper⟩
  | special =>
      rw [opened] at visited
      exact absurd visited List.not_mem_nil
  | unreadable =>
      rw [opened] at visited
      exact absurd visited List.not_mem_nil

theorem map_child_names (relative : PosixPath) (name : Bytes) :
    (relative.child name).names.map Str.mk = relative.names.map Str.mk ++ [Str.mk name] := by
  rw [PosixPath.child, List.map_append, List.map_singleton]

/-- A name of a directory lies below it. -/
theorem below_child (relative : PosixPath) (name : Bytes) :
    Below (relative.names.map Str.mk) ((relative.child name).names.map Str.mk) := by
  rw [map_child_names]
  exact ⟨List.prefix_append _ _, fun same => by simpa using congrArg List.length same⟩

/-- Whatever is visited lies below the directory. -/
theorem walk_below {source : Source} {relative : PosixPath} {visit : Visit}
    (member : visit ∈ walk source relative) : Below (relative.names.map Str.mk) visit.names := by
  induction source generalizing relative with
  | file observation => exact absurd member List.not_mem_nil
  | special => exact absurd member List.not_mem_nil
  | unreadable => exact absurd member List.not_mem_nil
  | directory names nodup child unchanged ih =>
      rw [walk_directory] at member
      rcases List.mem_flatMap.mp member with ⟨name, _, visited⟩
      rcases mem_visitsOf visited with same | ⟨_, deeper⟩
      · rw [Visit.names, same]
        exact below_child relative name
      · exact (below_child relative name).trans (ih name deeper)

/-- The traversal is in the order of the parts. -/
theorem walk_sorted (source : Source) (relative : PosixPath) :
    ((walk source relative).map Visit.names).Pairwise (· < ·) := by
  induction source generalizing relative with
  | file observation => exact List.Pairwise.nil
  | special => exact List.Pairwise.nil
  | unreadable => exact List.Pairwise.nil
  | directory names nodup child unchanged ih =>
      have listing : (walk (.directory names nodup child unchanged) relative).map Visit.names =
          ((sortedNames names).map Str.mk).flatMap fun name =>
            (visitsOf child relative name.bytes).map Visit.names := by
        rw [walk_directory, List.map_flatMap, List.flatMap_map]
      rw [listing]
      refine pairwise_flatMap (pairwise_sortedNames nodup) ?_
        (?_ : ∀ name ∈ _, ∀ path ∈ _, relative.names.map Str.mk ++ [name] <+: path)
      · intro name _
        unfold visitsOf
        cases opened : child name.bytes with
        | file found => exact List.pairwise_singleton _ _
        | directory inner innerNodup grandchild innerUnchanged =>
            have deeper := ih name.bytes (relative.child name.bytes)
            rw [opened] at deeper
            refine List.pairwise_cons.mpr ⟨?_, deeper⟩
            intro path member
            rcases List.mem_map.mp member with ⟨visit, visited, rfl⟩
            exact (walk_below visited).lt
        | special => exact List.Pairwise.nil
        | unreadable => exact List.Pairwise.nil
      · intro name _ path member
        rcases List.mem_map.mp member with ⟨visit, visited, rfl⟩
        rcases mem_visitsOf visited with same | ⟨_, deeper⟩
        · rw [Visit.names, same, map_child_names]
        · rw [← map_child_names]
          exact (walk_below deeper).1

/-- Every directory on the way to a visited object is visited. -/
theorem walk_ancestors {source : Source} {relative : PosixPath} {visit : Visit}
    (member : visit ∈ walk source relative) {above : Parts} (lower : Below (relative.names.map Str.mk) above)
    (upper : Below above visit.names) :
    ∃ directory ∈ walk source relative, directory.names = above ∧ directory.found = none := by
  induction source generalizing relative with
  | file observation => exact absurd member List.not_mem_nil
  | special => exact absurd member List.not_mem_nil
  | unreadable => exact absurd member List.not_mem_nil
  | directory names nodup child unchanged ih =>
      rw [walk_directory] at member ⊢
      rcases List.mem_flatMap.mp member with ⟨name, listed, visited⟩
      rcases mem_visitsOf visited with same | ⟨announced, deeper⟩
      · -- nothing lies between a directory and one of its names
        rw [Visit.names, same, map_child_names, below_iff_length, List.length_append] at upper
        have longer := (below_iff_length.mp lower).2
        exact absurd upper.2 (by simp at longer ⊢; omega)
      · rcases below_total (walk_below deeper) upper with deep | rfl | high
        · rcases ih name deeper deep with ⟨directory, found, rest⟩
          refine ⟨directory, List.mem_flatMap.mpr ⟨name, listed, ?_⟩, rest⟩
          unfold visitsOf at announced ⊢
          cases opened : child name with
          | directory inner innerNodup grandchild innerUnchanged =>
              rw [opened] at found
              exact List.mem_cons_of_mem _ found
          | file found => simp [opened] at announced
          | special => simp [opened] at announced
          | unreadable => simp [opened] at announced
        · exact ⟨_, List.mem_flatMap.mpr ⟨name, listed, announced⟩, rfl, rfl⟩
        · have longer := (below_iff_length.mp lower).2
          have shorter := (below_iff_length.mp high).2
          rw [map_child_names, List.length_append, List.length_singleton] at shorter
          omega

/-! ### The emitted sequence -/

/-- What the auditor records of a member: its path and its kind. -/
def memberEntry (header : TarHeader) : Parts × Kind := ((posixPath header.name).strs, header.kind)

/-- The files of the manifest, under the prefix. -/
def manifestFiles (root : Bytes) (manifest : Manifest) : List Parts :=
  manifest.keys.map fun path => Str.mk root :: path.names.map Str.mk

/-- The entry of a visit. -/
def Visit.entry (root : Bytes) (visit : Visit) : Parts × Kind :=
  (Str.mk root :: visit.names, if visit.found = none then Kind.directory else Kind.file)

/-- The member of a checked visit. -/
theorem memberEntry_header {traversal : Traversal} {visit : Visit} (single : SingleComponent traversal.root)
    (checked : VisitChecked traversal visit) :
    memberEntry (visit.header traversal.root) = visit.entry traversal.root := by
  have path := posixPath_archivePath single checked.relative checked.nonempty checked.safe
  cases kind : visit.found with
  | none =>
      rw [Visit.header, Visit.entry, kind, memberEntry, if_pos rfl]
      change ((posixPath (archivePath traversal.root visit.path)).strs, Kind.directory) = _
      rw [path]
      rfl
  | some found =>
      rw [Visit.header, Visit.entry, kind, memberEntry, if_neg (Option.some_ne_none found)]
      change ((posixPath (archivePath traversal.root visit.path)).strs, Kind.file) = _
      rw [path]
      rfl

/-- Reading a member back changes neither its path nor its kind. -/
theorem memberEntry_readBack {header : TarHeader} (last : header.name.getLast? ≠ some (byte '/')) :
    memberEntry (readBack header) = memberEntry header := by
  rw [memberEntry, readBack_name last]
  rfl

theorem mem_filePaths {visits : List Visit} {path : PosixPath} :
    path ∈ filePaths visits ↔ ∃ visit ∈ visits, visit.path = path ∧ visit.found ≠ none := by
  rw [filePaths, List.mem_filterMap]
  constructor
  · rintro ⟨visit, member, found⟩
    rcases Option.map_eq_some_iff.mp found with ⟨observation, isFile, same⟩
    exact ⟨visit, member, same, isFile ▸ Option.some_ne_none observation⟩
  · rintro ⟨visit, member, same, isFile⟩
    rcases Option.ne_none_iff_exists'.mp isFile with ⟨observation, found⟩
    exact ⟨visit, member, by rw [found, Option.map_some, same]⟩

/-- The files and directories that a finished traversal has visited, and no others. -/
structure Walked (root : Bytes) (manifest : Manifest) (visits : List Visit) : Prop where
  checked : ∃ traversal : Traversal, traversal.root = root ∧ traversal.expectedManifest = manifest ∧
    ∀ visit ∈ visits, VisitChecked traversal visit
  sorted : (visits.map Visit.names).Pairwise (· < ·)
  files : ∀ path, path ∈ manifest.keys ↔ ∃ visit ∈ visits, visit.path = path ∧ visit.found ≠ none
  directories : ∀ path, (∃ file ∈ manifest.keys, path ∈ ancestorPaths file) ↔
    ∃ visit ∈ visits, visit.path = path ∧ visit.found = none

/-- One path is not both a file and a directory. -/
theorem Walked.oneKind {root : Bytes} {manifest : Manifest} {visits : List Visit}
    (walked : Walked root manifest visits) {first second : Visit} (one : first ∈ visits) (two : second ∈ visits)
    (same : first.names = second.names) : first = second :=
  List.inj_on_of_nodup_map (walked.sorted.imp ne_of_lt) one two same

/-- The paths of an accepted manifest are paths of visits, so they are relative and not empty. -/
theorem Walked.relative {root : Bytes} {manifest : Manifest} {visits : List Visit}
    (walked : Walked root manifest visits) {visit : Visit} (member : visit ∈ visits) :
    visit.path.root = [] ∧ visit.path.names ≠ [] := by
  rcases walked.checked with ⟨traversal, _, _, checked⟩
  exact ⟨(checked visit member).relative, (checked visit member).nonempty⟩

theorem str_injective : Function.Injective Str.mk := fun _ _ same => congrArg Str.bytes same

/-- The parts of a directory above a path. -/
theorem below_map_mk {above path : List Bytes} :
    Below (above.map Str.mk) (path.map Str.mk) ↔ above <+: path ∧ above.length < path.length := by
  rw [below_iff_length, List.length_map, List.length_map, List.prefix_map_iff]
  refine and_congr_left' ⟨?_, fun isPrefix => ⟨above, isPrefix, rfl⟩⟩
  rintro ⟨other, isPrefix, same⟩
  rw [List.map_injective_iff.mpr str_injective same]
  exact isPrefix

/-- A finished traversal has visited the files of the manifest and the directories above them. -/
theorem Built.walked {root : Bytes} {manifest : Manifest} {source : Source} {members : List TarHeader}
    (built : Built root manifest source members) :
    Walked root manifest (walk source { root := [], names := [] }) := by
  rcases built.run with ⟨traversal, final, expected, rfl, rfl, rfl, validated, adds, seen, missing⟩
  rcases validateArchiveManifest_scanned validated with ⟨_, scan, directories, scanned⟩
  have seenEntries : final.seenEntries = filePaths (walk source { root := [], names := [] }) := adds.seenEntries
  rw [seenEntries] at seen missing
  have files : ∀ path, path ∈ traversal.expectedManifest.keys ↔
      ∃ visit ∈ walk source { root := [], names := [] }, visit.path = path ∧ visit.found ≠ none := fun path =>
    ⟨fun member => mem_filePaths.mp (missing member), fun visited => seen (mem_filePaths.mpr visited)⟩
  refine ⟨⟨traversal, rfl, rfl, adds.checked⟩, walk_sorted source _, files, fun path => ?_⟩
  constructor
  · rintro ⟨file, member, above⟩
    rcases mem_ancestorPaths.mp above with ⟨isRelative, nonempty, isPrefix, shorter⟩
    rcases (files file).mp member with ⟨visit, visited, rfl, _⟩
    have notRoot : path.names.map Str.mk ≠ [] := fun empty => nonempty (List.map_eq_nil_iff.mp empty)
    rcases walk_ancestors visited ⟨List.nil_prefix, Ne.symm notRoot⟩ (below_map_mk.mpr ⟨isPrefix, shorter⟩) with
      ⟨directory, inWalk, names, isDirectory⟩
    refine ⟨directory, inWalk, ?_, isDirectory⟩
    have sameNames : directory.path.names = path.names := List.map_injective_iff.mpr str_injective names
    have sameRoot : directory.path.root = path.root := (adds.checked directory inWalk).relative.trans isRelative.symm
    rcases path with ⟨_, _⟩
    cases sameNames
    cases sameRoot
    rfl
  · rintro ⟨visit, member, rfl, isDirectory⟩
    have isExpected := (adds.checked visit member).directory isDirectory
    rw [← directories] at isExpected
    rcases (scanned.expected visit.path).mp isExpected with ⟨item, inManifest, above⟩
    exact ⟨item.1, List.mem_map.mpr ⟨item, inManifest, rfl⟩, above⟩

/-- The path of a visit in the archive lies below the prefix. -/
theorem mem_visit_entries {root : Bytes} {visits : List Visit} {path : Parts} {kind : Kind} :
    (path, kind) ∈ visits.map (Visit.entry root) ↔
      ∃ visit ∈ visits, path = Str.mk root :: visit.names ∧
        kind = if visit.found = none then Kind.directory else Kind.file := by
  rw [List.mem_map]
  constructor
  · rintro ⟨visit, member, same⟩
    cases same
    exact ⟨visit, member, rfl, rfl⟩
  · rintro ⟨visit, member, rfl, rfl⟩
    exact ⟨visit, member, rfl⟩

/-- No file of the manifest lies below another. -/
theorem Walked.apart {root : Bytes} {manifest : Manifest} {visits : List Visit}
    (walked : Walked root manifest visits) {file other : PosixPath} (one : file ∈ manifest.keys)
    (two : other ∈ manifest.keys) : ¬ Below (file.names.map Str.mk) (other.names.map Str.mk) := by
  intro below
  rcases (walked.files file).mp one with ⟨first, inFirst, rfl, isFile⟩
  have above : first.path ∈ ancestorPaths other :=
    mem_ancestorPaths.mpr ⟨(walked.relative inFirst).1, (walked.relative inFirst).2, below_map_mk.mp below⟩
  rcases (walked.directories first.path).mp ⟨other, two, above⟩ with ⟨second, inSecond, same, isDirectory⟩
  rw [walked.oneKind inFirst inSecond (by rw [Visit.names, Visit.names, same])] at isFile
  exact isFile isDirectory

/-- The visits of a finished traversal are the canonical sequence. -/
theorem Walked.canonical {root : Bytes} {manifest : Manifest} {visits : List Visit}
    (walked : Walked root manifest visits) :
    visits.map (Visit.entry root) = canonicalSequence (manifestFiles root manifest) := by
  apply eq_canonicalSequence
  · have paths : (visits.map (Visit.entry root)).map Prod.fst =
        (visits.map Visit.names).map (List.cons (Str.mk root)) := by
      rw [List.map_map, List.map_map]
      rfl
    rw [paths]
    exact walked.sorted.map _ fun first second less => List.Lex.cons less
  · intro entry member
    rcases mem_visit_entries.mp member with ⟨visit, _, _, kind⟩
    rw [kind]
    by_cases isDirectory : visit.found = none
    · rw [if_pos isDirectory]
      exact Or.inr rfl
    · rw [if_neg isDirectory]
      exact Or.inl rfl
  · intro path
    rw [mem_visit_entries, manifestFiles, List.mem_map]
    constructor
    · rintro ⟨visit, member, rfl, kind⟩
      by_cases isDirectory : visit.found = none
      · rw [if_pos isDirectory] at kind
        cases kind
      · exact ⟨visit.path, (walked.files _).mpr ⟨visit, member, rfl, isDirectory⟩, rfl⟩
    · rintro ⟨file, member, rfl⟩
      rcases (walked.files file).mp member with ⟨visit, visited, rfl, isFile⟩
      exact ⟨visit, visited, rfl, (if_neg isFile).symm⟩
  · intro path
    rw [mem_visit_entries, manifestFiles]
    constructor
    · rintro ⟨visit, member, rfl, kind⟩
      by_cases isDirectory : visit.found = none
      · rcases (walked.directories visit.path).mpr ⟨visit, member, rfl, isDirectory⟩ with ⟨file, inManifest, above⟩
        rcases mem_ancestorPaths.mp above with ⟨_, nonempty, below⟩
        refine ⟨?_, _, List.mem_map.mpr ⟨file, inManifest, rfl⟩, ?_, ?_⟩
        · intro both
          rcases List.mem_map.mp both with ⟨other, otherKey, same⟩
          rcases (walked.files other).mp otherKey with ⟨second, inSecond, rfl, isFile⟩
          rw [walked.oneKind inSecond member (List.cons.inj same).2] at isFile
          exact isFile isDirectory
        · have inside := below_map_mk.mpr below
          rw [below_iff_length] at inside ⊢
          exact ⟨List.cons_prefix_cons.mpr ⟨rfl, inside.1⟩, Nat.succ_lt_succ inside.2⟩
        · have positive := List.length_pos_of_ne_nil nonempty
          rw [List.length_cons, Visit.names, List.length_map]
          exact Nat.succ_le_succ positive
      · rw [if_neg isDirectory] at kind
        cases kind
    · rintro ⟨_, file, member, below, long⟩
      rcases List.mem_map.mp member with ⟨key, inManifest, rfl⟩
      cases path with
      | nil => exact absurd long (by decide)
      | cons first rest =>
          rcases below_iff_length.mp below with ⟨isPrefix, shorter⟩
          rcases List.cons_prefix_cons.mp isPrefix with ⟨rfl, restPrefix⟩
          rcases List.prefix_map_iff.mp restPrefix with ⟨names, namesPrefix, rfl⟩
          rw [List.length_cons, List.length_map] at long shorter
          rw [List.length_cons, List.length_map] at shorter
          have above : { root := [], names := names } ∈ ancestorPaths key :=
            mem_ancestorPaths.mpr ⟨rfl, List.ne_nil_of_length_pos (Nat.le_of_succ_le_succ long), namesPrefix,
              Nat.lt_of_succ_lt_succ shorter⟩
          rcases (walked.directories _).mp ⟨key, inManifest, above⟩ with ⟨visit, visited, same, isDirectory⟩
          exact ⟨visit, visited, by rw [Visit.names, same], (if_pos isDirectory).symm⟩

/-- The members of a built archive, as the auditor sees them. -/
theorem Built.canonical {root : Bytes} {manifest : Manifest} {source : Source} {members : List TarHeader}
    (built : Built root manifest source members) (single : SingleComponent root) :
    members.map memberEntry = canonicalSequence (manifestFiles root manifest) := by
  have walked := built.walked
  rcases walked.checked with ⟨traversal, rfl, _, checked⟩
  rw [built.members, List.map_map, ← walked.canonical]
  exact List.map_congr_left fun visit member => memberEntry_header single (checked visit member)

/-- Reading the archive back gives the same sequence. -/
theorem Built.canonical_readBack {root : Bytes} {manifest : Manifest} {source : Source}
    {members : List TarHeader} (built : Built root manifest source members) :
    (members.map readBack).map memberEntry = members.map memberEntry := by
  rw [List.map_map]
  refine List.map_congr_left fun member written => memberEntry_readBack ?_
  rcases built.canEmit written with ⟨relative, size, executable, isDirectory, isRelative, nonempty, safe, rest⟩
  rw [rest.2.2.2]
  exact getLast?_archivePath isRelative nonempty safe

/-- The auditor's topology check passes a built archive. -/
theorem Built.topology {root : Bytes} {manifest : Manifest} {source : Source} {members : List TarHeader}
    (built : Built root manifest source members) (single : SingleComponent root) :
    builderTopologyFailures ((members.map readBack).map fun header => posixPath header.name)
      ((members.map readBack).map fun header => (posixPath header.name, header.kind)) = [] := by
  have walked := built.walked
  have sequence : (members.map readBack).map memberEntry = canonicalSequence (manifestFiles root manifest) :=
    built.canonical_readBack.trans (built.canonical single)
  generalize members.map readBack = headers at sequence ⊢
  have distinct : ((canonicalSequence (manifestFiles root manifest)).map Prod.fst).Nodup := by
    rw [map_fst_canonicalSequence]
    exact (pairwise_sortedParts (List.nodup_dedup _)).imp ne_of_lt
  have entries : ∀ entry ∈ canonicalSequence (manifestFiles root manifest),
      entry.1 ≠ [] ∧ (entry.2 = Kind.file ∨ entry.2 = Kind.directory) := by
    rintro ⟨path, kind⟩ member
    rcases mem_canonicalSequence.mp member with ⟨isFile, rfl⟩ | ⟨_, rfl, _, _, _, long⟩
    · rcases List.mem_map.mp isFile with ⟨file, _, rfl⟩
      exact ⟨List.cons_ne_nil _ _, Or.inl rfl⟩
    · exact ⟨List.ne_nil_of_length_pos (Nat.lt_of_succ_lt long), Or.inr rfl⟩
  have accepted := (topology_iff distinct (fun entry member => (entries entry member).1)
    (fun entry member => (entries entry member).2)).mpr ⟨manifestFiles root manifest, ?_, ?_, rfl⟩
  · rw [← sequence, List.map_map] at accepted
    rw [builderTopologyFailures, List.map_map, List.map_map]
    exact accepted
  · intro file isFile
    rcases List.mem_map.mp isFile with ⟨key, member, rfl⟩
    rcases (walked.files key).mp member with ⟨visit, visited, rfl, _⟩
    rw [List.length_cons, List.length_map]
    exact Nat.succ_le_succ (List.length_pos_of_ne_nil (walked.relative visited).2)
  · intro file isFile other isOther below
    rcases List.mem_map.mp isFile with ⟨key, member, rfl⟩
    rcases List.mem_map.mp isOther with ⟨otherKey, otherMember, rfl⟩
    apply walked.apart member otherMember
    rw [below_iff_length] at below ⊢
    exact ⟨(List.cons_prefix_cons.mp below.1).2, Nat.lt_of_succ_lt_succ below.2⟩

/-- The auditor accepts exactly the canonical sequences, and the builder emits the canonical sequence of the files
of its manifest. -/
theorem canonicalOrder :
    (∀ sequence : List (Parts × Kind), (sequence.map Prod.fst).Nodup → (∀ entry ∈ sequence, entry.1 ≠ []) →
      (∀ entry ∈ sequence, entry.2 = Kind.file ∨ entry.2 = Kind.directory) →
      (validateBuilderTopology (sequence.map Prod.fst) sequence = [] ↔
        ∃ files : List Parts, (∀ file ∈ files, 2 ≤ file.length) ∧
          (∀ file ∈ files, ∀ other ∈ files, ¬ Below file other) ∧ sequence = canonicalSequence files)) ∧
    ∀ (addfile : List TarHeader → TarHeader → Except String Unit) (source : Source) (root : Bytes)
      (manifest : Manifest) (rootUnchanged : Bool) (members : List TarHeader), byte '/' ∉ root →
      addTree addfile source root manifest rootUnchanged = .ok members →
      members.map memberEntry = canonicalSequence (manifestFiles root manifest) ∧
      builderTopologyFailures ((members.map readBack).map fun header => posixPath header.name)
        ((members.map readBack).map fun header => (posixPath header.name, header.kind)) = [] := by
  refine ⟨fun sequence distinct nonempty kinds => topology_iff distinct nonempty kinds, ?_⟩
  intro addfile source root manifest rootUnchanged members slash run
  have built := addTree_built run
  have single : SingleComponent root := by
    refine ⟨slash, built.rootParts.2 root ?_⟩
    rw [splitSlashes, List.splitOn_eq_singleton slash]
    exact List.mem_singleton_self root
  exact ⟨built.canonical single, built.topology single⟩

/-- A tree whose order by parts is not the order of the names: `a/b` comes before `a-b`. -/
def hyphenTree : Source :=
  .directory [lit "a-b", lit "a"] (by decide)
    (fun name =>
      if name = lit "a" then
        .directory [lit "b"] (List.pairwise_singleton _ _) (fun _ => .file hyphenFile) true
      else .file hyphenFile) true
where
  hyphenFile : FileObservation :=
    { size := 1, executable := false, bytesRead := 1, sha256 := List.replicate 64 '0', extra := false
      unchanged := true }

/-- The manifest of this tree. -/
def hyphenManifest : Manifest :=
  { entries :=
      [({ root := [], names := [lit "a-b"] }, { sha256 := List.replicate 64 '0', size := 1, mode := 0o644 }),
        ({ root := [], names := [lit "a", lit "b"] },
          { sha256 := List.replicate 64 '0', size := 1, mode := 0o644 })]
    nodup := by decide }

theorem canonicalOrder_hyphen :
    validateBuilderTopology
        [[⟨lit "r"⟩, ⟨lit "a"⟩], [⟨lit "r"⟩, ⟨lit "a"⟩, ⟨lit "b"⟩], [⟨lit "r"⟩, ⟨lit "a-b"⟩]]
        [([⟨lit "r"⟩, ⟨lit "a"⟩], .directory), ([⟨lit "r"⟩, ⟨lit "a"⟩, ⟨lit "b"⟩], .file),
          ([⟨lit "r"⟩, ⟨lit "a-b"⟩], .file)] = [] ∧
      ∃ members, addTree (fun _ _ => .ok ()) hyphenTree (lit "r") hyphenManifest true = .ok members ∧
        members.map memberEntry = canonicalSequence (manifestFiles (lit "r") hyphenManifest) := by
  constructor
  · refine (canonicalOrder.1
      [([⟨lit "r"⟩, ⟨lit "a"⟩], .directory), ([⟨lit "r"⟩, ⟨lit "a"⟩, ⟨lit "b"⟩], .file),
        ([⟨lit "r"⟩, ⟨lit "a-b"⟩], .file)] (by decide) (by decide) (by decide)).mpr
      ⟨[[⟨lit "r"⟩, ⟨lit "a"⟩, ⟨lit "b"⟩], [⟨lit "r"⟩, ⟨lit "a-b"⟩]], by decide, by decide, ?_⟩
    decide
  · have succeeds : (addTree (fun _ _ => .ok ()) hyphenTree (lit "r") hyphenManifest true).isOk = true := by
      decide
    cases run : addTree (fun _ _ => .ok ()) hyphenTree (lit "r") hyphenManifest true with
    | error message =>
        rw [run] at succeeds
        cases succeeds
    | ok members =>
        exact ⟨members, rfl, (canonicalOrder.2 _ _ _ _ _ members (by decide) run).1⟩

end ExitfyCores.Bundle.Builder
