/-
Module: ExitfyCores.Proofs.BuilderLimits
Layer: Proofs
Purpose: The builder's limits against the auditor's. A built archive has exactly the members its manifest asks for,
  and it stays within the auditor's limits under three conditions that the builder does not check.
Imports: ExitfyCores.Proofs.BuilderOrder, ExitfyCores.Bundle.Limits,
  Mathlib.Algebra.Order.BigOperators.Group.List, Mathlib.Algebra.Order.Group.Nat, Mathlib.Algebra.Order.Ring.Int
Trusted boundary: none
Main exports: Built.planned, WithinAuditLimits.audited, withinAuditLimits_iff, not_withinAuditLimits_deep
Open obligations: none
-/
import ExitfyCores.Proofs.BuilderOrder
import ExitfyCores.Bundle.Limits
import Mathlib.Algebra.Order.BigOperators.Group.List
import Mathlib.Algebra.Order.Group.Nat
import Mathlib.Algebra.Order.Ring.Int

namespace ExitfyCores.Bundle

/-! ### Dictionaries -/

/-- A dictionary finds the entries it holds. -/
theorem Dict.get_eq_some_iff {Key Value : Type} [DecidableEq Key] {dict : Dict Key Value} {key : Key}
    {value : Value} : dict.get key = some value ↔ (key, value) ∈ dict.entries := by
  rw [Dict.get, Option.map_eq_some_iff]
  constructor
  · rintro ⟨entry, found, rfl⟩
    have same := List.find?_some found
    rw [decide_eq_true_eq] at same
    rw [← same]
    exact List.mem_of_find?_eq_some found
  · intro member
    cases found : dict.entries.find? fun entry => entry.1 = key with
    | none =>
        have different := List.find?_eq_none.mp found (key, value) member
        exact absurd (decide_eq_true rfl) different
    | some entry =>
        have same := List.find?_some found
        rw [decide_eq_true_eq] at same
        rw [List.inj_on_of_nodup_map dict.nodup (List.mem_of_find?_eq_some found) member same]
        exact ⟨_, rfl, rfl⟩

/-! ### PAX records -/

theorem decimalDigits_le {n k : Nat} (positive : 0 < k) (small : n < 10 ^ k) : decimalDigits n ≤ k :=
  (Nat.length_toDigits_le_iff (by decide) positive).mpr small

/-- The length field of a record stays short. -/
theorem paxLengthFrom_le {turns base guess : Nat} (small : base + 4 < 10 ^ 4) (start : guess ≤ base + 4) :
    paxLengthFrom turns base guess ≤ base + 4 := by
  induction turns generalizing guess with
  | zero => exact start
  | succ turns ih =>
      have digits := decimalDigits_le (by decide) (Nat.lt_of_le_of_lt start small)
      rw [paxLengthFrom]
      split
      · exact start
      · exact ih (Nat.add_le_add_left digits base)

/-- A path that the scan allows has a record that the scan allows. -/
theorem paxRecordLength_le {path : Bytes} (short : path.length ≤ maxMemberNameBytes + 1) :
    paxRecordLength path ≤ maxPaxBytes := by
  have base : (lit "path").length + path.length + 3 + 4 ≤ maxPaxBytes := by
    have key : (lit "path").length = 4 := rfl
    rw [maxMemberNameBytes] at short
    rw [maxPaxBytes, key]
    omega
  rw [paxRecordLength]
  refine (paxLengthFrom_le ?_ (Nat.zero_le _)).trans base
  exact Nat.lt_of_le_of_lt base (by decide)

/-! ### What the limits mean in the audit -/

theorem countMembers_concat (members : List TarInfo) (member : TarInfo) :
    countMembers (members ++ [member]) =
      countMember (countMembers members) member (posixPath member.header.name) := by
  rw [countMembers, countMembers, List.foldl_append]
  rfl

/-- The counters of the audit, by the members. -/
structure Counted (members : List TarInfo) : Prop where
  memberCount : (countMembers members).memberCount = members.length
  retained : (countMembers members).retainedNameBytes =
    (members.map fun member => member.header.name.length).sum
  files : (countMembers members).files = (members.filter fun member => member.header.kind = .file).length
  directories : (countMembers members).directories =
    (members.filter fun member => member.header.kind = .directory).length
  expanded : (∀ member ∈ members, 0 ≤ member.header.size) →
    (countMembers members).expanded ≤ (members.map fun member => member.header.size).sum

theorem counted (members : List TarInfo) : Counted members := by
  induction members using List.reverseRecOn with
  | nil => exact ⟨rfl, rfl, rfl, rfl, fun _ => Int.le_refl 0⟩
  | append_singleton members member ih =>
      refine ⟨?_, ?_, ?_, ?_, ?_⟩
      · rw [countMembers_concat, List.length_append]
        exact congrArg (· + 1) ih.memberCount
      · rw [countMembers_concat, List.map_append, List.sum_append, ← ih.retained]
        rfl
      · rw [countMembers_concat, List.filter_append, List.length_append, ← ih.files]
        by_cases isFile : member.header.kind = .file
        · rw [List.filter_cons_of_pos (by simpa using isFile)]
          exact if_pos isFile
        · rw [List.filter_cons_of_neg (by simpa using isFile)]
          exact if_neg isFile
      · rw [countMembers_concat, List.filter_append, List.length_append, ← ih.directories]
        by_cases isDirectory : member.header.kind = .directory
        · rw [List.filter_cons_of_pos (by simpa using isDirectory)]
          exact if_pos isDirectory
        · rw [List.filter_cons_of_neg (by simpa using isDirectory)]
          exact if_neg isDirectory
      · intro nonnegative
        have before := ih.expanded fun other earlier => nonnegative other (List.mem_append_left _ earlier)
        have last := nonnegative member (List.mem_append_right _ (List.mem_singleton_self member))
        have step : (countMembers (members ++ [member])).expanded ≤
            (countMembers members).expanded + member.header.size := by
          rw [countMembers_concat, countMember]
          dsimp only
          split <;> omega
        rw [List.map_append, List.sum_append, List.map_singleton, List.sum_singleton]
        omega

/-- Within the limits the audit passes each of its limit checks, at every member. -/
theorem WithinAuditLimits.audited {members done rest : List TarInfo} {member : TarInfo}
    (within : WithinAuditLimits (members.map TarInfo.header)) (split : members = done ++ [member] ++ rest) :
    checkLimits (countMembers (done ++ [member])) = .ok () ∧
      member.header.name.length ≤ maxMemberNameBytes ∧
      (posixPath member.header.name).parts.length ≤ 128 ∧
      (0 ≤ member.header.size ∧ member.header.size ≤ maxMemberBytes) ∧
      (countMembers (done ++ [member])).expanded ≤ maxExpandedBytes := by
  have sizes : ∀ other ∈ members, 0 ≤ other.header.size := fun other inside =>
    (within.payload _ (List.mem_map_of_mem inside)).1
  have inside : member ∈ members := by
    rw [split]
    exact List.mem_append_left _ (List.mem_append_right _ (List.mem_singleton_self member))
  have inHeaders : member.header ∈ members.map TarInfo.header := List.mem_map_of_mem inside
  have seen := counted (done ++ [member])
  have early : (done ++ [member]).Sublist members := by
    rw [split]
    exact List.sublist_append_left _ _
  have count : (done ++ [member]).length ≤ maxMembers := by
    refine early.length_le.trans ?_
    rw [← List.length_map TarInfo.header]
    exact within.count
  have retained : ((done ++ [member]).map fun other => other.header.name.length).sum ≤ maxRetainedNameBytes := by
    refine (early.map _).sum_le_sum (fun _ _ => Nat.zero_le _) |>.trans ?_
    have total := within.retainedNames
    rw [List.map_map] at total
    exact total
  have kinds : ∀ kind limit, ((members.map TarInfo.header).filter fun header => header.kind = kind).length ≤ limit →
      ((done ++ [member]).filter fun other => other.header.kind = kind).length ≤ limit := by
    intro kind limit total
    rw [List.filter_map, List.length_map] at total
    exact (early.filter _).length_le.trans total
  have expanded : (countMembers (done ++ [member])).expanded ≤ maxExpandedBytes := by
    refine (seen.expanded fun other earlier => sizes other (early.subset earlier)).trans ?_
    have total := within.expanded
    rw [List.map_map] at total
    refine ((early.map fun other => other.header.size).sum_le_sum ?_).trans total
    intro size member
    rcases List.mem_map.mp member with ⟨other, inMembers, rfl⟩
    exact sizes other inMembers
  refine ⟨?_, within.nameBytes _ inHeaders, within.depth _ inHeaders, within.payload _ inHeaders, expanded⟩
  rw [← seen.memberCount] at count
  rw [← seen.retained] at retained
  have files := kinds .file _ within.files
  have directories := kinds .directory _ within.directories
  rw [← seen.files] at files
  rw [← seen.directories] at directories
  rw [checkLimits, raiseIf_eq_ok.mpr (Nat.not_lt.mpr count), ok_bind, raiseIf_eq_ok.mpr (Nat.not_lt.mpr retained),
    ok_bind, raiseIf_eq_ok.mpr (Nat.not_lt.mpr directories), ok_bind, raiseIf_eq_ok.mpr (Nat.not_lt.mpr files)]

/-- A member that is too deep is reported. -/
theorem depth_reported {policy : Policy} {state : AuditState} {header : TarHeader}
    (deep : 128 < (posixPath header.name).parts.length) :
    s!"archive member depth exceeds 128: {escapedText header.name}" ∈
      nameFailures policy state header (posixPath header.name) := by
  rw [nameFailures]
  have reported : failIf (128 < (posixPath header.name).parts.length)
      s!"archive member depth exceeds 128: {escapedText header.name}" =
        [s!"archive member depth exceeds 128: {escapedText header.name}"] := if_pos deep
  rw [reported]
  simp only [List.mem_append, List.mem_singleton, true_or, or_true]

namespace Builder

/-! ### The members of a built archive -/

/-- What the manifest asks for at a visit. -/
def Visit.planned (manifest : Manifest) (visit : Visit) : PosixPath × Option ArchiveEntry :=
  (visit.path, visit.found.bind fun _ => manifest.get visit.path)

theorem plannedHeader_planned {traversal : Traversal} {visit : Visit} (checked : VisitChecked traversal visit) :
    plannedHeader traversal.root (visit.planned traversal.expectedManifest) = visit.header traversal.root := by
  rw [plannedHeader, Visit.planned, Visit.header]
  cases kind : visit.found with
  | none => rfl
  | some found =>
      rcases checked.file found kind with ⟨_, _, entry, expected, size, mode⟩
      rw [Option.bind_some, expected]
      dsimp only
      rw [size, mode]
      cases found.executable
      · rfl
      · rfl

theorem planned_nodup (manifest : Manifest) : (plannedMembers manifest).Nodup := by
  have files : (manifest.entries.map fun item => (item.1, some item.2)).Nodup := by
    apply List.Nodup.of_map Prod.fst
    rw [List.map_map]
    exact manifest.nodup
  have directories : ((expectedDirectories manifest).map fun directory =>
      (directory, (none : Option ArchiveEntry))).Nodup :=
    (List.nodup_dedup _).map fun first second same => congrArg Prod.fst same
  refine files.append directories ?_
  intro planned inFiles inDirectories
  rcases List.mem_map.mp inFiles with ⟨item, _, rfl⟩
  rcases List.mem_map.mp inDirectories with ⟨directory, _, same⟩
  cases same

theorem mem_plannedMembers_some {manifest : Manifest} {path : PosixPath} {entry : ArchiveEntry} :
    (path, some entry) ∈ plannedMembers manifest ↔ (path, entry) ∈ manifest.entries := by
  rw [plannedMembers, List.mem_append, List.mem_map, List.mem_map]
  constructor
  · rintro (⟨item, member, same⟩ | ⟨directory, _, same⟩)
    · cases same
      exact member
    · cases same
  · exact fun member => Or.inl ⟨_, member, rfl⟩

theorem mem_plannedMembers_none {manifest : Manifest} {path : PosixPath} :
    (path, none) ∈ plannedMembers manifest ↔ ∃ file ∈ manifest.keys, path ∈ ancestorPaths file := by
  rw [plannedMembers, List.mem_append, List.mem_map, List.mem_map]
  constructor
  · rintro (⟨item, _, same⟩ | ⟨directory, member, same⟩)
    · cases same
    · cases same
      exact List.mem_flatMap.mp (List.mem_dedup.mp member)
  · intro above
    exact Or.inr ⟨path, List.mem_dedup.mpr (List.mem_flatMap.mpr above), rfl⟩

/-- The visits of a finished traversal are what the manifest asks for. -/
theorem Walked.planned {root : Bytes} {manifest : Manifest} {visits : List Visit}
    (walked : Walked root manifest visits) : (visits.map (Visit.planned manifest)).Perm (plannedMembers manifest) := by
  rcases walked.checked with ⟨traversal, rfl, rfl, checked⟩
  have nodup : (visits.map (Visit.planned traversal.expectedManifest)).Nodup := by
    apply List.Nodup.of_map fun planned => planned.1.names.map Str.mk
    rw [List.map_map]
    exact walked.sorted.imp ne_of_lt
  refine (List.perm_ext_iff_of_nodup nodup (planned_nodup _)).mpr ?_
  rintro ⟨path, wanted⟩
  rw [List.mem_map]
  cases wanted with
  | some entry =>
      rw [mem_plannedMembers_some, ← Dict.get_eq_some_iff]
      constructor
      · rintro ⟨visit, member, same⟩
        rcases Prod.mk.inj same with ⟨rfl, found⟩
        rcases Option.bind_eq_some_iff.mp found with ⟨_, _, expected⟩
        exact expected
      · intro expected
        have inKeys : path ∈ traversal.expectedManifest.keys :=
          List.mem_map.mpr ⟨_, Dict.get_eq_some_iff.mp expected, rfl⟩
        rcases (walked.files path).mp inKeys with ⟨visit, member, rfl, isFile⟩
        rcases Option.ne_none_iff_exists'.mp isFile with ⟨found, isFound⟩
        refine ⟨visit, member, ?_⟩
        rw [Visit.planned, isFound, Option.bind_some, expected]
  | none =>
      rw [mem_plannedMembers_none, walked.directories]
      constructor
      · rintro ⟨visit, member, same⟩
        rcases Prod.mk.inj same with ⟨rfl, notFound⟩
        refine ⟨visit, member, rfl, ?_⟩
        cases kind : visit.found with
        | none => rfl
        | some found =>
            rcases (checked visit member).file found kind with ⟨_, _, entry, expected, _⟩
            rw [kind, Option.bind_some, expected] at notFound
            cases notFound
      · rintro ⟨visit, member, rfl, isDirectory⟩
        refine ⟨visit, member, ?_⟩
        rw [Visit.planned, isDirectory, Option.bind_none]

/-- A built archive has the members its manifest asks for, and no others. -/
theorem Built.planned {root : Bytes} {manifest : Manifest} {source : Source} {members : List TarHeader}
    (built : Built root manifest source members) : members.Perm (plannedHeaders root manifest) := by
  have walked := built.walked
  rcases walked.checked with ⟨traversal, rfl, rfl, checked⟩
  have headers : members = ((walk source { root := [], names := [] }).map
      (Visit.planned traversal.expectedManifest)).map (plannedHeader traversal.root) := by
    rw [built.members, List.map_map]
    exact List.map_congr_left fun visit member => (plannedHeader_planned (checked visit member)).symm
  rw [headers]
  exact walked.planned.map _

/-! ### The limits -/

/-- The limits do not look at the order of the members. -/
theorem withinAuditLimits_perm {first second : List TarHeader} (perm : first.Perm second)
    (within : WithinAuditLimits first) : WithinAuditLimits second where
  depth := fun member inside => within.depth member (perm.mem_iff.mpr inside)
  nameBytes := fun member inside => within.nameBytes member (perm.mem_iff.mpr inside)
  retainedNames := (perm.map fun member => member.name.length).sum_eq ▸ within.retainedNames
  count := perm.length_eq ▸ within.count
  files := (perm.filter _).length_eq ▸ within.files
  directories := (perm.filter _).length_eq ▸ within.directories
  payload := fun member inside => within.payload member (perm.mem_iff.mpr inside)
  expanded := (perm.map TarHeader.size).sum_eq ▸ within.expanded
  paxRecord := fun member inside => within.paxRecord member (perm.mem_iff.mpr inside)
  stream := by
    have same : tarStreamSize first = tarStreamSize second :=
      congrArg canonicalTarStreamSize (perm.map memberSpan).sum_eq
    exact same ▸ within.stream

/-- The limits do not look at the PAX headers that were read. -/
theorem withinAuditLimits_paxHeaders {members : List TarHeader} {headers : TarHeader → Dict Bytes Bytes} :
    WithinAuditLimits (members.map fun member => { member with paxHeaders := headers member }) ↔
      WithinAuditLimits members := by
  have spans : (members.map fun member => { member with paxHeaders := headers member }).map memberSpan =
      members.map memberSpan := List.map_map
  have names : ((members.map fun member => { member with paxHeaders := headers member }).map
      fun member => member.name.length) = members.map fun member => member.name.length := List.map_map
  have length : (members.map fun member => { member with paxHeaders := headers member }).length =
      members.length := List.length_map _
  have sizes : (members.map fun member => { member with paxHeaders := headers member }).map TarHeader.size =
      members.map TarHeader.size := List.map_map
  have kinds : ∀ kind, ((members.map fun member => { member with paxHeaders := headers member }).filter
      fun member => member.kind = kind).length = (members.filter fun member => member.kind = kind).length := by
    intro kind
    rw [List.filter_map, List.length_map]
    rfl
  have total : tarStreamSize (members.map fun member => { member with paxHeaders := headers member }) =
      tarStreamSize members := by rw [tarStreamSize, tarStreamSize, spans]
  constructor
  · intro within
    exact
      { depth := List.forall_mem_map.mp within.depth
        nameBytes := List.forall_mem_map.mp within.nameBytes
        retainedNames := names ▸ within.retainedNames
        count := length ▸ within.count
        files := kinds .file ▸ within.files
        directories := kinds .directory ▸ within.directories
        payload := List.forall_mem_map.mp within.payload
        expanded := sizes ▸ within.expanded
        paxRecord := List.forall_mem_map.mp within.paxRecord
        stream := total ▸ within.stream }
  · intro within
    exact
      { depth := List.forall_mem_map.mpr within.depth
        nameBytes := List.forall_mem_map.mpr within.nameBytes
        retainedNames := names.symm ▸ within.retainedNames
        count := length.symm ▸ within.count
        files := (kinds .file).symm ▸ within.files
        directories := (kinds .directory).symm ▸ within.directories
        payload := List.forall_mem_map.mpr within.payload
        expanded := sizes.symm ▸ within.expanded
        paxRecord := List.forall_mem_map.mpr within.paxRecord
        stream := total.symm ▸ within.stream }

/-- The manifest of a built archive was accepted. -/
theorem Built.manifestScanned {root : Bytes} {manifest : Manifest} {source : Source} {members : List TarHeader}
    (built : Built root manifest source members) :
    manifest.entries.length ≤ maxArchiveFiles ∧ ∃ scan, ManifestScanned root manifest.entries scan := by
  rcases built.run with ⟨_, _, _, rfl, rfl, rfl, validated, _⟩
  rcases validateArchiveManifest_scanned validated with ⟨count, scan, _, scanned⟩
  exact ⟨count, scan, scanned⟩

/-- The expected directories are few. -/
theorem ManifestScanned.directories_le {root : Bytes} {manifest : Manifest} {scan : ManifestScan}
    (scanned : ManifestScanned root manifest.entries scan) :
    (expectedDirectories manifest).length ≤ maxArchiveDirectories := by
  have perm : scan.expectedDirectories.Perm (expectedDirectories manifest) := by
    refine (List.perm_ext_iff_of_nodup scanned.nodup (List.nodup_dedup _)).mpr fun directory => ?_
    rw [scanned.expected, List.mem_dedup, List.mem_flatMap]
    constructor
    · rintro ⟨item, member, above⟩
      exact ⟨item.1, List.mem_map_of_mem member, above⟩
    · rintro ⟨file, inKeys, above⟩
      rcases List.mem_map.mp inKeys with ⟨item, member, rfl⟩
      exact ⟨item, member, above⟩
  exact perm.length_eq ▸ scanned.directories

theorem plannedHeaders_eq (root : Bytes) (manifest : Manifest) :
    plannedHeaders root manifest =
      manifest.entries.map (fun item => plannedHeader root (item.1, some item.2)) ++
        (expectedDirectories manifest).map fun directory => plannedHeader root (directory, none) := by
  rw [plannedHeaders, plannedMembers, List.map_append, List.map_map, List.map_map]
  rfl

theorem plannedHeader_kind (root : Bytes) (planned : PosixPath × Option ArchiveEntry) :
    (plannedHeader root planned).kind = if planned.2.isSome then .file else .directory := by
  rcases planned with ⟨path, _ | entry⟩
  · rfl
  · rfl

/-- The files among the planned members are the entries of the manifest. -/
theorem plannedHeaders_files (root : Bytes) (manifest : Manifest) :
    ((plannedHeaders root manifest).filter fun member => member.kind = .file).length = manifest.entries.length := by
  rw [plannedHeaders_eq, List.filter_append, List.filter_map, List.filter_map, List.filter_eq_self.mpr,
    List.filter_eq_nil_iff.mpr, List.map_nil, List.append_nil, List.length_map]
  · intro directory _
    rw [Function.comp_apply, plannedHeader_kind]
    exact Bool.false_ne_true
  · intro item _
    rw [Function.comp_apply, plannedHeader_kind]
    rfl

theorem plannedHeaders_directories (root : Bytes) (manifest : Manifest) :
    ((plannedHeaders root manifest).filter fun member => member.kind = .directory).length =
      (expectedDirectories manifest).length := by
  rw [plannedHeaders_eq, List.filter_append, List.filter_map, List.filter_map, List.filter_eq_nil_iff.mpr,
    List.filter_eq_self.mpr, List.map_nil, List.nil_append, List.length_map]
  · intro directory _
    rw [Function.comp_apply, plannedHeader_kind]
    rfl
  · intro item _
    rw [Function.comp_apply, plannedHeader_kind]
    exact Bool.false_ne_true

/-- Directories carry no payload. -/
theorem plannedHeaders_sizes (root : Bytes) (manifest : Manifest) :
    ((plannedHeaders root manifest).map TarHeader.size).sum = (manifest.entries.map fun item => item.2.size).sum := by
  have directories : ((expectedDirectories manifest).map fun directory => plannedHeader root (directory, none)).map
      TarHeader.size = List.replicate (expectedDirectories manifest).length 0 := by
    rw [List.map_map]
    exact List.map_const'
  have none : (List.replicate (expectedDirectories manifest).length (0 : Int)).sum = 0 := by simp
  rw [plannedHeaders_eq, List.map_append, List.sum_append, directories, none, add_zero, List.map_map]
  rfl

/-- A member of a built archive and its place in the auditor's eyes. -/
theorem Built.visited {root : Bytes} {manifest : Manifest} {source : Source} {members : List TarHeader}
    (built : Built root manifest source members) (single : SingleComponent root) {member : TarHeader}
    (written : member ∈ members) :
    ∃ path, (path ∈ manifest.keys ∨ ∃ file ∈ manifest.keys, path ∈ ancestorPaths file) ∧
      member.name = archivePath root path ∧ (posixPath member.name).parts.length = path.names.length + 1 := by
  have walked := built.walked
  rcases walked.checked with ⟨traversal, rfl, rfl, checked⟩
  rw [built.members] at written
  rcases List.mem_map.mp written with ⟨visit, visited, rfl⟩
  have safe := checked visit visited
  have name : (visit.header traversal.root).name = archivePath traversal.root visit.path := by
    rw [Visit.header]
    cases visit.found with
    | none => rfl
    | some found => rfl
  refine ⟨visit.path, ?_, name, ?_⟩
  · by_cases isDirectory : visit.found = none
    · exact Or.inr ((walked.directories visit.path).mpr ⟨visit, visited, rfl, isDirectory⟩)
    · exact Or.inl ((walked.files visit.path).mpr ⟨visit, visited, rfl, isDirectory⟩)
  · rw [name, posixPath_archivePath single safe.relative safe.nonempty safe.safe]
    rfl

/-- A built archive is within the limits when the manifest meets the three conditions. -/
theorem Built.within {root : Bytes} {manifest : Manifest} {source : Source} {members : List TarHeader}
    (built : Built root manifest source members) (single : SingleComponent root)
    (keeps : KeepsAuditLimits root manifest) : WithinAuditLimits members := by
  rcases built.manifestScanned with ⟨count, scan, scanned⟩
  have planned := built.planned
  have parts : ∀ path ∈ manifest.keys, path.parts = path.names := by
    intro path inKeys
    rcases List.mem_map.mp inKeys with ⟨item, member, rfl⟩
    exact if_pos (scanned.checked item member).relative
  have names : ∀ member ∈ members, member.name.length ≤ maxMemberNameBytes ∧ 0 ≤ member.size ∧
      member.size ≤ maxMemberBytes := by
    intro member written
    rcases built.canEmit written with
      ⟨relative, size, executable, isDirectory, _, _, _, within, lower, upper, rfl⟩
    rw [checkArchivePath, raiseIf_eq_ok, not_or, not_or, Nat.not_lt, Nat.not_lt, Nat.not_lt] at within
    refine ⟨within.2.2, ?_⟩
    cases isDirectory with
    | true => exact ⟨Int.le_refl 0, (by decide : (0 : Int) ≤ maxMemberBytes)⟩
    | false => exact ⟨lower, upper⟩
  refine
    { depth := ?_
      nameBytes := fun member written => (names member written).1
      retainedNames := (planned.map fun member => member.name.length).sum_eq ▸ keeps.retainedNames
      count := ?_
      files := ?_
      directories := ?_
      payload := fun member written => (names member written).2
      expanded := ?_
      paxRecord := ?_
      stream := ?_ }
  · intro member written
    rcases built.visited single written with ⟨path, place, _, depth⟩
    rw [depth]
    rcases place with isFile | ⟨file, isFile, above⟩
    · have short := keeps.depth path isFile
      rw [parts path isFile] at short
      exact Nat.succ_le_succ short
    · have short := keeps.depth file isFile
      rw [parts file isFile] at short
      have shorter := (mem_ancestorPaths.mp above).2.2.2
      omega
  · rw [planned.length_eq, plannedHeaders_eq, List.length_append, List.length_map, List.length_map]
    exact Nat.add_le_add count scanned.directories_le
  · rw [(planned.filter _).length_eq, plannedHeaders_files]
    exact count
  · rw [(planned.filter _).length_eq, plannedHeaders_directories]
    exact scanned.directories_le
  · rw [(planned.map TarHeader.size).sum_eq, plannedHeaders_sizes, ← scanned.payload]
    exact scanned.payloadBound
  · intro member written _
    have short : (storedName member).length ≤ maxMemberNameBytes + 1 := by
      have name := (names member written).1
      unfold storedName
      split
      · rw [List.length_append]
        exact Nat.succ_le_succ name
      · exact Nat.le_succ_of_le name
    exact ⟨short, paxRecordLength_le short⟩
  · have same : tarStreamSize members = tarStreamSize (plannedHeaders root manifest) :=
      congrArg canonicalTarStreamSize (planned.map memberSpan).sum_eq
    rw [same]
    exact keeps.stream

/-- The member of a file of the manifest. -/
theorem Built.member_of_key {root : Bytes} {manifest : Manifest} {source : Source} {members : List TarHeader}
    (built : Built root manifest source members) (single : SingleComponent root) {path : PosixPath}
    (inKeys : path ∈ manifest.keys) :
    path.root = [] ∧ ∃ member ∈ members, (posixPath member.name).parts.length = path.names.length + 1 := by
  have walked := built.walked
  rcases walked.checked with ⟨traversal, rfl, rfl, checked⟩
  rcases (walked.files path).mp inKeys with ⟨visit, visited, rfl, isFile⟩
  have safe := checked visit visited
  have name : (visit.header traversal.root).name = archivePath traversal.root visit.path := by
    rcases Option.ne_none_iff_exists'.mp isFile with ⟨found, isFound⟩
    rw [Visit.header, isFound]
    rfl
  refine ⟨safe.relative, visit.header traversal.root, ?_, ?_⟩
  · rw [built.members]
    exact List.mem_map_of_mem visited
  · rw [name, posixPath_archivePath single safe.relative safe.nonempty safe.safe]
    rfl

/-- The three conditions are needed. -/
theorem Built.keeps {root : Bytes} {manifest : Manifest} {source : Source} {members : List TarHeader}
    (built : Built root manifest source members) (single : SingleComponent root)
    (within : WithinAuditLimits members) : KeepsAuditLimits root manifest := by
  have planned := built.planned
  refine ⟨?_, (planned.map fun member => member.name.length).sum_eq ▸ within.retainedNames, ?_⟩
  · intro path inKeys
    rcases built.member_of_key single inKeys with ⟨isRelative, member, written, depth⟩
    have deep := within.depth member written
    have parts : path.parts = path.names := if_pos isRelative
    rw [depth] at deep
    rw [parts]
    exact Nat.le_of_succ_le_succ deep
  · have same : tarStreamSize members = tarStreamSize (plannedHeaders root manifest) :=
      congrArg canonicalTarStreamSize (planned.map memberSpan).sum_eq
    rw [← same]
    exact within.stream

/-- The names of a built archive survive being read back. -/
theorem Built.readBack_name {root : Bytes} {manifest : Manifest} {source : Source} {members : List TarHeader}
    (built : Built root manifest source members) {member : TarHeader} (written : member ∈ members) :
    (readBack member).name = member.name := by
  rcases built.canEmit written with ⟨relative, size, executable, isDirectory, isRelative, nonempty, safe, rest⟩
  rw [rest.2.2.2]
  exact Builder.readBack_name (getLast?_archivePath isRelative nonempty safe)

/-- Reading a built archive back changes nothing that the limits look at. -/
theorem Built.within_readBack {root : Bytes} {manifest : Manifest} {source : Source} {members : List TarHeader}
    (built : Built root manifest source members) :
    WithinAuditLimits (members.map readBack) ↔ WithinAuditLimits members := by
  have headers : members.map readBack = members.map fun member => { member with paxHeaders := paxPath member } := by
    refine List.map_congr_left fun member written => ?_
    have name := built.readBack_name written
    rw [readBack] at name ⊢
    dsimp only at name
    rw [name]
  rw [headers]
  exact withinAuditLimits_paxHeaders

theorem Built.single {root : Bytes} {manifest : Manifest} {source : Source} {members : List TarHeader}
    (built : Built root manifest source members) (slash : byte '/' ∉ root) : SingleComponent root := by
  refine ⟨slash, built.rootParts.2 root ?_⟩
  rw [splitSlashes, List.splitOn_eq_singleton slash]
  exact List.mem_singleton_self root

/-- A built archive is within the auditor's limits exactly when its manifest meets the three conditions that the
builder leaves unchecked. -/
theorem withinAuditLimits_iff (addfile : List TarHeader → TarHeader → Except String Unit) (source : Source)
    (root : Bytes) (manifest : Manifest) (rootUnchanged : Bool) (members : List TarHeader)
    (slash : byte '/' ∉ root) (run : addTree addfile source root manifest rootUnchanged = .ok members) :
    WithinAuditLimits (members.map readBack) ↔ KeepsAuditLimits root manifest := by
  have built := addTree_built run
  have single := built.single slash
  rw [built.within_readBack]
  exact ⟨built.keeps single, built.within single⟩

theorem withinAuditLimits_hyphen :
    ∃ members, addTree (fun _ _ => .ok ()) hyphenTree (lit "r") hyphenManifest true = .ok members ∧
      WithinAuditLimits (members.map readBack) := by
  have succeeds : (addTree (fun _ _ => .ok ()) hyphenTree (lit "r") hyphenManifest true).isOk = true := by
    decide
  cases run : addTree (fun _ _ => .ok ()) hyphenTree (lit "r") hyphenManifest true with
  | error message =>
      rw [run] at succeeds
      cases succeeds
  | ok members =>
      refine ⟨members, rfl, (withinAuditLimits_iff _ _ _ _ _ members (by decide) run).mpr ?_⟩
      exact ⟨by decide +kernel, by decide +kernel, by decide +kernel⟩

/-! ### A path that becomes too deep -/

/-- The directory `d/d/…/d`. -/
def deepDirectory (depth : Nat) : PosixPath := { root := [], names := List.replicate depth (lit "d") }

/-- A file in the last of 127 nested directories. -/
def deepPath : PosixPath := (deepDirectory 127).child (lit "f")

/-- What is found there. -/
def deepFile : FileObservation :=
  { size := 1, executable := false, bytesRead := 1, sha256 := List.replicate 64 '0', extra := false
    unchanged := true }

/-- The tree below a directory that has this many directories below it. -/
def deepTree : Nat → Source
  | 0 => .directory [lit "f"] nodup_file (fun _ => .file deepFile) true
  | below + 1 => .directory [lit "d"] (List.pairwise_singleton _ _) (fun _ => deepTree below) true

/-- The manifest of this tree. -/
def deepManifest : Manifest :=
  { entries := [(deepPath, { sha256 := List.replicate 64 '0', size := 1, mode := 0o644 })]
    nodup := List.pairwise_singleton _ _ }

/-- What the checks find of the path and of its entry. -/
structure DeepChecked : Prop where
  within : checkArchivePath (lit "r") deepPath = .ok ()
  short : deepPath.asPosix.length ≤ 4096
  decodes : DecodesStrictly deepPath.asPosix
  safe : ¬ (deepPath.parts = [] ∨ deepPath.root ≠ [] ∨ 128 < deepPath.parts.length ∨
    (∃ part ∈ deepPath.parts, part ∈ unsafeNames) ∨ maxArchivePathBytes < deepPath.asPosix.length ∨
    maxArchivePathBytes < (archivePath (lit "r") deepPath).length)
  valid : ∀ path entry, (path, entry) ∈ deepManifest.entries → ¬ (entry.size < 0 ∨ maxPublicFileBytes < entry.size ∨
    (entry.mode ≠ 0o644 ∧ entry.mode ≠ 0o755) ∨ entry.sha256.length ≠ 64 ∨ ¬ entry.sha256.all isLowerHex)

theorem deepChecked : DeepChecked where
  within := by decide +kernel
  short := by decide +kernel
  decodes := by decide +kernel
  safe := by decide +kernel
  valid := by
    rintro path entry member
    cases List.mem_singleton.mp member
    decide +kernel

theorem deepTree_directory (below : Nat) :
    ∃ names nodup child, deepTree below = .directory names nodup child true := by
  cases below with
  | zero => exact ⟨_, _, _, rfl⟩
  | succ below => exact ⟨_, _, _, rfl⟩

theorem archiveDirectoryNames_deep (name : Bytes) (safe : name = lit "d" ∨ name = lit "f") :
    archiveDirectoryNames [name] = .ok [name] := by
  rcases safe with rfl | rfl
  · decide
  · decide

theorem child_deepDirectory (depth : Nat) : (deepDirectory depth).child (lit "d") = deepDirectory (depth + 1) := by
  rw [deepDirectory, deepDirectory, PosixPath.child, List.replicate_succ']

theorem length_intercalate_replicate_le (separator piece : Bytes) (count : Nat) :
    (separator.intercalate (List.replicate count piece)).length ≤ count * (separator.length + piece.length) := by
  induction count with
  | zero => exact Nat.zero_le _
  | succ count ih =>
      cases count with
      | zero => simp
      | succ count =>
          rw [List.replicate_succ] at ih
          rw [List.replicate_succ, List.replicate_succ, List.intercalate_cons_cons, List.length_append,
            List.length_append, Nat.succ_mul]
          omega

theorem length_asPosix_deepDirectory (depth : Nat) : (deepDirectory depth).asPosix.length ≤ 2 * depth + 1 := by
  have joined : ([byte '/'].intercalate (deepDirectory depth).names).length ≤ depth * 2 :=
    length_intercalate_replicate_le [byte '/'] (lit "d") depth
  unfold PosixPath.asPosix
  split
  · exact Nat.succ_le_succ (Nat.zero_le _)
  · change ([] ++ [byte '/'].intercalate (deepDirectory depth).names).length ≤ _
    rw [List.nil_append]
    omega

theorem checkArchivePath_deep {depth : Nat} (small : depth ≤ 127) :
    checkArchivePath (lit "r") (deepDirectory depth) = .ok () := by
  have parts : (deepDirectory depth).parts.length = depth := by
    simp [PosixPath.parts, deepDirectory]
  have bytes := length_asPosix_deepDirectory depth
  have written : (archivePath (lit "r") (deepDirectory depth)).length = 2 + (deepDirectory depth).asPosix.length := by
    rw [archivePath, List.length_append, List.length_append]
    rfl
  have limit : maxArchivePathBytes = 4096 := rfl
  rw [checkArchivePath, raiseIf_eq_ok]
  omega

theorem ancestorPaths_deep : ancestorPaths deepPath = (List.range' 1 127).map deepDirectory := by
  have depth : deepPath.names.length - 1 = 127 := by
    rw [deepPath, PosixPath.child, List.length_append, deepDirectory, List.length_replicate]
    rfl
  rw [ancestorPaths, depth]
  apply List.map_congr_left
  intro index within
  have small : index ≤ 127 := by
    have bounds := List.mem_range'_1.mp within
    omega
  have names : (List.replicate 127 (lit "d") ++ [lit "f"]).take index = List.replicate index (lit "d") := by
    rw [List.take_append_of_le_length (small.trans_eq List.length_replicate.symm), List.take_replicate,
      Nat.min_eq_left small]
  exact congrArg (fun names => ({ root := [], names := names } : PosixPath)) names

theorem mem_ancestorPaths_deep {depth : Nat} (positive : 0 < depth) (small : depth ≤ 127) :
    deepDirectory depth ∈ ancestorPaths deepPath := by
  rw [ancestorPaths_deep]
  exact List.mem_map_of_mem (List.mem_range'_1.mpr ⟨positive, Nat.lt_succ_of_le small⟩)

theorem pathBytes_deep : pathBytes (ancestorPaths deepPath) ≤ 127 * 255 := by
  rw [pathBytes, ancestorPaths_deep, List.map_map]
  have each : ∀ bytes ∈ (List.range' 1 127).map ((fun path : PosixPath => path.asPosix.length) ∘ deepDirectory),
      bytes ≤ 255 := by
    intro bytes listed
    rcases List.mem_map.mp listed with ⟨depth, within, rfl⟩
    have bounds := List.mem_range'_1.mp within
    have bytes := length_asPosix_deepDirectory depth
    change (deepDirectory depth).asPosix.length ≤ 255
    omega
  have total := List.sum_le_card_nsmul _ _ each
  rwa [List.length_map, List.length_range'] at total

/-- A leaf that is what the manifest says. -/
theorem archiveFile_eq_ok {traversal : Traversal} {path : PosixPath} {found : FileObservation}
    {emission : Emission} {info : TarHeader} {entry : ArchiveEntry} (lower : 0 ≤ found.size)
    (upper : found.size ≤ maxPublicFileBytes) (total : emission.copiedBytes + found.size ≤ maxPublicTreeBytes)
    (header : info = archiveInfo (archivePath traversal.root path) found.size found.executable false)
    (expected : traversal.expectedManifest.get path = some entry)
    (written : traversal.addfile emission.members info = .ok ()) (read : found.bytesRead = found.size)
    (noExtra : found.extra = false) (unchanged : found.unchanged = true)
    (same : entry = { sha256 := found.sha256, size := found.bytesRead, mode := info.mode }) :
    archiveFile traversal path found emission = .ok
      { members := emission.members ++ [info]
        seenEntries := emission.seenEntries ++ [path]
        copiedBytes := emission.copiedBytes + found.size } := by
  have size : ¬ (found.size < 0 ∨ maxPublicFileBytes < found.size) := by omega
  have noChange : ¬ (found.bytesRead ≠ found.size ∨ found.extra = true) := by simp [read, noExtra]
  unfold archiveFile Traversal.write
  simp only [raiseIf_eq_ok.mpr size, raiseIf_eq_ok.mpr (Int.not_lt.mpr total), ok_bind, expected, ← header, written,
    raiseIf_eq_ok.mpr noChange, raiseIf_eq_ok.mpr (not_not.mpr same.symm), unchanged]
  rfl

/-- A directory with one file. -/
theorem archiveDirectory_oneFile {traversal : Traversal} {name : Bytes} {nodup : [name].Nodup}
    {child : Bytes → Source} {relative : PosixPath} {depth : Nat} {emission next : Emission}
    {found : FileObservation} (shallow : depth ≤ 128) (listed : archiveDirectoryNames [name] = .ok [name])
    (opened : child name = .file found) (within : checkArchivePath traversal.root (relative.child name) = .ok ())
    (archived : archiveFile traversal (relative.child name) found emission = .ok next) :
    archiveDirectory traversal (.directory [name] nodup child true) relative depth emission = .ok next := by
  unfold archiveDirectory
  rw [raiseIf_eq_ok.mpr (Nat.not_lt.mpr shallow), ok_bind, listed, ok_bind, List.foldlM_cons]
  simp only [within, ok_bind, opened, archived]
  rfl

/-- A directory with one directory. -/
theorem archiveDirectory_oneDirectory {traversal : Traversal} {name : Bytes} {nodup : [name].Nodup}
    {child : Bytes → Source} {relative : PosixPath} {depth : Nat} {emission announced next : Emission}
    {names : List Bytes} {inner : names.Nodup} {grandchild : Bytes → Source} (shallow : depth ≤ 128)
    (listed : archiveDirectoryNames [name] = .ok [name]) (opened : child name = .directory names inner grandchild true)
    (within : checkArchivePath traversal.root (relative.child name) = .ok ())
    (expected : relative.child name ∈ traversal.expectedDirectories)
    (written : traversal.write emission
      (archiveInfo (archivePath traversal.root (relative.child name)) 0 true true) = .ok announced)
    (below : archiveDirectory traversal (child name) (relative.child name) (depth + 1) announced = .ok next) :
    archiveDirectory traversal (.directory [name] nodup child true) relative depth emission = .ok next := by
  rw [opened] at below
  unfold archiveDirectory
  rw [raiseIf_eq_ok.mpr (Nat.not_lt.mpr shallow), ok_bind, listed, ok_bind, List.foldlM_cons]
  simp only [within, ok_bind, opened, raiseIf_eq_ok.mpr (not_not.mpr expected), written, below]
  rfl

/-- The traversal goes all the way down. -/
theorem archiveDirectory_deep {traversal : Traversal} {below depth : Nat} {emission : Emission}
    (written : ∀ members info, traversal.addfile members info = .ok ()) (root : traversal.root = lit "r")
    (manifest : traversal.expectedManifest = deepManifest)
    (expected : ∀ depth, 0 < depth → depth ≤ 127 → deepDirectory depth ∈ traversal.expectedDirectories)
    (total : depth + below = 127) (fresh : emission.copiedBytes = 0) :
    ∃ next, archiveDirectory traversal (deepTree below) (deepDirectory depth) depth emission = .ok next ∧
      next.seenEntries = emission.seenEntries ++ [deepPath] := by
  induction below generalizing depth emission with
  | zero =>
      cases total
      have within : checkArchivePath traversal.root deepPath = .ok () := by
        rw [root]
        exact DeepChecked.within deepChecked
      have known : traversal.expectedManifest.get deepPath =
          some { sha256 := List.replicate 64 '0', size := 1, mode := 0o644 } := by
        rw [manifest]
        exact Dict.get_eq_some_iff.mpr List.mem_cons_self
      have file := archiveFile_eq_ok (by decide : 0 ≤ deepFile.size) (by decide)
        (by rw [fresh]; decide : emission.copiedBytes + deepFile.size ≤ maxPublicTreeBytes) rfl known
        (written _ _) rfl rfl rfl rfl
      exact ⟨_, archiveDirectory_oneFile (Nat.le_succ 127) (archiveDirectoryNames_deep _ (Or.inr rfl)) rfl within file,
        rfl⟩
  | succ below ih =>
      have within := @checkArchivePath_deep (depth + 1) (by omega)
      have isExpected := expected (depth + 1) (Nat.succ_pos depth) (by omega)
      rw [← child_deepDirectory] at within isExpected
      let announced : Emission :=
        { emission with members := emission.members ++
            [archiveInfo (archivePath traversal.root ((deepDirectory depth).child (lit "d"))) 0 true true] }
      have write : traversal.write emission
          (archiveInfo (archivePath traversal.root ((deepDirectory depth).child (lit "d"))) 0 true true) =
          .ok announced := by
        rw [Traversal.write, written]
        rfl
      rcases @ih (depth + 1) announced (by omega) fresh with ⟨next, run, seen⟩
      rw [← child_deepDirectory] at run
      refine ⟨next, ?_, seen⟩
      rcases deepTree_directory below with ⟨names, nodup, child, opened⟩
      rw [deepTree]
      exact archiveDirectory_oneDirectory (by omega) (archiveDirectoryNames_deep _ (Or.inl rfl)) opened
        (root ▸ within) isExpected write run

/-- The loop over new ancestors, when they are within the limits. -/
theorem foldlM_expectDirectory {scan : ManifestScan} {paths : List PosixPath}
    (fresh : (scan.expectedDirectories ++ paths).Nodup)
    (count : (scan.expectedDirectories ++ paths).length ≤ maxArchiveDirectories)
    (bytes : scan.retainedPathBytes + pathBytes paths ≤ maxRetainedPathBytes) :
    paths.foldlM expectDirectory scan = .ok
      { scan with
        expectedDirectories := scan.expectedDirectories ++ paths
        retainedPathBytes := scan.retainedPathBytes + pathBytes paths } := by
  induction paths generalizing scan with
  | nil =>
      rw [List.foldlM_nil, List.append_nil]
      rfl
  | cons path rest ih =>
      have unknown : path ∉ scan.expectedDirectories := by
        intro known
        exact (List.disjoint_of_nodup_append fresh) known List.mem_cons_self
      have split : scan.expectedDirectories ++ path :: rest = (scan.expectedDirectories ++ [path]) ++ rest := by
        rw [List.append_assoc, List.singleton_append]
      have sum : pathBytes (path :: rest) = path.asPosix.length + pathBytes rest := by
        rw [← pathBytes_singleton, ← pathBytes_append, List.singleton_append]
      rw [split] at fresh count
      rw [sum, ← Nat.add_assoc] at bytes
      have length : (scan.expectedDirectories ++ [path]).length + rest.length ≤ maxArchiveDirectories := by
        rw [← List.length_append]
        exact count
      have step : expectDirectory scan path = .ok
          { scan with
            expectedDirectories := scan.expectedDirectories ++ [path]
            retainedPathBytes := scan.retainedPathBytes + path.asPosix.length } := by
        rw [expectDirectory, if_neg unknown]
        dsimp only
        rw [raiseIf_eq_ok.mpr, ok_bind, raiseIf_eq_ok.mpr, ok_bind]
        · rfl
        · exact Nat.not_lt.mpr (Nat.le_of_add_right_le bytes)
        · exact Nat.not_lt.mpr (Nat.le_of_add_right_le length)
      rw [List.foldlM_cons, step, ok_bind, ih fresh count bytes, split, sum, Nat.add_assoc]

/-- A manifest with one file. -/
theorem validateArchiveManifest_oneFile {root : Bytes} {path : PosixPath} {entry : ArchiveEntry}
    {nodup : ([(path, entry)].map Prod.fst).Nodup} (decodes : DecodesStrictly path.asPosix)
    (safe : ¬ (path.parts = [] ∨ path.root ≠ [] ∨ 128 < path.parts.length ∨
      (∃ part ∈ path.parts, part ∈ unsafeNames) ∨ maxArchivePathBytes < path.asPosix.length ∨
      maxArchivePathBytes < (archivePath root path).length))
    (valid : ¬ (entry.size < 0 ∨ maxPublicFileBytes < entry.size ∨ (entry.mode ≠ 0o644 ∧ entry.mode ≠ 0o755) ∨
      entry.sha256.length ≠ 64 ∨ ¬ entry.sha256.all isLowerHex)) (distinct : (ancestorPaths path).Nodup)
    (count : (ancestorPaths path).length ≤ maxArchiveDirectories)
    (bytes : path.asPosix.length + pathBytes (ancestorPaths path) ≤ maxRetainedPathBytes) :
    validateArchiveManifest { entries := [(path, entry)], nodup := nodup } root = .ok (ancestorPaths path) := by
  have payload : ¬ maxPublicTreeBytes < 0 + entry.size := by
    rw [not_or, not_or, maxPublicFileBytes] at valid
    rw [maxPublicTreeBytes]
    omega
  have retained : ¬ maxRetainedPathBytes < 0 + path.asPosix.length := by omega
  have loop := @foldlM_expectDirectory
    { retainedPathBytes := 0 + path.asPosix.length, payloadBytes := 0 + entry.size, expectedDirectories := [] }
    (ancestorPaths path) distinct count (by rw [Nat.zero_add]; exact bytes)
  have few : ¬ maxArchiveFiles < [(path, entry)].length := by
    rw [List.length_singleton]
    decide
  have checked : validateManifestEntry root { retainedPathBytes := 0, payloadBytes := 0, expectedDirectories := [] }
      (path, entry) = .ok
        { retainedPathBytes := 0 + path.asPosix.length + pathBytes (ancestorPaths path)
          payloadBytes := 0 + entry.size
          expectedDirectories := [] ++ ancestorPaths path } := by
    unfold validateManifestEntry
    simp only [raiseIf_eq_ok.mpr (not_not.mpr decodes), raiseIf_eq_ok.mpr safe, raiseIf_eq_ok.mpr valid,
      raiseIf_eq_ok.mpr payload, raiseIf_eq_ok.mpr retained, ok_bind, loop]
  rw [validateArchiveManifest, raiseIf_eq_ok.mpr few, ok_bind, List.foldlM_cons, checked, ok_bind]
  rfl

/-- What makes `add_tree` succeed. -/
theorem addTree_eq_ok {addfile : List TarHeader → TarHeader → Except String Unit} {source : Source}
    {root : Bytes} {manifest : Manifest} {expected : List PosixPath} {final : Emission}
    (parts : ¬ (root = [] ∨ ∃ part ∈ splitSlashes root, part ∈ unsafeNames))
    (normal : (posixPath root).asPosix = root) (decodes : DecodesStrictly root)
    (short : root.length ≤ maxArchivePathBytes) (validated : validateArchiveManifest manifest root = .ok expected)
    (run : archiveDirectory
      { addfile := addfile, root := root, expectedManifest := manifest, expectedDirectories := expected }
      source { root := [], names := [] } 0 { members := [], seenEntries := [], copiedBytes := 0 } = .ok final)
    (seen : final.seenEntries = manifest.keys) : addTree addfile source root manifest true = .ok final.members := by
  have complete : ¬ ¬ (final.seenEntries ⊆ manifest.keys ∧ manifest.keys ⊆ final.seenEntries) := by
    rw [seen, not_not]
    exact ⟨List.Subset.refl _, List.Subset.refl _⟩
  unfold addTree
  simp only [raiseIf_eq_ok.mpr parts, raiseIf_eq_ok.mpr (not_not.mpr normal),
    raiseIf_eq_ok.mpr (not_not.mpr decodes), raiseIf_eq_ok.mpr (Nat.not_lt.mpr short), ok_bind, validated, run,
    raiseIf_eq_ok.mpr complete]
  rfl

/-- The manifest is accepted. -/
theorem validateArchiveManifest_deep :
    validateArchiveManifest deepManifest (lit "r") = .ok (ancestorPaths deepPath) := by
  have lengths : (ancestorPaths deepPath).map (fun path => path.names.length) = List.range' 1 127 := by
    rw [ancestorPaths_deep, List.map_map]
    exact List.map_id'' (fun _ => List.length_replicate) _
  have nodup : (ancestorPaths deepPath).Nodup := by
    apply List.Nodup.of_map fun path => path.names.length
    rw [lengths]
    exact List.nodup_range'
  have count : (ancestorPaths deepPath).length ≤ maxArchiveDirectories := by
    rw [ancestorPaths_deep, List.length_map, List.length_range']
    decide
  have bytes : deepPath.asPosix.length + pathBytes (ancestorPaths deepPath) ≤ maxRetainedPathBytes := by
    have own := DeepChecked.short deepChecked
    have others := pathBytes_deep
    have limit : maxRetainedPathBytes = 16777216 := rfl
    omega
  have checked := deepChecked
  exact validateArchiveManifest_oneFile checked.decodes checked.safe (checked.valid _ _ List.mem_cons_self) nodup count
    bytes

/-- The builder writes an archive under the prefix `r` with a member that is 129 parts deep, and the audit reports
it. -/
theorem not_withinAuditLimits_deep :
    ∃ members, addTree (fun _ _ => .ok ()) (deepTree 127) (lit "r") deepManifest true = .ok members ∧
      ¬ WithinAuditLimits (members.map readBack) ∧
      ∃ member ∈ members.map readBack, ∀ policy state,
        s!"archive member depth exceeds 128: {escapedText member.name}" ∈
          nameFailures policy state member (posixPath member.name) := by
  have start : deepDirectory 0 = { root := [], names := [] } := rfl
  have known : ∃ directories, validateArchiveManifest deepManifest (lit "r") = .ok directories ∧
      ∀ depth, 0 < depth → depth ≤ 127 → deepDirectory depth ∈ directories :=
    ⟨ancestorPaths deepPath, validateArchiveManifest_deep, fun _ => mem_ancestorPaths_deep⟩
  rcases known with ⟨directories, validated, expected⟩
  rcases @archiveDirectory_deep
    { addfile := fun _ _ => .ok (), root := lit "r", expectedManifest := deepManifest
      expectedDirectories := directories }
    127 0 { members := [], seenEntries := [], copiedBytes := 0 } (fun _ _ => rfl) rfl rfl expected rfl rfl with
    ⟨final, run, seen⟩
  rw [start] at run
  have finished := addTree_eq_ok (by decide) (by decide) (by decide) (by decide)
    validated run seen
  have built := addTree_built finished
  have single : SingleComponent (lit "r") := ⟨by decide, by decide⟩
  rcases built.member_of_key single (List.mem_singleton_self deepPath) with ⟨_, member, written, depth⟩
  have deep : 128 < (posixPath (readBack member).name).parts.length := by
    rw [built.readBack_name written, depth]
    decide +kernel
  refine ⟨final.members, finished, ?_, readBack member, List.mem_map_of_mem written, ?_⟩
  · intro within
    exact absurd (within.depth _ (List.mem_map_of_mem written)) (Nat.not_le_of_lt deep)
  · exact fun policy state => depth_reported deep

end Builder

end ExitfyCores.Bundle
