/-
Module: ExitfyCores.Proofs.Handoff
Layer: Proofs
Purpose: What `verify_handoff` and `create_handoff` accept, step by step, and that a verified handoff equals, as Python
  compares, the document that `create_handoff` makes of the same files.
Imports: ExitfyCores.Release.Handoff
Trusted boundary: none
Main exports: Readable, SnapshotRead, HandoffLoaded, BytesVerified, HandoffVerified, verifyHandoff_iff, HandoffCreated,
  createHandoff_iff, HandoffVerified.equal, HandoffVerified.canonical_iff, HandoffVerified.written
Open obligations: none
-/
import ExitfyCores.Release.Handoff

namespace ExitfyCores.Release

open Py

/-! ### Files -/

/-- The name passes `_canonical_component`. -/
def IsComponent (name : Text) : Prop :=
  ¬ (name = [] ∨ name.head? = some 47 ∨ pathParts name ≠ [name] ∨ name = text ".." ∨ 0 ∈ name)

/-- A regular file that is neither empty nor larger than the maximum. -/
structure Readable (directory : Directory) (name : Text) (maximum : Nat) (raw : List UInt8) : Prop where
  component : IsComponent name
  found : directory.node name = some (.file raw)
  positive : raw.length ≠ 0
  bounded : raw.length ≤ maximum

theorem canonicalComponent_iff {name label : Text} : canonicalComponent name label = .ok () ↔ IsComponent name := by
  rw [canonicalComponent, throwIf_eq_ok, IsComponent]

theorem readRegular_iff {directory : Directory} {name label : Text} {maximum : Nat} {raw : List UInt8} :
    readRegular directory name maximum label = .ok raw ↔ Readable directory name maximum raw := by
  rw [readRegular, check_bind_eq_ok, canonicalComponent_iff]
  constructor
  · rintro ⟨component, run⟩
    split at run
    · cases run
    · next found other =>
        rw [check_bind_eq_ok, throwIf_eq_ok, not_or, pure_eq_ok] at run
        obtain ⟨⟨positive, bounded⟩, same⟩ := run
        subst same
        exact ⟨component, other, positive, Nat.le_of_not_lt bounded⟩
    · cases run
  · intro readable
    rw [readable.found]
    refine ⟨readable.component, ?_⟩
    rw [check_bind_eq_ok, throwIf_eq_ok, not_or, pure_eq_ok]
    exact ⟨⟨readable.positive, Nat.not_lt.mpr readable.bounded⟩, rfl⟩

theorem Readable.congr {directory other : Directory} {name : Text} {maximum : Nat} {raw : List UInt8}
    (readable : Readable directory name maximum raw) (same : other.node name = directory.node name) :
    Readable other name maximum raw := { readable with found := same.trans readable.found }

theorem node_of_mem {directory : Directory} (nodup : (directory.map Prod.fst).Nodup) {name : Text} {node : Node}
    (member : (name, node) ∈ directory) : directory.node name = some node := by
  rw [Directory.node, find?_key nodup member]
  rfl

theorem loadObject_iff {raw : List UInt8} {label : Text} {object : Object} :
    loadObject raw label = .ok object ↔ loads raw = .ok (.dict object) := by
  unfold loadObject
  split <;> simp_all

/-- A name that passes the checks of a directory listing. -/
def IsName (name : Text) : Prop :=
  (¬ ∃ c ∈ name, 0xD800 ≤ c ∧ c ≤ 0xDFFF) ∧ (encode name).length ≤ 255 ∧ IsComponent name

theorem checkName_iff {label name : Text} : checkName label name = .ok () ↔ IsName name := by
  rw [checkName, check_bind_eq_ok, check_bind_eq_ok, throwIf_eq_ok, throwIf_eq_ok, canonicalComponent_iff, Nat.not_lt,
    IsName]

theorem directoryNames_iff {directory : Directory} {label : Text} {names : List Text} :
    directoryNames directory label = .ok names ↔
      (directory.map Prod.fst).Nodup ∧ (∀ name ∈ directory.map Prod.fst, IsName name) ∧ directory.map Prod.fst = names := by
  simp only [directoryNames, check_bind_eq_ok, throwIf_eq_ok, Decidable.not_not, forM_iff, checkName_iff, pure_eq_ok]

/-- A directory that holds exactly some names, each of which passes the checks. -/
structure Listed (directory : Directory) (expected : List Text) : Prop where
  nodup : (directory.map Prod.fst).Nodup
  names : ∀ name ∈ directory.map Prod.fst, IsName name
  same : SameNames (directory.map Prod.fst) expected

theorem listed_iff {directory : Directory} {label : Text} {expected : List Text} {rest : Prop} :
    (∃ names, directoryNames directory label = .ok names ∧ SameNames names expected ∧ rest) ↔
      Listed directory expected ∧ rest := by
  constructor
  · rintro ⟨names, listed, same, holds⟩
    obtain ⟨nodup, each, rfl⟩ := directoryNames_iff.mp listed
    exact ⟨⟨nodup, each, same⟩, holds⟩
  · rintro ⟨listed, holds⟩
    exact ⟨_, directoryNames_iff.mpr ⟨listed.nodup, listed.names, rfl⟩, listed.same, holds⟩

/-! ### The snapshot -/

/-- The records of the pins. -/
def pinRecords (metadata : Object) : List Value := (listItems (metadata.get "pins")).getD []

/-- What `_validate_snapshot` accepts. -/
structure SnapshotValid (sha256 : Sha256) (raw : List UInt8) (provenance : CandidateProvenance) (modulePath : Text)
    (metadata : Object) : Prop where
  digest : sha256.hexdigest raw = provenance.snapshotSha256
  loaded : loads raw = .ok (.dict metadata)
  canonical : raw = canonicalJson (.dict metadata)
  keys : HasKeys metadata ["schema", "modulePath", "moduleVersion", "originCommit", "pins"]
  schema : pyEqual (metadata.get "schema") (.int 1) = true
  modulePath : metadata.get "modulePath" = .str modulePath
  originCommit : metadata.get "originCommit" = .str provenance.upstreamCommit
  moduleVersion : ∃ version, version ≠ [] ∧ metadata.get "moduleVersion" = .str version
  count : (listItems (metadata.get "pins")).map List.length = some 2
  pins : ∀ record ∈ (pinRecords metadata).zip ((expectedPinPaths provenance.family).zip [text "go.mod", text "go.sum"]),
    isValidPin record.1 record.2.1 record.2.2 = true

theorem isText_iff_str {constant : Text} {value : Value} : value.isText constant = true ↔ value = .str constant := by
  cases value <;> simp [Value.isText]

theorem isTextThat_iff {holds : Text → Bool} {value : Value} :
    isTextThat holds value = true ↔ ∃ constant, holds constant = true ∧ value = .str constant := by
  cases value <;> simp [isTextThat]

theorem validateSnapshot_iff {sha256 : Sha256} {raw : List UInt8} {provenance : CandidateProvenance} {modulePath : Text}
    {metadata : Object} : validateSnapshot sha256 raw provenance modulePath = .ok metadata ↔
      SnapshotValid sha256 raw provenance modulePath metadata := by
  simp only [validateSnapshot, bind_eq_ok_iff, exists_unit, throwIf_eq_ok, not_or, Decidable.not_not, ne_eq,
    loadObject_iff, Bool.not_eq_false, isText_iff_str, isTextThat_iff, decide_eq_true_eq, forM_iff, pure_eq_ok,
    checkPinRecord]
  constructor
  · rintro ⟨digest, object, loaded, canonical, keys, ⟨schema, path, commit, version, count⟩, pins, same⟩
    subst same
    exact ⟨digest, loaded, canonical, keys, schema, path, commit, version, count, pins⟩
  · intro valid
    exact ⟨valid.digest, metadata, valid.loaded, valid.canonical, valid.keys,
      ⟨valid.schema, valid.modulePath, valid.originCommit, valid.moduleVersion, valid.count⟩, valid.pins, rfl⟩

/-- What `_read_snapshot` accepts. -/
structure SnapshotRead (sha256 : Sha256) (directory : Directory) (provenance : CandidateProvenance) (modulePath : Text)
    (snapshot : Snapshot) : Prop where
  listed : Listed directory snapshotFiles
  files : List.Forall₂ (fun name value => Readable directory name maxPinBytes value.2 ∧ name = value.1) snapshotFiles
    snapshot.values
  valid : SnapshotValid sha256 (fileOf snapshot.values (text "snapshot.json")) provenance modulePath snapshot.metadata
  pins : ∀ record ∈ pinRecords snapshot.metadata, (record.get "size").isInt
      (fileOf snapshot.values (textOf (record.get "file"))).length = true ∧
    (record.get "sha256").isText (sha256.hexdigest (fileOf snapshot.values (textOf (record.get "file")))) = true

theorem readSnapshotFile_iff {directory : Directory} {name : Text} {value : Text × List UInt8} :
    readSnapshotFile directory name = .ok value ↔ Readable directory name maxPinBytes value.2 ∧ name = value.1 := by
  obtain ⟨found, raw⟩ := value
  simp only [readSnapshotFile, bind_eq_ok_iff, readRegular_iff, pure_eq_ok, Prod.mk.injEq]
  constructor
  · rintro ⟨_, readable, same, sameRaw⟩
    exact ⟨sameRaw ▸ readable, same⟩
  · rintro ⟨readable, same⟩
    exact ⟨raw, readable, same, rfl⟩

theorem readSnapshot_iff {sha256 : Sha256} {directory : Directory} {provenance : CandidateProvenance} {modulePath : Text}
    {snapshot : Snapshot} : readSnapshot sha256 directory provenance modulePath = .ok snapshot ↔
      SnapshotRead sha256 directory provenance modulePath snapshot := by
  obtain ⟨values, metadata⟩ := snapshot
  simp only [readSnapshot, bind_eq_ok_iff, exists_unit, Decidable.not_not, listed_iff, mapM_iff, readSnapshotFile_iff,
    validateSnapshot_iff, forM_iff, checkPinBytes, throwIf_eq_ok, not_or, Bool.not_eq_false, pure_eq_ok, Snapshot.mk.injEq]
  constructor
  · rintro ⟨listed, _, files, _, valid, pins, same, sameMetadata⟩
    subst same sameMetadata
    exact ⟨listed, files, valid, pins⟩
  · intro read
    exact ⟨read.listed, _, read.files, _, read.valid, read.pins, rfl, rfl⟩

/-! ### The artifacts -/

/-- An artifact that `create_handoff` copies and `verify_handoff` reads, whatever they call it in an error. -/
structure ArtifactRead (sha256 : Sha256) (directory : Directory) (attested : List AttestedCore) (name : Text)
    (artifact : Text × List UInt8) : Prop where
  limited : ∃ limit, artifactLimit name = .ok limit ∧ Readable directory name limit artifact.2
  attested : endsWith ".so" name = true → (attested.find? fun core => core.name = name) =
    some ⟨name, artifact.2.length, sha256.hexdigest artifact.2⟩
  same : name = artifact.1

theorem readArtifact_iff {sha256 : Sha256} {directory : Directory} {attested : List AttestedCore} {label name : Text}
    {artifact : Text × List UInt8} : readArtifact sha256 directory attested label name = .ok artifact ↔
      ArtifactRead sha256 directory attested name artifact := by
  obtain ⟨found, raw⟩ := artifact
  simp only [readArtifact, bind_eq_ok_iff, exists_unit, readRegular_iff, throwIf_eq_ok, not_and, ne_eq,
    Decidable.not_not, pure_eq_ok, Prod.mk.injEq]
  constructor
  · rintro ⟨limit, limited, _, readable, attested, same, sameRaw⟩
    subst sameRaw
    exact ⟨⟨limit, limited, readable⟩, attested, same⟩
  · rintro ⟨⟨limit, limited, readable⟩, attested, same⟩
    exact ⟨limit, limited, raw, readable, attested, same, rfl⟩

/-- The artifacts of a candidate, in the order of their names. -/
abbrev ArtifactsRead (sha256 : Sha256) (directory : Directory) (attested : List AttestedCore) (names : List Text)
    (artifacts : List (Text × List UInt8)) : Prop :=
  List.Forall₂ (ArtifactRead sha256 directory attested) (sortedTexts names) artifacts

/-! ### The core attestation -/

/-- What the attestation says of one core. -/
structure CoreAttested (family name : Text) (entries : Object) (core : AttestedCore) : Prop where
  layout : ∃ layout, (abiOf name).bind abiLayout = some layout ∧
    pyEqual (entries.get "elfClass") (.int layout.1) = true ∧ pyEqual (entries.get "machine") (.int layout.2) = true
  keys : HasKeys entries ["path", "size", "sha256", "elfClass", "machine", "exports", "loadAlignments"]
  path : entries.get "path" = .str name
  sized : entries.get "size" = .int core.size
  bounds : max 1 (minimumCoreSize family) ≤ core.size ∧ core.size ≤ maxCoreBytes
  digest : entries.get "sha256" = .str core.sha256
  isDigest : isDigest core.sha256 = true
  exports : pyEqual (entries.get "exports") (.list (requiredExports.map Value.str)) = true
  alignments : ∃ alignments, entries.get "loadAlignments" = .list alignments ∧ alignments ≠ [] ∧
    ∀ alignment ∈ alignments, isAlignment alignment = true
  name : core.name = name

theorem positiveInt_eq_some {value : Value} {number : Nat} :
    value.positiveInt = some number ↔ value = .int number ∧ 0 < number := by
  cases value with
  | int value =>
      simp only [Value.positiveInt, Option.ite_none_right_eq_some, Option.some.injEq, Value.int.injEq]
      omega
  | _ => simp [Value.positiveInt]

theorem isSize_iff {minimum maximum : Nat} {value : Value} : isSize minimum maximum value = true ↔
    ∃ size : Nat, value = .int size ∧ max 1 minimum ≤ size ∧ size ≤ maximum := by
  rw [isSize, Option.any_eq_true]
  simp only [positiveInt_eq_some, Bool.and_eq_true, decide_eq_true_eq]
  constructor
  · rintro ⟨size, ⟨same, positive⟩, low, high⟩
    exact ⟨size, same, Nat.max_le.mpr ⟨positive, low⟩, high⟩
  · rintro ⟨size, same, low, high⟩
    exact ⟨size, ⟨same, Nat.le_trans (Nat.le_max_left _ _) low⟩, Nat.le_trans (Nat.le_max_right _ _) low, high⟩

theorem listItems_iff {value : Value} {items : List Value} : listItems value = some items ↔ value = .list items := by
  cases value <;> simp [listItems]

theorem attestCore_iff {family name : Text} {record : Value} {core : AttestedCore} :
    attestCore family (record, name) = .ok core ↔ ∃ entries, record = .dict entries ∧
      CoreAttested family name entries core := by
  unfold attestCore
  constructor
  · intro run
    split at run
    · cases run
    · next layout found =>
        simp only [bind_eq_ok_iff, exists_unit, throwIf_eq_ok, Bool.not_eq_false, pure_eq_ok] at run
        obtain ⟨valid, rfl⟩ := run
        unfold isValidCore at valid
        split at valid
        · next entries =>
            simp only [Bool.and_eq_true, decide_eq_true_eq, isText_iff_str, isSize_iff, isTextThat_iff, Option.any_eq_true,
              listItems_iff, Bool.not_eq_true', List.isEmpty_eq_false_iff, List.all_eq_true] at valid
            obtain ⟨⟨⟨⟨⟨⟨⟨keys, path⟩, size, sized, low, high⟩, digest, hex, sha⟩, elfClass⟩, machine⟩, exports⟩,
              alignments⟩ := valid
            have positive : ((Value.dict entries).get "size").positiveInt = some size :=
              positiveInt_eq_some.mpr ⟨sized, Nat.le_trans (Nat.le_max_left _ _) low⟩
            have text : (Value.dict entries).get "sha256" = .str digest := sha
            rw [positive, text]
            exact ⟨entries, rfl, ⟨layout, found, elfClass, machine⟩, keys, path, sized, ⟨low, high⟩, sha, hex, exports,
              alignments, rfl⟩
        · cases valid
  · rintro ⟨entries, same, attested⟩
    subst same
    obtain ⟨layout, found, elfClass, machine⟩ := attested.layout
    have valid : isValidCore (minimumCoreSize family) layout name (.dict entries) = true := by
      simp only [isValidCore, Bool.and_eq_true, decide_eq_true_eq, isText_iff_str, isSize_iff, isTextThat_iff,
        Option.any_eq_true, listItems_iff, Bool.not_eq_true', List.isEmpty_eq_false_iff, List.all_eq_true]
      exact ⟨⟨⟨⟨⟨⟨⟨attested.keys, attested.path⟩, _, attested.sized, attested.bounds⟩, _, attested.isDigest,
        attested.digest⟩, elfClass⟩, machine⟩, attested.exports⟩, attested.alignments⟩
    have positive : ((Value.dict entries).get "size").positiveInt = some core.size :=
      positiveInt_eq_some.mpr ⟨attested.sized, Nat.le_trans (Nat.le_max_left _ _) attested.bounds.1⟩
    have digest : (Value.dict entries).get "sha256" = .str core.sha256 := attested.digest
    simp only [found, bind_eq_ok_iff, exists_unit, throwIf_eq_ok, Bool.not_eq_false, pure_eq_ok, positive, digest]
    refine ⟨valid, ?_⟩
    rw [← attested.name]
    rfl

/-- What `_validate_core_attestation` accepts. -/
structure AttestationValid (raw : List UInt8) (family : Text) (coreNames : List Text) (attestation : Object)
    (records : List Value) (attested : List AttestedCore) : Prop where
  loaded : loads raw = .ok (.dict attestation)
  canonical : raw = canonicalJson (.dict attestation)
  keys : HasKeys attestation ["schema", "family", "files"]
  schema : pyEqual (attestation.get "schema") (.int 1) = true
  provenance : attestation.get "family" = .str family
  files : attestation.get "files" = .list records
  count : records.length = coreNames.length
  paths : pyEqualItems (records.map fun record => record.get "path") ((sortedTexts coreNames).map Value.str) = true
  cores : List.Forall₂ (fun record core => ∃ entries, record.1 = .dict entries ∧ CoreAttested family record.2 entries core)
    (records.zip (sortedTexts coreNames)) attested

theorem validateCoreAttestation_iff {raw : List UInt8} {family : Text} {coreNames : List Text}
    {attested : List AttestedCore} : validateCoreAttestation raw family coreNames = .ok attested ↔
      ∃ attestation records, AttestationValid raw family coreNames attestation records attested := by
  simp only [validateCoreAttestation, bind_eq_ok_iff, exists_unit, throwIf_eq_ok, not_or, Bool.not_eq_false,
    Decidable.not_not, ne_eq, loadObject_iff, isText_iff_str, mapM_iff]
  constructor
  · rintro ⟨attestation, loaded, canonical, keys, ⟨schema, sameFamily, count⟩, paths, cores⟩
    obtain ⟨records, found, length⟩ := Option.map_eq_some_iff.mp count
    rw [found, Option.getD_some] at paths cores
    exact ⟨attestation, records, loaded, canonical, keys, schema, sameFamily, listItems_iff.mp found, length, paths,
      cores.imp fun _ _ => attestCore_iff.mp⟩
  · rintro ⟨attestation, records, valid⟩
    have found := listItems_iff.mpr valid.files
    refine ⟨attestation, valid.loaded, valid.canonical, valid.keys, ⟨valid.schema, valid.provenance, ?_⟩, ?_, ?_⟩
    · rw [found, Option.map_some, valid.count]
    · rw [found]
      exact valid.paths
    · rw [found]
      exact valid.cores.imp fun _ _ => attestCore_iff.mpr

/-! ### Verifying -/

/-- What `verify_handoff` accepts of the document by itself. -/
structure HandoffLoaded (sha256 : Sha256) (root : Directory) (expectedSha256 : Text) (provenance : CandidateProvenance)
    (raw : List UInt8) (handoff : Object) : Prop where
  readable : Readable root handoffName maxHandoffBytes raw
  digest : sha256.hexdigest raw = expectedSha256
  loaded : loads raw = .ok (.dict handoff)
  canonical : raw = canonicalJson (.dict handoff)
  keys : HasKeys handoff handoffKeys
  schema : pyEqual (handoff.get "schema") (.int 2) = true
  family : handoff.get "family" = .str provenance.family
  eventCommit : handoff.get "eventCommit" = .str provenance.eventCommit
  releaseTag : handoff.get "releaseTag" = .str provenance.releaseTag
  upstream : pyEqual (handoff.get "upstream") (upstreamValue provenance) = true

theorem loadHandoff_iff {sha256 : Sha256} {root : Directory} {expectedSha256 : Text} {provenance : CandidateProvenance}
    {handoff : Object} : loadHandoff sha256 root expectedSha256 provenance = .ok handoff ↔
      ∃ raw, HandoffLoaded sha256 root expectedSha256 provenance raw handoff := by
  simp only [loadHandoff, bind_eq_ok_iff, exists_unit, readRegular_iff, throwIf_eq_ok, not_or, Decidable.not_not, ne_eq,
    loadObject_iff, Bool.not_eq_false, isText_iff_str, pure_eq_ok]
  constructor
  · rintro ⟨raw, readable, digest, object, loaded, canonical, keys, ⟨schema, family, commit, tag, upstream⟩, same⟩
    subst same
    exact ⟨raw, readable, digest, loaded, canonical, keys, schema, family, commit, tag, upstream⟩
  · rintro ⟨raw, loaded⟩
    exact ⟨raw, loaded.readable, loaded.digest, handoff, loaded.loaded, loaded.canonical, loaded.keys,
      ⟨loaded.schema, loaded.family, loaded.eventCommit, loaded.releaseTag, loaded.upstream⟩, rfl⟩

/-- The files behind a handoff. -/
structure Contents where
  directory : Directory
  snapshot : Snapshot
  attestation : List UInt8
  attested : List AttestedCore
  artifacts : List (Text × List UInt8)

/-- The records of the files. -/
def Contents.records (sha256 : Sha256) (contents : Contents) : List FileRecord :=
  fileRecords sha256 contents.artifacts contents.attestation contents.snapshot.values

/-- What `verify_handoff` accepts of the files behind the document. -/
structure BytesVerified (sha256 : Sha256) (root : Directory) (provenance : CandidateProvenance)
    (contract : FamilyContract) (handoff : Object) (contents : Contents) : Prop where
  opened : root.node snapshotDir = some (.directory contents.directory)
  snapshot : SnapshotRead sha256 contents.directory provenance contract.modulePath contents.snapshot
  pinSnapshot : pyEqual (handoff.get "pinSnapshot") (pinSnapshotValue provenance contents.snapshot.metadata) = true
  attestation : Readable root coreAttestationName maxHandoffBytes contents.attestation
  attestationDigest : handoff.get "coreAttestationSha256" = .str (sha256.hexdigest contents.attestation)
  attested : validateCoreAttestation contents.attestation provenance.family
    (contract.artifacts.filter (endsWith ".so")) = .ok contents.attested
  artifacts : ArtifactsRead sha256 root contents.attested contract.artifacts contents.artifacts
  files : pyEqual (handoff.get "files") (.list ((contents.records sha256).map FileRecord.value)) = true

theorem openChildDirectory_iff {parent directory : Directory} {name label : Text} (component : IsComponent name) :
    openChildDirectory parent name label = .ok directory ↔ parent.node name = some (.directory directory) := by
  rw [openChildDirectory, canonicalComponent_iff.mpr component, ok_bind]
  split <;> simp_all [pure, Except.pure, throw, throwThe, MonadExceptOf.throw]

theorem isComponent_snapshotDir : IsComponent snapshotDir := by
  unfold IsComponent
  decide

theorem verifyBytes_iff {sha256 : Sha256} {root : Directory} {provenance : CandidateProvenance}
    {contract : FamilyContract} {handoff : Object} : verifyBytes sha256 root provenance contract handoff = .ok () ↔
      ∃ contents, BytesVerified sha256 root provenance contract handoff contents := by
  simp only [verifyBytes, bind_eq_ok_iff, exists_unit, openChildDirectory_iff isComponent_snapshotDir, readSnapshot_iff,
    readRegular_iff, throwIf_eq_ok, Bool.not_eq_false, isText_iff_str, mapM_iff, readArtifact_iff]
  constructor
  · rintro ⟨directory, opened, snapshot, read, pinSnapshot, attestation, readable, digest, attested, validated, artifacts,
      artifactsRead, files⟩
    exact ⟨⟨directory, snapshot, attestation, attested, artifacts⟩,
      ⟨opened, read, pinSnapshot, readable, digest, validated, artifactsRead, files⟩⟩
  · rintro ⟨contents, verified⟩
    exact ⟨_, verified.opened, _, verified.snapshot, verified.pinSnapshot, _, verified.attestation,
      verified.attestationDigest, _, verified.attested, _, verified.artifacts, verified.files⟩

/-- What `verify_handoff` accepts. -/
structure HandoffVerified (sha256 : Sha256) (root : Directory) (expectedSha256 : Text) (provenance : CandidateProvenance)
    (allowedExtraFiles : List Text) (contract : FamilyContract) (raw : List UInt8) (handoff : Object)
    (contents : Contents) : Prop where
  valid : validateProvenance provenance = .ok contract
  extraNames : ∀ name ∈ allowedExtraFiles, IsComponent name
  listed : Listed root (rootNames contract allowedExtraFiles)
  extraFiles : ∀ name ∈ allowedExtraFiles, ∃ raw, Readable root name maxHandoffBytes raw
  loaded : HandoffLoaded sha256 root expectedSha256 provenance raw handoff
  bytes : BytesVerified sha256 root provenance contract handoff contents

theorem checkExtraFile_iff {root : Directory} {name : Text} :
    checkExtraFile root name = .ok () ↔ ∃ raw, Readable root name maxHandoffBytes raw := by
  simp only [checkExtraFile, bind_eq_ok_iff, readRegular_iff, pure_eq_ok, and_true]

theorem mem_sortedTexts {names : List Text} {name : Text} : name ∈ sortedTexts names ↔ name ∈ names :=
  List.mem_insertionSort _

theorem verifyHandoff_iff {sha256 : Sha256} {root : Directory} {expectedSha256 : Text} {provenance : CandidateProvenance}
    {allowedExtraFiles : List Text} :
    verifyHandoff sha256 root expectedSha256 provenance allowedExtraFiles = .ok () ↔ ∃ contract raw handoff contents,
      HandoffVerified sha256 root expectedSha256 provenance allowedExtraFiles contract raw handoff contents := by
  simp only [verifyHandoff, bind_eq_ok_iff, exists_unit, throwIf_eq_ok, Bool.not_eq_false, forM_iff,
    canonicalComponent_iff, Decidable.not_not, listed_iff, mem_sortedTexts, checkExtraFile_iff, loadHandoff_iff,
    verifyBytes_iff]
  constructor
  · rintro ⟨contract, valid, _, extraNames, listed, extraFiles, handoff, ⟨raw, loaded⟩, contents, bytes⟩
    exact ⟨contract, raw, handoff, contents, valid, extraNames, listed, extraFiles, loaded, bytes⟩
  · rintro ⟨contract, raw, handoff, contents, verified⟩
    exact ⟨contract, verified.valid, verified.loaded.digest ▸ sha256.hex raw, verified.extraNames, verified.listed,
      verified.extraFiles, handoff, ⟨raw, verified.loaded⟩, contents, verified.bytes⟩

/-! ### Creating -/

/-- What `create_handoff` accepts and writes. -/
structure HandoffCreated (sha256 : Sha256) (build : Build) (provenance : CandidateProvenance)
    (coreAttestationSha256 : Text) (contract : FamilyContract) (contents : Contents) (raw : List UInt8) : Prop where
  valid : validateProvenance provenance = .ok contract
  attestation : Readable build.attestationParent build.attestationName maxHandoffBytes contents.attestation
  attestationDigest : sha256.hexdigest contents.attestation = coreAttestationSha256
  attested : validateCoreAttestation contents.attestation provenance.family
    (contract.artifacts.filter (endsWith ".so")) = .ok contents.attested
  snapshot : SnapshotRead sha256 build.snapshot provenance contract.modulePath contents.snapshot
  artifacts : ArtifactsRead sha256 build.artifacts contents.attested contract.artifacts contents.artifacts
  document : raw = canonicalJson (handoffDocument provenance coreAttestationSha256 contents.snapshot.metadata
    (contents.records sha256))
  bounded : raw.length ≤ maxHandoffBytes
  verified : verifyHandoff sha256 (outputDirectory contents.artifacts contents.attestation contents.snapshot raw)
    (sha256.hexdigest raw) provenance [] = .ok ()

theorem createHandoff_iff {sha256 : Sha256} {build : Build} {provenance : CandidateProvenance}
    {coreAttestationSha256 : Text} {output : Directory} {digest : Text} :
    createHandoff sha256 build provenance coreAttestationSha256 = .ok (output, digest) ↔ ∃ contract contents raw,
      HandoffCreated sha256 build provenance coreAttestationSha256 contract contents raw ∧
        contents.directory = build.snapshot ∧
        outputDirectory contents.artifacts contents.attestation contents.snapshot raw = output ∧
        sha256.hexdigest raw = digest := by
  simp only [createHandoff, bind_eq_ok_iff, exists_unit, readRegular_iff, throwIf_eq_ok, not_or, Bool.not_eq_false,
    Decidable.not_not, ne_eq, readSnapshot_iff, mapM_iff, readArtifact_iff, Nat.not_lt, pure_eq_ok, Prod.mk.injEq]
  constructor
  · rintro ⟨contract, valid, attestation, readable, ⟨_, digest⟩, attested, validated, snapshot, read, artifacts,
      artifactsRead, bounded, verified, sameOutput, sameDigest⟩
    exact ⟨contract, ⟨build.snapshot, snapshot, attestation, attested, artifacts⟩, _,
      ⟨valid, readable, digest, validated, read, artifactsRead, rfl, bounded, verified⟩, rfl, sameOutput, sameDigest⟩
  · rintro ⟨contract, contents, raw, created, _, sameOutput, sameDigest⟩
    obtain ⟨valid, attestation, digest, attested, snapshot, artifacts, document, bounded, verified⟩ := created
    subst document
    exact ⟨contract, valid, _, attestation, ⟨digest ▸ sha256.hex contents.attestation, digest⟩, _, attested, _,
      snapshot, _, artifacts, bounded, verified, sameOutput, sameDigest⟩

/-! ### The document -/

theorem nodup_keys : (handoffKeys.map text).Nodup := by decide

theorem onlyIntegers_value (record : FileRecord) : onlyIntegers record.value = true := rfl

theorem distinct_value (record : FileRecord) : Distinct record.value := by
  have keys : (["path", "role", "size", "sha256"].map text).Nodup := by decide
  exact ⟨keys, trivial, trivial, trivial, trivial, trivial⟩

section

variable {sha256 : Sha256} {provenance : CandidateProvenance} {metadata : Object} {modulePath : Text}

theorem onlyIntegers_handoffDocument {raw : List UInt8} (valid : SnapshotValid sha256 raw provenance modulePath metadata)
    (digest : Text) (records : List FileRecord) :
    onlyIntegers (handoffDocument provenance digest metadata records) = true := by
  obtain ⟨version, _, moduleVersion⟩ := valid.moduleVersion
  have files : onlyIntegersItems (records.map FileRecord.value) = true := by
    rw [onlyIntegersItems_iff, List.forall_mem_map]
    exact fun record _ => onlyIntegers_value record
  rw [handoffDocument, pinSnapshotValue, valid.modulePath, valid.originCommit, moduleVersion]
  simp only [onlyIntegers, onlyIntegersEntries, upstreamValue, files, Bool.and_self]

theorem distinct_handoffDocument {raw : List UInt8} (valid : SnapshotValid sha256 raw provenance modulePath metadata)
    (digest : Text) (records : List FileRecord) : Distinct (handoffDocument provenance digest metadata records) := by
  obtain ⟨version, _, moduleVersion⟩ := valid.moduleVersion
  have files : DistinctItems (records.map FileRecord.value) := by
    rw [distinctItems_iff, List.forall_mem_map]
    exact fun record _ => distinct_value record
  have upstreamKeys : (["tag", "commit", "goVersion"].map text).Nodup := by decide
  have pinKeys : (["metadataSha256", "modulePath", "moduleVersion", "originCommit"].map text).Nodup := by decide
  rw [handoffDocument, pinSnapshotValue, valid.modulePath, valid.originCommit, moduleVersion]
  simp only [Distinct, DistinctEntries, upstreamValue, files, and_true]
  exact ⟨nodup_keys, trivial, trivial, trivial, trivial, trivial, upstreamKeys, pinKeys⟩

end

section

variable {sha256 : Sha256} {root : Directory} {expectedSha256 : Text} {provenance : CandidateProvenance}
  {allowedExtraFiles : List Text} {contract : FamilyContract} {raw : List UInt8} {handoff : Object} {contents : Contents}

/-- The document that `create_handoff` makes of the files behind a handoff. -/
abbrev Contents.document (sha256 : Sha256) (contents : Contents) (provenance : CandidateProvenance) : Value :=
  handoffDocument provenance (sha256.hexdigest contents.attestation) contents.snapshot.metadata (contents.records sha256)

/-- A verified handoff equals that document, as Python compares them. -/
theorem HandoffVerified.equal
    (verified : HandoffVerified sha256 root expectedSha256 provenance allowedExtraFiles contract raw handoff contents) :
    pyEqual (.dict handoff) (contents.document sha256 provenance) = true := by
  have distinct := loads_distinct verified.loaded.loaded
  have same : ∀ name, name ∈ handoff.map Prod.fst ↔ name ∈ handoffKeys.map text := fun name =>
    ⟨verified.loaded.keys.1 name, verified.loaded.keys.2 name⟩
  have str : ∀ value : Text, pyEqual (.str value) (.str value) = true := fun value => by simp [pyEqual, Value.isText]
  refine @pyEqual_dict handoff _ handoffKeys distinct.1 nodup_keys same (fun name => Iff.rfl) fun key member => ?_
  simp only [handoffKeys, List.mem_cons, List.not_mem_nil, or_false] at member
  rcases member with rfl | rfl | rfl | rfl | rfl | rfl | rfl | rfl
  · exact verified.loaded.schema
  · rw [verified.loaded.family]
    exact str _
  · rw [verified.loaded.eventCommit]
    exact str _
  · rw [verified.loaded.releaseTag]
    exact str _
  · rw [verified.bytes.attestationDigest]
    exact str _
  · exact verified.loaded.upstream
  · exact verified.bytes.pinSnapshot
  · exact verified.bytes.files

theorem canonicalJson_injective {first second : Value} (same : canonicalJson first = canonicalJson second) :
    canonicalDumps first = canonicalDumps second := by
  have newline : Ascii (text "\n") := by simp [text, Ascii]
  have texts := encode_injective (ascii_append (ascii_canonicalDumps first) newline)
    (ascii_append (ascii_canonicalDumps second) newline) same
  exact List.append_cancel_right texts

/-- The bytes of a verified handoff are that document just when no boolean and no float is in them. -/
theorem HandoffVerified.canonical_iff
    (verified : HandoffVerified sha256 root expectedSha256 provenance allowedExtraFiles contract raw handoff contents) :
    raw = canonicalJson (contents.document sha256 provenance) ↔ onlyIntegers (.dict handoff) = true := by
  have valid := verified.bytes.snapshot.valid
  rw [← canonicalDumps_eq_iff verified.equal (loads_distinct verified.loaded.loaded) (distinct_handoffDocument valid _ _)
    (onlyIntegers_handoffDocument valid _ _)]
  constructor
  · intro same
    exact canonicalJson_injective (verified.loaded.canonical ▸ same)
  · intro same
    rw [verified.loaded.canonical, canonicalJson, same, canonicalJson]

/-! ### The written directory -/

/-- The names of a family's artifacts. -/
theorem artifacts_cases {family upstreamTag : Text} (run : familyContract family upstreamTag = .ok contract) :
    (family = text "xray" ∧ contract.artifacts = [text "libxray-arm64-v8a.so"]) ∨
      (family = text "sing_box" ∧ contract.artifacts =
        [text "libexitfy-sb-arm64-v8a.so", text "exitfy-sb-" ++ upstreamTag ++ text "-source.tar.gz"]) := by
  obtain ⟨_, _, run⟩ := bind_eq_ok run
  split at run
  · next xray =>
      cases run
      exact .inl ⟨xray, rfl⟩
  · split at run
    · next singBox =>
        cases run
        exact .inr ⟨singBox, rfl⟩
    · cases run

theorem validateProvenance_contract (valid : validateProvenance provenance = .ok contract) :
    familyContract provenance.family provenance.upstreamTag = .ok contract := by
  simp only [validateProvenance, bind_eq_ok_iff, exists_unit, throwIf_eq_ok, pure_eq_ok] at valid
  obtain ⟨found, run, _, _, _, _, same⟩ := valid
  exact same ▸ run

/-- The first letter tells the source bundle from the other names. -/
theorem artifacts_nodup (valid : validateProvenance provenance = .ok contract) :
    (contract.artifacts ++ [coreAttestationName, snapshotDir, handoffName]).Nodup := by
  rcases artifacts_cases (validateProvenance_contract valid) with ⟨_, names⟩ | ⟨_, names⟩
  · rw [names]
    decide
  · have others : ([text "libexitfy-sb-arm64-v8a.so"] ++ [coreAttestationName, snapshotDir, handoffName]).Nodup := by
      decide
    have letters : ∀ name ∈ [text "libexitfy-sb-arm64-v8a.so"] ++ [coreAttestationName, snapshotDir, handoffName],
        name.head? ≠ some 101 := by decide
    rw [names]
    refine ((List.Perm.swap _ _ _).append_right _).nodup_iff.mpr (List.nodup_cons.mpr ⟨?_, others⟩)
    exact fun member => letters _ member rfl

/-- What is read for each name stands under it. -/
theorem map_fst_of_forall₂ {related : Text → Text × List UInt8 → Prop} {names : List Text}
    {values : List (Text × List UInt8)} (all : List.Forall₂ related names values)
    (same : ∀ name value, related name value → name = value.1) : values.map Prod.fst = names := by
  induction all with
  | nil => rfl
  | cons first _ ih => rw [List.map_cons, ih, ← same _ _ first]

theorem map_fst_outputDirectory (read : ArtifactsRead sha256 root contents.attested contract.artifacts contents.artifacts)
    (written : List UInt8) :
    (outputDirectory contents.artifacts contents.attestation contents.snapshot written).map Prod.fst =
      sortedTexts contract.artifacts ++ [coreAttestationName, snapshotDir, handoffName] := by
  rw [outputDirectory, List.map_append, List.map_map, ← map_fst_of_forall₂ read fun _ _ artifact => artifact.same]
  rfl

theorem perm_written (names : List Text) :
    (sortedTexts names ++ [coreAttestationName, snapshotDir, handoffName]).Perm
      (names ++ [coreAttestationName, snapshotDir, handoffName]) :=
  (List.perm_insertionSort _ _).append_right _

theorem nodup_outputDirectory (valid : validateProvenance provenance = .ok contract)
    (read : ArtifactsRead sha256 root contents.attested contract.artifacts contents.artifacts) (written : List UInt8) :
    ((outputDirectory contents.artifacts contents.attestation contents.snapshot written).map Prod.fst).Nodup := by
  rw [map_fst_outputDirectory read]
  exact (perm_written _).nodup_iff.mpr (artifacts_nodup valid)

theorem node_handoffName (valid : validateProvenance provenance = .ok contract)
    (read : ArtifactsRead sha256 root contents.attested contract.artifacts contents.artifacts) (written : List UInt8) :
    (outputDirectory contents.artifacts contents.attestation contents.snapshot written).node handoffName =
      some (.file written) :=
  node_of_mem (nodup_outputDirectory valid read written) (by simp [outputDirectory])

/-- The files of a snapshot that was read, put into another directory, are that snapshot. -/
theorem SnapshotRead.written {directory : Directory} {snapshot : Snapshot} {modulePath : Text}
    (read : SnapshotRead sha256 directory provenance modulePath snapshot) :
    SnapshotRead sha256 (snapshot.values.map fun file => (file.1, .file file.2)) provenance modulePath snapshot := by
  have names : (snapshot.values.map fun file : Text × List UInt8 => (file.1, Node.file file.2)).map Prod.fst =
      snapshotFiles := by
    rw [List.map_map, ← map_fst_of_forall₂ read.files fun _ _ file => file.2]
    rfl
  have nodup : snapshotFiles.Nodup := by decide
  refine ⟨⟨names ▸ nodup, ?_, names ▸ ⟨fun _ member => member, fun _ member => member⟩⟩, ?_, read.valid, read.pins⟩
  · intro name member
    rw [names] at member
    exact read.listed.names name (read.listed.same.2 name member)
  · refine (forall₂_mem read.files).imp fun name value ⟨member, readable, same⟩ => ⟨{ readable with found := ?_ }, same⟩
    rw [same]
    exact node_of_mem (names ▸ nodup) (List.mem_map.mpr ⟨value, member, rfl⟩)

/-- What `create_handoff` writes of the files behind a verified handoff is verified, if the document is the same. -/
theorem HandoffVerified.written
    (verified : HandoffVerified sha256 root expectedSha256 provenance allowedExtraFiles contract raw handoff contents) :
    verifyHandoff sha256 (outputDirectory contents.artifacts contents.attestation contents.snapshot raw)
      (sha256.hexdigest raw) provenance [] = .ok () := by
  obtain ⟨valid, _, listed, _, loaded, bytes⟩ := verified
  have names := map_fst_outputDirectory bytes.artifacts raw
  have perm := perm_written contract.artifacts
  have nodup := nodup_outputDirectory valid bytes.artifacts raw
  have among : ∀ name ∈ sortedTexts contract.artifacts ++ [coreAttestationName, snapshotDir, handoffName],
      name ∈ rootNames contract [] := by
    intro name member
    simpa [rootNames, or_comm, or_left_comm] using perm.mem_iff.mp member
  have written : Listed (outputDirectory contents.artifacts contents.attestation contents.snapshot raw)
      (rootNames contract []) := by
    refine ⟨nodup, ?_, ?_, ?_⟩
    · intro name member
      rw [names] at member
      have known := among name member
      refine listed.names name (listed.same.2 name ?_)
      simp only [rootNames, List.append_nil] at known ⊢
      exact List.mem_append_left _ known
    · rw [names]
      exact among
    · intro name member
      rw [names, perm.mem_iff]
      simpa [rootNames, or_comm, or_left_comm] using member
  have attestation : Readable (outputDirectory contents.artifacts contents.attestation contents.snapshot raw)
      coreAttestationName maxHandoffBytes contents.attestation :=
    { bytes.attestation with found := node_of_mem nodup (by simp [outputDirectory]) }
  have document : Readable (outputDirectory contents.artifacts contents.attestation contents.snapshot raw) handoffName
      maxHandoffBytes raw := { loaded.readable with found := node_handoffName valid bytes.artifacts raw }
  have artifacts : ArtifactsRead sha256 (outputDirectory contents.artifacts contents.attestation contents.snapshot raw)
      contents.attested contract.artifacts contents.artifacts := by
    refine (forall₂_mem bytes.artifacts).imp fun name artifact ⟨member, read⟩ => ?_
    obtain ⟨limit, limited, readable⟩ := read.limited
    refine { read with limited := ⟨limit, limited, { readable with found := ?_ }⟩ }
    rw [read.same]
    refine node_of_mem nodup (List.mem_append_left _ ?_)
    exact List.mem_map.mpr ⟨artifact, member, rfl⟩
  have none : ∀ name ∈ ([] : List Text), False := fun _ member => by cases member
  have read : BytesVerified sha256 (outputDirectory contents.artifacts contents.attestation contents.snapshot raw)
      provenance contract handoff
      { contents with directory := contents.snapshot.values.map fun file => (file.1, .file file.2) } :=
    { bytes with
      opened := node_of_mem nodup (by simp [outputDirectory])
      snapshot := bytes.snapshot.written
      attestation := attestation
      artifacts := artifacts }
  exact verifyHandoff_iff.mpr ⟨contract, raw, handoff, _, ⟨valid, fun _ member => (none _ member).elim, written,
    fun _ member => (none _ member).elim, { loaded with readable := document, digest := rfl }, read⟩⟩

end

end ExitfyCores.Release
