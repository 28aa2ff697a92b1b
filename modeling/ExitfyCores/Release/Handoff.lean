/-
Module: ExitfyCores.Release.Handoff
Layer: Release
Purpose: `scripts/candidate_handoff.py`: the document that a build hands to the publisher, how it is made and how it is
  verified.
Imports: ExitfyCores.Lib.PyEqual, ExitfyCores.Lib.Sha256, ExitfyCores.Release.DraftState
Trusted boundary: human-reviewed spec; directories stay as they are while a script reads them, so the second looks at
  names and identities, and the calls that create the output directory, are left out
Main exports: Sha256, Node, Directory, Raised, CandidateProvenance, FamilyContract, validateProvenance, readRegular,
  readSnapshot, validateCoreAttestation, readArtifact, handoffDocument, verifyHandoff, createHandoff
Open obligations: none
-/
import ExitfyCores.Lib.PyEqual
import ExitfyCores.Lib.Sha256
import ExitfyCores.Release.DraftState

namespace ExitfyCores.Release

open Py

/-! ### Files -/

/-- `hashlib.sha256(raw).hexdigest()`, of which the scripts rely on the form only. -/
structure Sha256 where
  hexdigest : List UInt8 → Text
  hex : ∀ raw, isHexText 64 (hexdigest raw) = true

/-- The digest of `hashlib`. -/
def hashlib : Sha256 := ⟨sha256Hex, isHexText_sha256Hex⟩

/-- A regular file with one link, a directory, or anything else. -/
inductive Node where
  | file (raw : List UInt8)
  | directory (entries : List (Text × Node))
  | other

/-- A directory by the names in it. -/
abbrev Directory := List (Text × Node)

def Directory.node (directory : Directory) (name : Text) : Option Node :=
  (directory.find? fun entry => entry.1 = name).map Prod.snd

/-- `raise ValueError(message)`, or an exception of another class. -/
inductive Raised where
  | value (message : Text)
  | unexpected

/-- `DIGEST.fullmatch(value)` -/
def isDigest (value : Text) : Bool := isHexText 64 value

/-- `COMMIT.fullmatch(value)` -/
def isCommit (value : Text) : Bool := isHexText 40 value

/-- Two lists have the same members. -/
def SameNames (names expected : List Text) : Prop := (∀ name ∈ names, name ∈ expected) ∧ ∀ name ∈ expected, name ∈ names

instance (names expected : List Text) : Decidable (SameNames names expected) := inferInstanceAs (Decidable (_ ∧ _))

/-- `PurePosixPath(value).parts` of a relative path -/
def pathParts (value : Text) : List Text := (value.splitOn 47).filter fun part => part ≠ [] ∧ part ≠ text "."

/-- `_canonical_component(value, label)` -/
def canonicalComponent (value label : Text) : Except Raised Unit :=
  throwIf (value = [] ∨ value.head? = some 47 ∨ pathParts value ≠ [value] ∨ value = text ".." ∨ 0 ∈ value)
    (.value (label ++ text " is not a canonical filename"))

/-- The checks on one name of a directory. -/
def checkName (label name : Text) : Except Raised Unit := do
  throwIf (∃ c ∈ name, 0xD800 ≤ c ∧ c ≤ 0xDFFF) (.value (label ++ text " contains a non-UTF-8 name"))
  throwIf (255 < (encode name).length) (.value (label ++ text " contains an oversized name"))
  canonicalComponent name label

/-- `_directory_names(descriptor, label)` -/
def directoryNames (directory : Directory) (label : Text) : Except Raised (List Text) := do
  let names := directory.map Prod.fst
  throwIf (¬ names.Nodup) (.value (label ++ text " contains duplicate names"))
  names.forM (checkName label)
  return names

/-- `_read_regular(directory, name, maximum, label)`; the digest is the caller's to take. -/
def readRegular (directory : Directory) (name : Text) (maximum : Nat) (label : Text) : Except Raised (List UInt8) := do
  canonicalComponent name label
  match directory.node name with
  | none => throw .unexpected
  | some (.file raw) => do
      throwIf (raw.length = 0 ∨ maximum < raw.length)
        (.value (label ++ text " is not a bounded single-link regular file"))
      return raw
  | some _ => throw (.value (label ++ text " is not a bounded single-link regular file"))

/-- `_canonical_json(value)` -/
def canonicalJson (value : Value) : List UInt8 := encode (canonicalDumps value ++ text "\n")

/-- `_load_object(raw, label)` -/
def loadObject (raw : List UInt8) (label : Text) : Except Raised Object :=
  match loads raw with
  | .ok (.dict entries) => .ok entries
  | .ok _ => .error (.value (label ++ text " must be a JSON object"))
  | .error (.digits message) => .error (.value message)
  | .error _ => .error (.value (label ++ text " is not valid JSON"))

/-- `set(value) != {…}` -/
def HasKeys (object : Object) (keys : List String) : Prop := SameNames (object.map Prod.fst) (keys.map text)

instance (object : Object) (keys : List String) : Decidable (HasKeys object keys) :=
  inferInstanceAs (Decidable (SameNames _ _))

/-! ### The contract -/

/-- `ABIS` -/
def abis : List Text := [text "arm64-v8a"]

def maxCoreBytes : Nat := 64 * 1024 * 1024

def maxSourceBytes : Nat := 512 * 1024 * 1024

def maxPinBytes : Nat := 16 * 1024 * 1024

def maxHandoffBytes : Nat := 1024 * 1024

def handoffName : Text := text "candidate-handoff.json"

def coreAttestationName : Text := text "core-attestation.json"

def snapshotDir : Text := text "pin-snapshot"

def snapshotFiles : List Text := [text "go.mod", text "go.sum", text "snapshot.json"]

/-- `ABI_LAYOUT` -/
def abiLayout (abi : Text) : Option (Nat × Nat) := if abi = text "arm64-v8a" then some (2, 183) else none

def requiredExports : List Text := [text "StartCore", text "StopCore"]

def minAndroidPageAlignment : Nat := 16 * 1024

/-- What a candidate comes from. -/
structure CandidateProvenance where
  family : Text
  eventCommit : Text
  upstreamTag : Text
  upstreamCommit : Text
  goVersion : Text
  releaseTag : Text
  snapshotSha256 : Text

/-- The artifacts, the module path and the start of the release tag. -/
structure FamilyContract where
  artifacts : List Text
  modulePath : Text
  releasePrefix : Text

/-- `_family_contract(family, upstream_tag)` -/
def familyContract (family upstreamTag : Text) : Except Raised FamilyContract := do
  throwIf (upstreamGroups upstreamTag = none) (.value (text "upstream tag is invalid"))
  if family = text "xray" then
    return ⟨abis.map fun abi => text "libxray-" ++ abi ++ text ".so", text "github.com/xtls/libxray",
      text "xray-" ++ upstreamTag ++ text "-w"⟩
  else if family = text "sing_box" then
    return ⟨abis.map (fun abi => text "libexitfy-sb-" ++ abi ++ text ".so") ++
        [text "exitfy-sb-" ++ upstreamTag ++ text "-source.tar.gz"],
      text "github.com/sagernet/sing-box", text "sb-" ++ upstreamTag ++ text "-w"⟩
  else throw (.value (text "candidate family is invalid"))

/-- `GO_VERSION.fullmatch(value)` -/
def isGoVersion (value : Text) : Bool :=
  match (takeNumber value).bind fun major => takeDotNumber major.2 with
  | some (_, []) => true
  | some (_, rest) =>
      match takeDotNumber rest with
      | some (_, []) => true
      | _ => false
  | none => false

/-- `[2-9]|[1-9][0-9]+` -/
def isRevision (value : Text) : Bool := isNumeral value && value ≠ [49]

/-- `re.fullmatch(re.escape(release_prefix) + r"(?:[2-9]|[1-9][0-9]+)", release_tag)` -/
def isReleaseTag (releasePrefix releaseTag : Text) : Bool :=
  match stripStart releasePrefix releaseTag with
  | some revision => isRevision revision
  | none => false

/-- `_validate_provenance(…)` -/
def validateProvenance (provenance : CandidateProvenance) : Except Raised FamilyContract := do
  let contract ← familyContract provenance.family provenance.upstreamTag
  throwIf (isCommit provenance.eventCommit = false ∨ isCommit provenance.upstreamCommit = false)
    (.value (text "candidate commit provenance is invalid"))
  throwIf (isGoVersion provenance.goVersion = false) (.value (text "candidate Go version is invalid"))
  throwIf (isReleaseTag contract.releasePrefix provenance.releaseTag = false)
    (.value (text "candidate release tag is invalid"))
  throwIf (isDigest provenance.snapshotSha256 = false) (.value (text "candidate snapshot digest is invalid"))
  return contract

/-- `name.endswith(ending)` -/
def endsWith (ending : String) (name : Text) : Bool := (text ending).reverse.isPrefixOf name.reverse

/-- `_artifact_limit(name)` -/
def artifactLimit (name : Text) : Except Raised Nat :=
  if endsWith ".so" name then .ok maxCoreBytes
  else if endsWith "-source.tar.gz" name then .ok maxSourceBytes
  else .error (.value (text "unexpected candidate artifact"))

/-! ### The pin snapshot -/

/-- `expected_paths` -/
def expectedPinPaths (family : Text) : List Text :=
  if family = text "xray" then [text "go.mod", text "go.sum"] else [text "singbox/go.mod", text "singbox/go.sum"]

/-- A string that a condition holds of. -/
def isTextThat (holds : Text → Bool) : Value → Bool
  | .str value => holds value
  | _ => false

/-- The items of a list. -/
def listItems : Value → Option (List Value)
  | .list items => some items
  | _ => none

/-- `type(value) is int and minimum <= value <= maximum`, of a positive minimum -/
def isSize (minimum maximum : Nat) (value : Value) : Bool :=
  value.positiveInt.any fun size => minimum ≤ size && size ≤ maximum

/-- The checks on one record of a pin. -/
def isValidPin (record : Value) (path file : Text) : Bool :=
  match record with
  | .dict entries =>
      decide (HasKeys entries ["path", "file", "size", "sha256"]) && (Object.get entries "path").isText path &&
        (Object.get entries "file").isText file && isSize 1 maxPinBytes (Object.get entries "size") &&
        isTextThat isDigest (Object.get entries "sha256")
  | _ => false

/-- One turn of the loop over the records of the pins. -/
def checkPinRecord (record : Value × Text × Text) : Except Raised Unit :=
  throwIf (isValidPin record.1 record.2.1 record.2.2 = false) (.value (text "pin snapshot record is invalid"))

/-- `_validate_snapshot(raw, family, module_path, upstream_commit, snapshot_sha256)` -/
def validateSnapshot (sha256 : Sha256) (raw : List UInt8) (provenance : CandidateProvenance) (modulePath : Text) :
    Except Raised Object := do
  throwIf (sha256.hexdigest raw ≠ provenance.snapshotSha256)
    (.value (text "snapshot metadata digest does not match provenance"))
  let value ← loadObject raw (text "pin snapshot")
  throwIf (raw ≠ canonicalJson (.dict value)) (.value (text "pin snapshot is not canonical JSON"))
  throwIf (¬ HasKeys value ["schema", "modulePath", "moduleVersion", "originCommit", "pins"])
    (.value (text "pin snapshot fields do not match the contract"))
  let pins := listItems (value.get "pins")
  throwIf (pyEqual (value.get "schema") (.int 1) = false ∨ (value.get "modulePath").isText modulePath = false ∨
      (value.get "originCommit").isText provenance.upstreamCommit = false ∨
      isTextThat (· ≠ []) (value.get "moduleVersion") = false ∨ pins.map List.length ≠ some 2)
    (.value (text "pin snapshot provenance is invalid"))
  ((pins.getD []).zip ((expectedPinPaths provenance.family).zip [text "go.mod", text "go.sum"])).forM checkPinRecord
  return value

/-- The files of a snapshot and its metadata. -/
structure Snapshot where
  values : List (Text × List UInt8)
  metadata : Object

/-- `values[name][0]` -/
def fileOf (values : List (Text × List UInt8)) (name : Text) : List UInt8 :=
  ((values.find? fun value => value.1 = name).map Prod.snd).getD []

/-- The text of a string. -/
def textOf : Value → Text
  | .str value => value
  | _ => []

/-- One turn of the loop over the pins of the metadata. -/
def checkPinBytes (sha256 : Sha256) (values : List (Text × List UInt8)) (record : Value) : Except Raised Unit := do
  let raw := fileOf values (textOf (record.get "file"))
  throwIf ((record.get "size").isInt raw.length = false ∨ (record.get "sha256").isText (sha256.hexdigest raw) = false)
    (.value (text "snapshot pin bytes differ: " ++ textOf (record.get "file")))

/-- One file of a snapshot. -/
def readSnapshotFile (directory : Directory) (name : Text) : Except Raised (Text × List UInt8) := do
  let raw ← readRegular directory name maxPinBytes (text "pin snapshot " ++ name)
  return (name, raw)

/-- `_read_snapshot(directory, family, module_path, upstream_commit, snapshot_sha256)` -/
def readSnapshot (sha256 : Sha256) (directory : Directory) (provenance : CandidateProvenance) (modulePath : Text) :
    Except Raised Snapshot := do
  let names ← directoryNames directory (text "pin snapshot")
  throwIf (¬ SameNames names snapshotFiles) (.value (text "pin snapshot file set is not exact"))
  let values ← snapshotFiles.mapM (readSnapshotFile directory)
  let metadata ← validateSnapshot sha256 (fileOf values (text "snapshot.json")) provenance modulePath
  ((listItems (metadata.get "pins")).getD []).forM (checkPinBytes sha256 values)
  return ⟨values, metadata⟩

/-! ### The core attestation -/

/-- The size and the digest of a core in the attestation. -/
structure AttestedCore where
  name : Text
  size : Nat
  sha256 : Text
deriving DecidableEq

/-- `type(alignment) is int`, at least the page alignment, and a power of two -/
def isAlignment : Value → Bool
  | .int alignment =>
      (minAndroidPageAlignment : Int) ≤ alignment && alignment.toNat &&& (alignment.toNat - 1) == 0
  | _ => false

/-- `1024 * 1024 if family == "sing_box" else 1` -/
def minimumCoreSize (family : Text) : Nat := if family = text "sing_box" then 1024 * 1024 else 1

/-- The checks on one record of the attestation. -/
def isValidCore (minimum : Nat) (layout : Nat × Nat) (name : Text) (record : Value) : Bool :=
  match record with
  | .dict entries =>
      decide (HasKeys entries ["path", "size", "sha256", "elfClass", "machine", "exports", "loadAlignments"]) &&
        (Object.get entries "path").isText name && isSize minimum maxCoreBytes (Object.get entries "size") &&
        isTextThat isDigest (Object.get entries "sha256") && pyEqual (Object.get entries "elfClass") (.int layout.1) &&
        pyEqual (Object.get entries "machine") (.int layout.2) &&
        pyEqual (Object.get entries "exports") (.list (requiredExports.map Value.str)) &&
        ((listItems (Object.get entries "loadAlignments")).any fun alignments =>
          !alignments.isEmpty && alignments.all isAlignment)
  | _ => false

/-- The ABI that a core's name ends with. -/
def abiOf (name : Text) : Option Text := abis.find? fun abi => (text ".so").reverse ++ abi.reverse ++ [45] <+: name.reverse

/-- One turn of the loop over the records of the attestation. -/
def attestCore (family : Text) (record : Value × Text) : Except Raised AttestedCore :=
  match (abiOf record.2).bind abiLayout with
  | none => .error (.value (text "core attestation ABI is invalid"))
  | some layout => do
      throwIf (isValidCore (minimumCoreSize family) layout record.2 record.1 = false)
        (.value (text "core attestation record is invalid: " ++ record.2))
      return ⟨record.2, ((record.1.get "size").positiveInt).getD 0, textOf (record.1.get "sha256")⟩

/-- `sorted(names)` -/
def sortedTexts (names : List Text) : List Text := names.insertionSort (· ≤ ·)

/-- `_validate_core_attestation(raw, family, core_names)` -/
def validateCoreAttestation (raw : List UInt8) (family : Text) (coreNames : List Text) :
    Except Raised (List AttestedCore) := do
  let value ← loadObject raw (text "core attestation")
  throwIf (raw ≠ canonicalJson (.dict value)) (.value (text "core attestation is not canonical JSON"))
  throwIf (¬ HasKeys value ["schema", "family", "files"])
    (.value (text "core attestation fields do not match the contract"))
  let files := listItems (value.get "files")
  throwIf (pyEqual (value.get "schema") (.int 1) = false ∨ (value.get "family").isText family = false ∨
      files.map List.length ≠ some coreNames.length) (.value (text "core attestation provenance is invalid"))
  let records := files.getD []
  let expected := sortedTexts coreNames
  throwIf (pyEqualItems (records.map fun record => record.get "path") (expected.map Value.str) = false)
    (.value (text "core attestation file set is not exact"))
  (records.zip expected).mapM (attestCore family)

/-! ### The document -/

/-- One of the records of a handoff. -/
structure FileRecord where
  path : Text
  role : Text
  size : Nat
  sha256 : Text

/-- The record of some bytes. -/
def FileRecord.of (sha256 : Sha256) (path role : Text) (raw : List UInt8) : FileRecord :=
  ⟨path, role, raw.length, sha256.hexdigest raw⟩

def FileRecord.value (record : FileRecord) : Value :=
  .dict [(text "path", .str record.path), (text "role", .str record.role), (text "size", .int record.size),
    (text "sha256", .str record.sha256)]

/-- `"core" if name.endswith(".so") else "source"` -/
def artifactRole (name : Text) : Text := if endsWith ".so" name then text "core" else text "source"

/-- `"snapshot" if name == "snapshot.json" else "pin"` -/
def snapshotRole (name : Text) : Text := if name = text "snapshot.json" then text "snapshot" else text "pin"

/-- The records of all files, sorted by path. -/
def fileRecords (sha256 : Sha256) (artifacts : List (Text × List UInt8)) (attestation : List UInt8)
    (snapshot : List (Text × List UInt8)) : List FileRecord :=
  let ofArtifact := fun artifact : Text × List UInt8 =>
    FileRecord.of sha256 artifact.1 (artifactRole artifact.1) artifact.2
  let ofSnapshot := fun file : Text × List UInt8 =>
    FileRecord.of sha256 (snapshotDir ++ text "/" ++ file.1) (snapshotRole file.1) file.2
  let records := artifacts.map ofArtifact ++
    FileRecord.of sha256 coreAttestationName (text "verification") attestation :: snapshot.map ofSnapshot
  records.insertionSort fun first second => first.path ≤ second.path

/-- `"upstream"` of a handoff -/
def upstreamValue (provenance : CandidateProvenance) : Value :=
  .dict [(text "tag", .str provenance.upstreamTag), (text "commit", .str provenance.upstreamCommit),
    (text "goVersion", .str provenance.goVersion)]

/-- `"pinSnapshot"` of a handoff -/
def pinSnapshotValue (provenance : CandidateProvenance) (metadata : Object) : Value :=
  .dict [(text "metadataSha256", .str provenance.snapshotSha256), (text "modulePath", metadata.get "modulePath"),
    (text "moduleVersion", metadata.get "moduleVersion"), (text "originCommit", metadata.get "originCommit")]

/-- `handoff` of `create_handoff` -/
def handoffDocument (provenance : CandidateProvenance) (coreAttestationSha256 : Text) (metadata : Object)
    (records : List FileRecord) : Value :=
  .dict [(text "schema", .int 2), (text "family", .str provenance.family),
    (text "eventCommit", .str provenance.eventCommit), (text "releaseTag", .str provenance.releaseTag),
    (text "coreAttestationSha256", .str coreAttestationSha256), (text "upstream", upstreamValue provenance),
    (text "pinSnapshot", pinSnapshotValue provenance metadata), (text "files", .list (records.map FileRecord.value))]

/-! ### Verifying -/

/-- An artifact within its limit that agrees with the attestation when it is a core. -/
def readArtifact (sha256 : Sha256) (directory : Directory) (attested : List AttestedCore) (label name : Text) :
    Except Raised (Text × List UInt8) := do
  let limit ← artifactLimit name
  let raw ← readRegular directory name limit (label ++ name)
  throwIf (endsWith ".so" name = true ∧
      (attested.find? fun core => core.name = name) ≠ some ⟨name, raw.length, sha256.hexdigest raw⟩)
    (.value (label ++ name ++ text " differs from its ELF attestation"))
  return (name, raw)

/-- `_open_child_directory(parent, name, label)` -/
def openChildDirectory (parent : Directory) (name label : Text) : Except Raised Directory := do
  canonicalComponent name label
  match parent.node name with
  | some (.directory entries) => return entries
  | some _ => throw (.value (label ++ text " is not a directory"))
  | none => throw .unexpected

/-- The keys of a handoff. -/
def handoffKeys : List String :=
  ["schema", "family", "eventCommit", "releaseTag", "coreAttestationSha256", "upstream", "pinSnapshot", "files"]

/-- The document of a handoff as far as it can be checked by itself. -/
def loadHandoff (sha256 : Sha256) (root : Directory) (expectedSha256 : Text) (provenance : CandidateProvenance) :
    Except Raised Object := do
  let raw ← readRegular root handoffName maxHandoffBytes (text "candidate handoff")
  throwIf (sha256.hexdigest raw ≠ expectedSha256)
    (.value (text "candidate handoff digest does not match the build output"))
  let handoff ← loadObject raw (text "candidate handoff")
  throwIf (raw ≠ canonicalJson (.dict handoff)) (.value (text "candidate handoff is not canonical JSON"))
  throwIf (¬ HasKeys handoff handoffKeys) (.value (text "candidate handoff fields do not match the contract"))
  throwIf (pyEqual (handoff.get "schema") (.int 2) = false ∨
      (handoff.get "family").isText provenance.family = false ∨
      (handoff.get "eventCommit").isText provenance.eventCommit = false ∨
      (handoff.get "releaseTag").isText provenance.releaseTag = false ∨
      pyEqual (handoff.get "upstream") (upstreamValue provenance) = false)
    (.value (text "candidate handoff provenance differs"))
  return handoff

/-- The bytes behind a handoff agree with it. -/
def verifyBytes (sha256 : Sha256) (root : Directory) (provenance : CandidateProvenance) (contract : FamilyContract)
    (handoff : Object) : Except Raised Unit := do
  let directory ← openChildDirectory root snapshotDir (text "pin snapshot")
  let snapshot ← readSnapshot sha256 directory provenance contract.modulePath
  throwIf (pyEqual (handoff.get "pinSnapshot") (pinSnapshotValue provenance snapshot.metadata) = false)
    (.value (text "candidate snapshot provenance differs"))
  let attestation ← readRegular root coreAttestationName maxHandoffBytes (text "core attestation")
  throwIf ((handoff.get "coreAttestationSha256").isText (sha256.hexdigest attestation) = false)
    (.value (text "candidate core attestation digest differs"))
  let attested ← validateCoreAttestation attestation provenance.family (contract.artifacts.filter (endsWith ".so"))
  let artifacts ← (sortedTexts contract.artifacts).mapM
    (readArtifact sha256 root attested (text "candidate artifact "))
  let records := fileRecords sha256 artifacts attestation snapshot.values
  throwIf (pyEqual (handoff.get "files") (.list (records.map FileRecord.value)) = false)
    (.value (text "candidate bytes differ from the handoff manifest"))

/-- The names of a candidate directory. -/
def rootNames (contract : FamilyContract) (allowedExtraFiles : List Text) : List Text :=
  contract.artifacts ++ [handoffName, coreAttestationName, snapshotDir] ++ allowedExtraFiles

/-- One turn of the loop over the allowed files. -/
def checkExtraFile (root : Directory) (name : Text) : Except Raised Unit := do
  let _ ← readRegular root name maxHandoffBytes (text "allowed candidate file " ++ name)
  return ()

/-- `verify_handoff(directory, …)` -/
def verifyHandoff (sha256 : Sha256) (root : Directory) (expectedSha256 : Text) (provenance : CandidateProvenance)
    (allowedExtraFiles : List Text) : Except Raised Unit := do
  let contract ← validateProvenance provenance
  throwIf (isDigest expectedSha256 = false) (.value (text "candidate handoff digest is invalid"))
  allowedExtraFiles.forM fun name => canonicalComponent name (text "allowed candidate file")
  let names ← directoryNames root (text "candidate directory")
  throwIf (¬ SameNames names (rootNames contract allowedExtraFiles))
    (.value (text "candidate root file set is not exact"))
  (sortedTexts allowedExtraFiles).forM (checkExtraFile root)
  let handoff ← loadHandoff sha256 root expectedSha256 provenance
  verifyBytes sha256 root provenance contract handoff

/-! ### Creating -/

/-- What a build leaves: its artifacts, the pin snapshot, and the directory and name of the core attestation. -/
structure Build where
  artifacts : Directory
  snapshot : Directory
  attestationParent : Directory
  attestationName : Text

/-- The files that `create_handoff` writes. -/
def outputDirectory (artifacts : List (Text × List UInt8)) (attestation : List UInt8) (snapshot : Snapshot)
    (raw : List UInt8) : Directory :=
  artifacts.map (fun artifact => (artifact.1, .file artifact.2)) ++
    [(coreAttestationName, .file attestation),
      (snapshotDir, .directory (snapshot.values.map fun file => (file.1, .file file.2))), (handoffName, .file raw)]

/-- `create_handoff(…)`: the output directory and the digest of the handoff -/
def createHandoff (sha256 : Sha256) (build : Build) (provenance : CandidateProvenance) (coreAttestationSha256 : Text) :
    Except Raised (Directory × Text) := do
  let contract ← validateProvenance provenance
  let attestation ← readRegular build.attestationParent build.attestationName maxHandoffBytes (text "core attestation")
  throwIf (isDigest coreAttestationSha256 = false ∨ sha256.hexdigest attestation ≠ coreAttestationSha256)
    (.value (text "core attestation digest differs from the verifier output"))
  let attested ← validateCoreAttestation attestation provenance.family (contract.artifacts.filter (endsWith ".so"))
  let snapshot ← readSnapshot sha256 build.snapshot provenance contract.modulePath
  let artifacts ← (sortedTexts contract.artifacts).mapM
    (readArtifact sha256 build.artifacts attested (text "artifact "))
  let records := fileRecords sha256 artifacts attestation snapshot.values
  let raw := canonicalJson (handoffDocument provenance coreAttestationSha256 snapshot.metadata records)
  throwIf (maxHandoffBytes < raw.length) (.value (text "candidate handoff exceeds the safety limit"))
  let output := outputDirectory artifacts attestation snapshot raw
  verifyHandoff sha256 output (sha256.hexdigest raw) provenance []
  return (output, sha256.hexdigest raw)

end ExitfyCores.Release
