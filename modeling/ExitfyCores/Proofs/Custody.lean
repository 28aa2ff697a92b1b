/-
Module: ExitfyCores.Proofs.Custody
Layer: Proofs
Purpose: What follows from a run of `verify_published_candidate` that succeeds: the public assets, the local bytes, the
  handoff, the core attestation, the manifest, the tag reference and the pins agree along the whole chain.
Imports: ExitfyCores.Release.PublishedCandidate, ExitfyCores.Proofs.RemoteRelease
Trusted boundary: none
Main exports: PublishedVerified, verifyPublishedCandidate_iff, Custody, PublishedVerified.custody
Open obligations: none
-/
import ExitfyCores.Release.PublishedCandidate
import ExitfyCores.Proofs.RemoteRelease

namespace ExitfyCores.Release

open Py

/-! ### What is accepted -/

theorem readStable_iff {node : Option Node} {maximum : Nat} {label : Text} {raw : List UInt8} :
    readStable node maximum label = .ok raw ↔ node = some (.file raw) ∧ raw.length ≤ maximum := by
  unfold readStable
  split
  · constructor
    · intro run
      cases run
    · rintro ⟨same, _⟩
      cases same
  · next found =>
      simp only [bind_eq_ok_iff, exists_unit, throwIf_eq_ok, Nat.not_lt, pure_eq_ok, Option.some.injEq, Node.file.injEq]
      constructor
      · rintro ⟨bounded, rfl⟩
        exact ⟨rfl, bounded⟩
      · rintro ⟨rfl, bounded⟩
        exact ⟨bounded, rfl⟩
  · next found other =>
      constructor
      · intro run
        cases run
      · rintro ⟨same, _⟩
        exact absurd (Option.some.inj same) (other raw)

theorem loadJson_iff {raw : List UInt8} {label : Text} {value : Value} :
    loadJson raw label = .ok value ↔ loads raw = .ok value := by
  unfold loadJson
  split <;> simp_all

/-- The one reference of the tag. -/
structure TagReference (items : List Value) (tag expectedCommit : Text) (reference : Value) : Prop where
  malformed : (flattenReferences items).all isDict = true
  exact : exactReferences (flattenReferences items) tag = [reference]
  type : (reference.get "object").get "type" = .str (text "commit")
  sha : (reference.get "object").get "sha" = .str expectedCommit

theorem verifyTagReferences_iff {value : Value} {tag expectedCommit : Text} :
    verifyTagReferences value tag expectedCommit false = .ok () ↔
      (tag ≠ [] ∧ tag.any Py.isSpace = false) ∧ isCommit expectedCommit = true ∧ ∃ items reference,
        value = .list items ∧ TagReference items tag expectedCommit reference := by
  simp only [verifyTagReferences, bind_eq_ok_iff, exists_unit, throwIf_eq_ok, not_or, Bool.not_eq_false,
    Bool.not_eq_true]
  refine and_congr_right' (and_congr_right' ?_)
  constructor
  · intro run
    split at run
    · next items =>
        simp only [bind_eq_ok_iff, exists_unit, throwIf_eq_ok, Bool.not_eq_false] at run
        obtain ⟨wellFormed, run⟩ := run
        split at run
        · cases run
        · next reference found =>
            simp only [throwIf_eq_ok, not_or, Bool.not_eq_false, isText_iff_str] at run
            exact ⟨items, reference, rfl, wellFormed, found, run.1, run.2⟩
        · cases run
    · cases run
  · rintro ⟨items, reference, rfl, wellFormed, found, type, sha⟩
    simp only [found, bind_eq_ok_iff, exists_unit, throwIf_eq_ok, not_or, Bool.not_eq_false, isText_iff_str]
    exact ⟨wellFormed, type, sha⟩

/-- What stands behind a published candidate. -/
structure PublishedParts where
  contract : FamilyContract
  handoffRaw : List UInt8
  handoff : Object
  contents : Contents
  release : Object
  references : List Value
  reference : Value
  manifestRaw : List UInt8
  manifest : Object
  parts : ManifestParts
  assets : AssetMap
  entries : Object

/-- The release is the public one of the tag. -/
structure PublishedIdentity (release : Object) (releaseTag wrapperCommit : Text) : Prop where
  tagName : release.get "tag_name" = .str releaseTag
  target : release.get "target_commitish" = .str wrapperCommit
  draft : isFalse (release.get "draft") = true
  prerelease : isFalse (release.get "prerelease") = true
  id : (release.get "id").positiveInt ≠ none

theorem checkPublishedIdentity_iff {release : Object} {releaseTag wrapperCommit : Text} :
    checkPublishedIdentity release releaseTag wrapperCommit = .ok () ↔
      PublishedIdentity release releaseTag wrapperCommit := by
  simp only [checkPublishedIdentity, throwIf_eq_ok, not_or, Bool.not_eq_false, isText_iff_str]
  exact ⟨fun ⟨name, target, draft, prerelease, id⟩ => ⟨name, target, draft, prerelease, id⟩,
    fun identity => ⟨identity.tagName, identity.target, identity.draft, identity.prerelease, identity.id⟩⟩

/-- A public asset with the size and the digest of a file of the candidate. -/
structure AssetPublished (sha256 : Sha256) (root : Directory) (assets : AssetMap) (name : Text) (raw : List UInt8)
    (remote : Object) : Prop where
  limited : ∃ limit, artifactLimit name = .ok limit ∧ Readable root name limit raw
  found : assets.asset name = some remote
  same : sameAsset remote (.int raw.length) (sha256.hexdigest raw) = true

theorem checkPublishedAsset_iff {sha256 : Sha256} {root : Directory} {assets : AssetMap} {name : Text} :
    checkPublishedAsset sha256 root assets name = .ok () ↔ ∃ raw remote,
      AssetPublished sha256 root assets name raw remote := by
  simp only [checkPublishedAsset, bind_eq_ok_iff, readRegular_iff]
  constructor
  · rintro ⟨limit, limited, raw, readable, run⟩
    split at run
    · cases run
    · next remote found =>
        exact ⟨raw, remote, ⟨limit, limited, readable⟩, found, Bool.not_eq_false _ ▸ throwIf_eq_ok.mp run⟩
  · rintro ⟨raw, remote, ⟨limit, limited, readable⟩, found, same⟩
    refine ⟨limit, limited, raw, readable, ?_⟩
    rw [found]
    exact throwIf_eq_ok.mpr (Bool.not_eq_false _ ▸ same)

/-- What `verify_published_candidate` accepts. -/
structure PublishedVerified (sha256 : Sha256) (root : Directory) (files : PublishedFiles) (handoffSha256 : Text)
    (provenance : CandidateProvenance) (wrapperCommit : Text) (published : PublishedParts) : Prop where
  handoff : HandoffVerified sha256 root handoffSha256 provenance [manifestName] published.contract published.handoffRaw
    published.handoff published.contents
  wrapper : isCommit wrapperCommit = true
  release : ∃ raw, (files.release = some (.file raw) ∧ raw.length ≤ maxReleaseBytes) ∧
    loads raw = .ok (.dict published.release)
  identity : PublishedIdentity published.release provenance.releaseTag wrapperCommit
  references : ∃ raw, (files.references = some (.file raw) ∧ raw.length ≤ maxReferencesBytes) ∧
    loads raw = .ok (.list published.references)
  tag : provenance.releaseTag ≠ [] ∧ provenance.releaseTag.any Py.isSpace = false
  reference : TagReference published.references provenance.releaseTag wrapperCommit published.reference
  localManifest : Readable root manifestName maxManifestBytes published.manifestRaw
  remoteManifest : files.remoteManifest = some (.file published.manifestRaw)
  manifest : loads published.manifestRaw = .ok (.dict published.manifest)
  remote : RemoteVerified sha256 published.release published.manifest published.manifestRaw
    ⟨provenance.family, provenance.upstreamCommit, wrapperCommit, false⟩ published.parts published.assets published.entries
  names : SameNames (published.assets.map Prod.fst) (published.contract.artifacts ++ [manifestName])
  artifacts : ∀ name ∈ published.contract.artifacts, ∃ raw remote,
    AssetPublished sha256 root published.assets name raw remote

theorem checkPublishedManifest_iff {sha256 : Sha256} {assets : AssetMap} {manifest : List UInt8} :
    checkPublishedManifest sha256 assets manifest manifest = .ok () ↔ ∃ remote,
      assets.asset manifestName = some remote ∧
        sameAsset remote (.int manifest.length) (sha256.hexdigest manifest) = true := by
  unfold checkPublishedManifest
  split
  · next missing =>
      constructor
      · intro run
        cases run
      · rintro ⟨_, found, _⟩
        cases missing.symm.trans found
  · next remote found =>
      simp [throwIf_eq_ok, found]

theorem verifyPublishedCandidate_iff {sha256 : Sha256} {root : Directory} {files : PublishedFiles} {handoffSha256 : Text}
    {provenance : CandidateProvenance} {wrapperCommit : Text} :
    verifyPublishedCandidate sha256 root files handoffSha256 provenance wrapperCommit = .ok () ↔
      ∃ published, PublishedVerified sha256 root files handoffSha256 provenance wrapperCommit published := by
  simp only [verifyPublishedCandidate, bind_eq_ok_iff, exists_unit, verifyHandoff_iff, throwIf_eq_ok, Bool.not_eq_false,
    readStable_iff, loadObject_iff, checkPublishedIdentity_iff, loadJson_iff, verifyTagReferences_iff, readRegular_iff,
    Decidable.not_not, ne_eq, verifyRemoteRelease_iff, forM_iff, mem_sortedTexts, checkPublishedAsset_iff]
  constructor
  · rintro ⟨⟨contract, handoffRaw, handoff, contents, verified⟩, wrapper, releaseRaw, readRelease, release, loadedRelease,
      identity, referencesRaw, readReferences, value, loadedReferences, ⟨tag, _, references, reference, rfl, isReference⟩,
      manifestRaw, readable, remoteManifest, ⟨readRemote, bounded⟩, rfl, manifest, loadedManifest,
      ⟨parts, assets, entries, remote⟩, assets', mapped, contract', sameContract, names, artifacts, _⟩
    cases remote.mapped.symm.trans mapped
    cases (validateProvenance_contract verified.valid).symm.trans sameContract
    exact ⟨⟨contract, handoffRaw, handoff, contents, release, references, reference, remoteManifest, manifest, parts,
      assets, entries⟩, verified, wrapper, ⟨releaseRaw, readRelease, loadedRelease⟩, identity,
      ⟨referencesRaw, readReferences, loadedReferences⟩, tag, isReference, readable, readRemote, loadedManifest, remote,
      names, artifacts⟩
  · rintro ⟨published, verified⟩
    obtain ⟨releaseRaw, readRelease, loadedRelease⟩ := verified.release
    obtain ⟨referencesRaw, readReferences, loadedReferences⟩ := verified.references
    exact ⟨⟨_, _, _, _, verified.handoff⟩, verified.wrapper, releaseRaw, readRelease, _, loadedRelease, verified.identity,
      referencesRaw, readReferences, _, loadedReferences, ⟨verified.tag, verified.wrapper, _, _, rfl, verified.reference⟩,
      _, verified.localManifest, _, ⟨verified.remoteManifest, verified.localManifest.bounded⟩, rfl, _, verified.manifest,
      ⟨_, _, _, verified.remote⟩, _, verified.remote.mapped, _, validateProvenance_contract verified.handoff.valid,
      verified.names, verified.artifacts, checkPublishedManifest_iff.mpr verified.remote.manifestAsset⟩

/-! ### The chain of custody -/

/-- The documents of a published candidate. -/
structure Documents where
  contract : FamilyContract
  handoff : Object
  attestation : Object
  snapshot : Directory
  metadata : Object
  release : Object
  references : List Value
  manifest : Object

/-- A record of the size and the digest of some bytes. -/
structure RecordsBytes (sha256 : Sha256) (raw : List UInt8) (record : Value) : Prop where
  size : record.get "size" = .int raw.length
  digest : record.get "sha256" = .str (sha256.hexdigest raw)

/-- Each public asset of the name has the size and the digest of the bytes. -/
def AssetsCarry (sha256 : Sha256) (release : Object) (name : Text) (raw : List UInt8) : Prop :=
  ∀ values, release.get "assets" = .list values → ∀ remote ∈ values, remote.get "name" = .str name →
    remote.get "size" = .int raw.length ∧ remote.get "digest" = .str (text "sha256:" ++ sha256.hexdigest raw)

/-- The names of the public assets are these, each once. -/
def AssetsNamed (release : Object) (expected : List Text) : Prop :=
  ∃ values names, release.get "assets" = .list values ∧ (values.map fun value => value.get "name") = names.map Value.str ∧
    names.Nodup ∧ SameNames names expected

/-- The handoff has a record of the path, and all such records have a size that equals that of the bytes, and their
digest. -/
def HandoffRecords (sha256 : Sha256) (handoff : Object) (path : Text) (raw : List UInt8) : Prop :=
  ∃ records, handoff.get "files" = .list records ∧ (∃ record ∈ records, record.get "path" = .str path) ∧
    ∀ record ∈ records, record.get "path" = .str path →
      pyEqual (record.get "size") (.int raw.length) = true ∧ record.get "sha256" = .str (sha256.hexdigest raw)

/-- The entries of a manifest for the cores and for the source bundle. -/
def manifestEntries (manifest : Object) : List Value :=
  (match manifest.get "assets" with
    | .dict entries => entries.map Prod.snd
    | _ => []) ++
  match (manifest.get "wrapper").get "sourceBundle" with
  | .none => []
  | source => [source]

/-- The attestation has a record of a core, with the class and the machine of its ABI, exactly the two exports, and
alignments that are powers of two. -/
def AttestsCore (sha256 : Sha256) (attestation : Object) (name : Text) (raw : List UInt8) : Prop :=
  ∃ records, attestation.get "files" = .list records ∧ ∃ record ∈ records, record.get "path" = .str name ∧
    RecordsBytes sha256 raw record ∧
    (∃ layout, (abiOf name).bind abiLayout = some layout ∧ pyEqual (record.get "elfClass") (.int layout.1) = true ∧
      pyEqual (record.get "machine") (.int layout.2) = true) ∧
    record.get "exports" = .list [.str (text "StartCore"), .str (text "StopCore")] ∧
    ∃ alignments, record.get "loadAlignments" = .list alignments ∧ alignments ≠ [] ∧ ∀ alignment ∈ alignments,
      ∃ exponent : Nat, alignment = .int (2 ^ exponent : Nat) ∧ minAndroidPageAlignment ≤ 2 ^ exponent

/-- The chain of custody behind a public release. -/
structure Custody (sha256 : Sha256) (root : Directory) (files : PublishedFiles) (handoffSha256 : Text)
    (provenance : CandidateProvenance) (wrapperCommit : Text) (documents : Documents) : Prop where
  contract : familyContract provenance.family provenance.upstreamTag = .ok documents.contract
  handoff : ∃ raw, root.node handoffName = some (.file raw) ∧ sha256.hexdigest raw = handoffSha256 ∧
    loads raw = .ok (.dict documents.handoff)
  release : ∃ raw, files.release = some (.file raw) ∧ loads raw = .ok (.dict documents.release)
  references : ∃ raw, files.references = some (.file raw) ∧ loads raw = .ok (.list documents.references)
  assets : AssetsNamed documents.release (documents.contract.artifacts ++ [manifestName])
  artifacts : ∀ name ∈ documents.contract.artifacts, ∃ raw, root.node name = some (.file raw) ∧
    AssetsCarry sha256 documents.release name raw ∧ HandoffRecords sha256 documents.handoff name raw ∧
    ∃ entry ∈ manifestEntries documents.manifest, entry.get "name" = .str name
  manifest : ∃ raw, root.node manifestName = some (.file raw) ∧ files.remoteManifest = some (.file raw) ∧
    loads raw = .ok (.dict documents.manifest) ∧ AssetsCarry sha256 documents.release manifestName raw
  entries : ∀ entry ∈ manifestEntries documents.manifest, ∃ name ∈ documents.contract.artifacts, ∃ raw,
    root.node name = some (.file raw) ∧ entry.get "name" = .str name ∧ RecordsBytes sha256 raw entry
  attestation : ∃ raw, root.node coreAttestationName = some (.file raw) ∧
    documents.handoff.get "coreAttestationSha256" = .str (sha256.hexdigest raw) ∧
    loads raw = .ok (.dict documents.attestation)
  cores : ∀ name ∈ documents.contract.artifacts, endsWith ".so" name = true → ∃ raw,
    root.node name = some (.file raw) ∧ AttestsCore sha256 documents.attestation name raw
  reference : ∃ reference, exactReferences (flattenReferences documents.references) provenance.releaseTag = [reference] ∧
    (reference.get "object").get "type" = .str (text "commit") ∧
    (reference.get "object").get "sha" = .str wrapperCommit
  tagName : documents.release.get "tag_name" = .str provenance.releaseTag
  target : documents.release.get "target_commitish" = .str wrapperCommit
  wrapper : (documents.manifest.get "wrapper").get "commit" = .str wrapperCommit
  snapshot : root.node snapshotDir = some (.directory documents.snapshot)
  metadata : ∃ raw, documents.snapshot.node (text "snapshot.json") = some (.file raw) ∧
    (documents.handoff.get "pinSnapshot").get "metadataSha256" = .str (sha256.hexdigest raw) ∧
    loads raw = .ok (.dict documents.metadata)
  pins : ∃ records, documents.metadata.get "pins" = .list records ∧ List.Forall₂ (fun record name => ∃ raw,
    documents.snapshot.node name = some (.file raw) ∧ record.get "file" = .str name ∧ RecordsBytes sha256 raw record)
    records [text "go.mod", text "go.sum"]

section

variable {sha256 : Sha256} {root : Directory} {files : PublishedFiles} {handoffSha256 : Text}
  {provenance : CandidateProvenance} {wrapperCommit : Text} {contract : FamilyContract} {handoff : Object}
  {contents : Contents} {name : Text} {raw : List UInt8}

/-! ### The public assets -/

/-- The size and the digest of an asset that agrees with some bytes. -/
theorem IsAsset.carries {asset : Text × Object} (isAsset : IsAsset asset) {size : Nat} {digest : Text}
    (same : sameAsset asset.2 (.int size) digest = true) :
    asset.2.get "size" = .int size ∧ asset.2.get "digest" = .str (text "sha256:" ++ digest) := by
  obtain ⟨number, positive⟩ := Option.ne_none_iff_exists'.mp isAsset.size
  obtain ⟨found, _⟩ := positiveInt_eq_some.mp positive
  rw [sameAsset, Bool.and_eq_true, found, isText_iff_str] at same
  rw [found, equalNumbers_int_iff.mp same.1]
  exact ⟨rfl, same.2⟩

theorem assetsCarry {release remote : Object} {assets : AssetMap} (mapped : assetMap release = .ok assets)
    (found : assets.asset name = some remote)
    (same : sameAsset remote (.int raw.length) (sha256.hexdigest raw) = true) : AssetsCarry sha256 release name raw := by
  obtain ⟨values, isList, spelled, each, nodup⟩ := assetMap_iff.mp mapped
  intro others isOthers value member named
  cases isList.symm.trans isOthers
  rw [spelled] at member
  obtain ⟨asset, memberAsset, rfl⟩ := List.mem_map.mp member
  have isAsset := each asset memberAsset
  have sameName : asset.1 = name := Value.str.inj (isAsset.name.symm.trans named)
  have sameAsset : asset.2 = remote :=
    Option.some.inj ((asset_of_mem nodup memberAsset).symm.trans (sameName ▸ found))
  exact isAsset.carries (sameAsset ▸ same)

theorem assetsNamed {release : Object} {assets : AssetMap} {expected : List Text} (mapped : assetMap release = .ok assets)
    (same : SameNames (assets.map Prod.fst) expected) : AssetsNamed release expected := by
  obtain ⟨values, isList, spelled, each, nodup⟩ := assetMap_iff.mp mapped
  refine ⟨values, assets.map Prod.fst, isList, ?_, nodup, same⟩
  rw [spelled, List.map_map, List.map_map]
  exact List.map_congr_left fun asset member => (each asset member).name

/-! ### The handoff -/

/-- The artifacts start with other letters than the other files. -/
theorem head_artifact (run : familyContract provenance.family provenance.upstreamTag = .ok contract)
    (member : name ∈ contract.artifacts) : name.head? = some 108 ∨ name.head? = some 101 := by
  rcases artifacts_cases run with ⟨_, names⟩ | ⟨_, names⟩
  · rw [names, List.mem_singleton] at member
    exact .inl (member ▸ rfl)
  · rw [names] at member
    rcases List.mem_pair.mp member with rfl | rfl
    · exact .inl rfl
    · exact .inr rfl

/-- Each artifact was read. -/
theorem BytesVerified.exists_artifact (bytes : BytesVerified sha256 root provenance contract handoff contents)
    (member : name ∈ contract.artifacts) : ∃ raw, (name, raw) ∈ contents.artifacts ∧
      ArtifactRead sha256 root contents.attested name (name, raw) := by
  have all := (forall₂_mem bytes.artifacts).flip
  obtain ⟨⟨found, raw⟩, _, memberArtifact, read⟩ := exists_of_forall₂ all name (mem_sortedTexts.mpr member)
  cases read.same
  exact ⟨raw, memberArtifact, read⟩

theorem BytesVerified.artifact_bytes (bytes : BytesVerified sha256 root provenance contract handoff contents)
    (member : (name, raw) ∈ contents.artifacts) : root.node name = some (.file raw) := by
  obtain ⟨other, _, read⟩ := exists_of_forall₂ bytes.artifacts _ member
  obtain ⟨limit, _, readable⟩ := read.limited
  cases read.same
  exact readable.found

/-- Every record of the files is about an artifact or starts with another letter. -/
theorem mem_records {record : FileRecord} (member : record ∈ contents.records sha256) :
    (∃ artifact ∈ contents.artifacts, record.path = artifact.1 ∧ record.size = artifact.2.length ∧
      record.sha256 = sha256.hexdigest artifact.2) ∨ record.path.head? = some 99 ∨ record.path.head? = some 112 := by
  rw [Contents.records, fileRecords, List.mem_insertionSort, List.mem_append, List.mem_cons] at member
  rcases member with artifact | rfl | file
  · obtain ⟨artifact, memberArtifact, rfl⟩ := List.mem_map.mp artifact
    exact .inl ⟨_, memberArtifact, rfl, rfl, rfl⟩
  · exact .inr (.inl rfl)
  · obtain ⟨file, _, rfl⟩ := List.mem_map.mp file
    exact .inr (.inr rfl)

/-- A record of the handoff that equals one of the files. -/
theorem equal_record {entries : Object} (distinct : Distinct (.dict entries)) {record : FileRecord}
    (equal : pyEqual (.dict entries) record.value = true) :
    entries.get "path" = .str record.path ∧ pyEqual (entries.get "size") (.int record.size) = true ∧
      entries.get "sha256" = .str record.sha256 := by
  have path : (text "path", Value.str record.path) ∈ [(text "path", Value.str record.path),
    (text "role", .str record.role), (text "size", .int record.size), (text "sha256", .str record.sha256)] := by simp
  have size : (text "size", Value.int record.size) ∈ [(text "path", Value.str record.path),
    (text "role", .str record.role), (text "size", .int record.size), (text "sha256", .str record.sha256)] := by simp
  have digest : (text "sha256", Value.str record.sha256) ∈ [(text "path", Value.str record.path),
    (text "role", .str record.role), (text "size", .int record.size), (text "sha256", .str record.sha256)] := by simp
  have nodup := (distinct_value record).1
  exact ⟨pyEqual_str.mp (pyEqual_get distinct.1 nodup equal path), pyEqual_get distinct.1 nodup equal size,
    pyEqual_str.mp (pyEqual_get distinct.1 nodup equal digest)⟩

/-- The records of an artifact in a verified handoff. -/
theorem BytesVerified.handoffRecords (bytes : BytesVerified sha256 root provenance contract handoff contents)
    (run : familyContract provenance.family provenance.upstreamTag = .ok contract)
    (distinct : Distinct (.dict handoff)) (member : name ∈ contract.artifacts) (memberArtifact : (name, raw) ∈ contents.artifacts) :
    HandoffRecords sha256 handoff name raw := by
  obtain ⟨items, isList, equal⟩ := pyEqual_list.mp bytes.files
  have each : DistinctItems items := by
    have distinctFiles := Distinct.get distinct.2 "files"
    rwa [isList] at distinctFiles
  have paired := pyEqualItems_iff.mp equal
  have found := bytes.artifact_bytes memberArtifact
  refine ⟨items, isList, ?_, ?_⟩
  · have among : (FileRecord.of sha256 name (artifactRole name) raw).value ∈
        (contents.records sha256).map FileRecord.value := by
      refine List.mem_map_of_mem ?_
      rw [Contents.records, fileRecords, List.mem_insertionSort]
      exact List.mem_append_left _ (List.mem_map.mpr ⟨_, memberArtifact, rfl⟩)
    obtain ⟨record, memberRecord, same⟩ := exists_of_forall₂ paired _ among
    obtain ⟨entries, rfl⟩ := exists_of_pyEqual_dict same
    exact ⟨_, memberRecord, (equal_record (distinctItems_iff.mp each _ memberRecord) same).1⟩
  · intro record memberRecord path
    obtain ⟨value, memberValue, same⟩ := exists_of_forall₂ (paired.flip) record memberRecord
    obtain ⟨fileRecord, memberFile, rfl⟩ := List.mem_map.mp memberValue
    obtain ⟨entries, rfl⟩ := exists_of_pyEqual_dict same
    obtain ⟨samePath, size, digest⟩ := equal_record (distinctItems_iff.mp each _ memberRecord) same
    have named : fileRecord.path = name := Value.str.inj (samePath.symm.trans path)
    rcases mem_records memberFile with ⟨artifact, isArtifact, pathArtifact, sizeArtifact, digestArtifact⟩ | others
    · have sameName : artifact.1 = name := pathArtifact.symm.trans named
      have sameRaw : artifact.2 = raw := by
        have other := @BytesVerified.artifact_bytes _ _ _ _ _ _ artifact.1 artifact.2 bytes isArtifact
        rw [sameName, found] at other
        exact (Node.file.inj (Option.some.inj other)).symm
      rw [sizeArtifact, sameRaw] at size
      rw [digestArtifact, sameRaw] at digest
      exact ⟨size, digest⟩
    · -- The letters tell the artifact from the attestation and the pins.
      rw [named] at others
      rcases head_artifact run member with head | head <;> rw [head] at others <;> simp at others

/-! ### The cores -/

theorem isAlignment_iff {value : Value} : isAlignment value = true ↔
    ∃ exponent : Nat, value = .int (2 ^ exponent : Nat) ∧ minAndroidPageAlignment ≤ 2 ^ exponent := by
  constructor
  · intro holds
    cases value with
    | int alignment =>
        rw [isAlignment, Bool.and_eq_true, decide_eq_true_eq, beq_iff_eq] at holds
        have positive : (minAndroidPageAlignment : Int) ≤ alignment := holds.1
        obtain ⟨number, rfl⟩ := Int.eq_ofNat_of_zero_le (Int.le_trans (by decide) positive)
        have large : minAndroidPageAlignment ≤ number := Int.ofNat_le.mp positive
        have nonzero : number ≠ 0 := Nat.ne_of_gt (Nat.lt_of_lt_of_le (by decide) large)
        obtain ⟨exponent, same⟩ := (Nat.and_sub_one_eq_zero_iff_isPowerOfTwo nonzero).mp holds.2
        exact ⟨exponent, congrArg (fun power : Nat => Value.int power) same, same ▸ large⟩
    | _ => cases holds
  · rintro ⟨exponent, rfl, large⟩
    rw [isAlignment, Bool.and_eq_true, decide_eq_true_eq, beq_iff_eq]
    have nonzero : 2 ^ exponent ≠ 0 := Nat.ne_of_gt (Nat.two_pow_pos exponent)
    exact ⟨Int.ofNat_le.mpr large, (Nat.and_sub_one_eq_zero_iff_isPowerOfTwo nonzero).mpr ⟨exponent, rfl⟩⟩

/-- The attestation behind a verified handoff has a record of each core. -/
theorem attestsCore (read : ArtifactRead sha256 root contents.attested name (name, raw))
    (core : endsWith ".so" name = true) {attestation : Object} {records : List Value} {names : List Text}
    (valid : AttestationValid contents.attestation provenance.family names attestation records contents.attested) :
    AttestsCore sha256 attestation name raw := by
  have member := List.mem_of_find?_eq_some (read.attested core)
  obtain ⟨⟨record, other⟩, memberRecord, entries, rfl, attested⟩ := exists_of_forall₂ valid.cores _ member
  cases attested.name
  obtain ⟨items, isItems, equal⟩ := pyEqual_list.mp attested.exports
  have exports : items = [.str (text "StartCore"), .str (text "StopCore")] := by
    cases pyEqualItems_iff.mp equal with
    | cons start rest =>
        cases rest with
        | cons stop none =>
            cases none
            rw [pyEqual_str.mp start, pyEqual_str.mp stop]
  obtain ⟨alignments, isAlignments, nonempty, each⟩ := attested.alignments
  exact ⟨records, valid.files, .dict entries, (List.of_mem_zip memberRecord).1, attested.path,
    ⟨attested.sized, attested.digest⟩, attested.layout, exports ▸ isItems, alignments, isAlignments, nonempty,
    fun alignment memberAlignment => isAlignment_iff.mp (each alignment memberAlignment)⟩

/-! ### The pins -/

/-- The pins of a snapshot that was read. -/
theorem SnapshotRead.pins_recorded {directory : Directory} {modulePath : Text} {snapshot : Snapshot}
    (read : SnapshotRead sha256 directory provenance modulePath snapshot) :
    ∃ records, snapshot.metadata.get "pins" = .list records ∧ List.Forall₂ (fun record name => ∃ raw,
      directory.node name = some (.file raw) ∧ record.get "file" = .str name ∧ RecordsBytes sha256 raw record)
      records [text "go.mod", text "go.sum"] := by
  obtain ⟨records, isRecords, count⟩ := Option.map_eq_some_iff.mp read.valid.count
  have pins : pinRecords snapshot.metadata = records := by rw [pinRecords, isRecords, Option.getD_some]
  -- Each record names its file, and its size and digest are those of that file.
  have each : ∀ record path name, isValidPin record path name = true → record ∈ records → name ∈ snapshotFiles →
      ∃ raw, directory.node name = some (.file raw) ∧ record.get "file" = .str name ∧ RecordsBytes sha256 raw record := by
    intro record path name valid member memberName
    obtain ⟨⟨found, raw⟩, _, memberValue, readable, same⟩ := exists_of_forall₂ (forall₂_mem read.files).flip name memberName
    subst same
    have named : record.get "file" = .str name := by
      unfold isValidPin at valid
      split at valid
      · simp only [Bool.and_eq_true, isText_iff_str] at valid
        exact valid.1.1.2
      · cases valid
    have content : fileOf snapshot.values name = raw := by
      have keys : (snapshot.values.map Prod.fst).Nodup := by
        rw [map_fst_of_forall₂ read.files fun _ _ file => file.2]
        decide
      rw [fileOf, find?_key keys memberValue]
      rfl
    have bytes := read.pins record (pins.symm ▸ member)
    rw [named, textOf, content, isText_iff_str] at bytes
    refine ⟨raw, readable.found, named, ?_, bytes.2⟩
    cases size : record.get "size" <;> rw [size] at bytes <;> simp_all [Value.isInt]
  have valid := read.valid.pins
  rw [pins] at valid
  have files : ∀ name ∈ [text "go.mod", text "go.sum"], name ∈ snapshotFiles := by decide
  have paths : ∃ first second, expectedPinPaths provenance.family = [first, second] := by
    unfold expectedPinPaths
    split
    · exact ⟨_, _, rfl⟩
    · exact ⟨_, _, rfl⟩
  obtain ⟨first, second, isPaths⟩ := paths
  obtain ⟨mod, sum, rfl⟩ := List.length_eq_two.mp count
  rw [isPaths] at valid
  refine ⟨[mod, sum], listItems_iff.mp isRecords, .cons ?_ (.cons ?_ .nil)⟩
  · exact each mod _ _ (valid (mod, first, text "go.mod") List.mem_cons_self) (by simp) (files _ (by simp))
  · exact each sum _ _ (valid (sum, second, text "go.sum") (List.mem_cons_of_mem _ List.mem_cons_self)) (by simp)
      (files _ (by simp))

/-! ### The manifest -/

/-- An entry of the manifest that an asset agrees with. -/
structure EntryListed (assets : AssetMap) (entry : Value) (name : Text) (remote : Object) : Prop where
  found : assets.asset name = some remote
  name : entry.get "name" = .str name
  size : ∃ size : Nat, entry.get "size" = .int size
  digest : ∃ digest, entry.get "sha256" = .str digest
  same : sameAsset remote (entry.get "size") (textOf (entry.get "sha256")) = true

theorem CoreListed.entryListed {family : Text} {assets : AssetMap} {elf : ElfContract} {entry remote : Object}
    (listed : CoreListed family assets elf entry remote) :
    EntryListed assets (.dict entry) (coreName family elf.abi) remote := by
  obtain ⟨size, sized, _⟩ := isSize_iff.mp listed.sized
  obtain ⟨digest, _, hex⟩ := listed.digest
  exact ⟨listed.found, listed.name, ⟨size, sized⟩, ⟨digest, hex⟩, listed.same⟩

theorem SourceListed.entryListed {assets : AssetMap} {parts : ManifestParts} {source remote : Object}
    (listed : SourceListed assets parts source remote) :
    EntryListed assets (.dict source) (sourceName parts.upstreamTag) remote := by
  obtain ⟨size, sized, _⟩ := isSize_iff.mp listed.sized
  obtain ⟨digest, _, hex⟩ := listed.digest
  exact ⟨listed.found, listed.name, ⟨size, sized⟩, ⟨digest, hex⟩, listed.same⟩

/-- An entry has the size and the digest of the bytes that the asset of its name has. -/
theorem EntryListed.recordsBytes {assets : AssetMap} {entry : Value} {remote : Object}
    (listed : EntryListed assets entry name remote) (isAsset : IsAsset (name, remote))
    (same : sameAsset remote (.int raw.length) (sha256.hexdigest raw) = true) : RecordsBytes sha256 raw entry := by
  obtain ⟨size, sized⟩ := listed.size
  obtain ⟨digest, hex⟩ := listed.digest
  obtain ⟨remoteSize, remoteDigest⟩ := isAsset.carries same
  have own := listed.same
  rw [sized, hex] at own
  obtain ⟨ownSize, ownDigest⟩ := isAsset.carries own
  constructor
  · rw [sized]
    exact ownSize.symm.trans remoteSize
  · rw [hex]
    exact congrArg Value.str (List.append_cancel_left (Value.str.inj (ownDigest.symm.trans remoteDigest)))

theorem get_of_not_key {object : Object} {key : String} (absent : text key ∉ object.map Prod.fst) :
    object.get key = .none := by
  have missing : (object.find? fun entry => entry.1 = text key) = none := by
    rw [List.find?_eq_none]
    intro entry member
    have other : entry.1 ≠ text key := fun same => absent (same ▸ List.mem_map_of_mem member)
    simpa using other
  rw [Object.get, missing]
  rfl

/-- The entries of a verified manifest: one for the core and, of sing-box, one for the source bundle. -/
theorem RemoteVerified.entries_eq {release manifest entries : Object} {expected : RemoteExpectation}
    {parts : ManifestParts} {assets : AssetMap} (distinct : Distinct (.dict manifest))
    (verified : RemoteVerified sha256 release manifest raw expected parts assets entries) :
    ∃ core, (∃ elf ∈ elfContracts, ∃ remote, CoreListed expected.family assets elf core remote ∧
        expectedNames expected.family parts.upstreamTag = text "manifest.json" :: coreName expected.family elf.abi ::
          if expected.family = text "sing_box" then [sourceName parts.upstreamTag] else []) ∧
      ((expected.family = text "xray" ∧ manifestEntries manifest = [.dict core]) ∨
        (expected.family = text "sing_box" ∧ ∃ source remote, SourceListed assets parts source remote ∧
          manifestEntries manifest = [.dict core, .dict source])) := by
  obtain ⟨core, remote, found, listed⟩ := verified.cores _ List.mem_cons_self
  have distinctEntries : Distinct (.dict entries) := by
    have assetsDistinct := Distinct.get distinct.2 "assets"
    rwa [verified.found] at assetsDistinct
  -- No other entry has the ABI's name.
  have single : entries.map Prod.snd = [.dict core] := by
    have abi : ∀ entry ∈ entries, entry.1 = text "arm64-v8a" := fun entry member =>
      List.mem_singleton.mp (verified.abis.1 entry.1 (List.mem_map_of_mem member))
    match entries, distinctEntries.1 with
    | [], _ => cases found
    | [entry], _ =>
        have named := abi entry List.mem_cons_self
        simp only [abiEntry, List.find?_cons, named, decide_true] at found
        exact congrArg (fun value => [value]) found
    | first :: second :: rest, nodup =>
        have same := (abi first List.mem_cons_self).trans
          (abi second (List.mem_cons_of_mem _ List.mem_cons_self)).symm
        exact absurd (same ▸ List.mem_cons_self) (List.nodup_cons.mp nodup).1
  refine ⟨core, ⟨_, List.mem_cons_self, remote, listed, rfl⟩, ?_⟩
  have wrapper : (manifest.get "wrapper").get "sourceBundle" = parts.wrapper.get "sourceBundle" := by
    rw [verified.checked.wrapper]
    rfl
  rcases verified.family with xray | singBox
  · left
    have fields := verified.checked.fields
    rw [PartsChecked, if_pos xray] at fields
    have absent : text "sourceBundle" ∉ parts.wrapper.map Prod.fst := by
      intro member
      have among := fields.2.1.1 _ member
      revert among
      decide
    refine ⟨xray, ?_⟩
    rw [manifestEntries, verified.found, wrapper, get_of_not_key absent]
    change entries.map Prod.snd ++ [] = _
    rw [single, List.append_nil]
  · right
    obtain ⟨source, remoteSource, listedSource⟩ := verified.source singBox
    refine ⟨singBox, source, remoteSource, listedSource, ?_⟩
    rw [manifestEntries, verified.found, wrapper, listedSource.entry]
    change entries.map Prod.snd ++ [_] = _
    rw [single, List.singleton_append]

theorem head_coreName (family abi : Text) : (coreName family abi).head? = some 108 := by
  unfold coreName
  split <;> rfl

theorem head_sourceName (tag : Text) : (sourceName tag).head? = some 101 := rfl

theorem ne_manifestName (head : name.head? = some 108 ∨ name.head? = some 101) : name ≠ manifestName := by
  have manifest : manifestName.head? = some 109 := by decide
  rintro rfl
  rw [manifest] at head
  simp at head

/-! ### The whole chain -/

section

variable {published : PublishedParts}

/-- What a manifest's entry says is so of a local artifact. -/
theorem PublishedVerified.entry (verified : PublishedVerified sha256 root files handoffSha256 provenance wrapperCommit published)
    {entry : Value} {remote : Object} (listed : EntryListed published.assets entry name remote)
    (other : name ≠ manifestName) : ∃ name ∈ published.contract.artifacts, ∃ raw, root.node name = some (.file raw) ∧
      entry.get "name" = .str name ∧ RecordsBytes sha256 raw entry := by
  have member := asset_eq_some listed.found
  have among := List.mem_append.mp (verified.names.1 name (List.mem_map_of_mem member))
  have artifact : name ∈ published.contract.artifacts :=
    among.resolve_right fun manifest => other (List.mem_singleton.mp manifest)
  obtain ⟨raw, _, ⟨_, _, readable⟩, found, same⟩ := verified.artifacts name artifact
  cases listed.found.symm.trans found
  obtain ⟨_, _, mapped⟩ := assetMap_iff.mp verified.remote.mapped
  exact ⟨name, artifact, raw, readable.found, listed.name, listed.recordsBytes (mapped.each _ member) same⟩

/-- The manifest of a public release has entries for just the artifacts. -/
theorem PublishedVerified.entries
    (verified : PublishedVerified sha256 root files handoffSha256 provenance wrapperCommit published) :
    (∀ entry ∈ manifestEntries published.manifest, ∃ name ∈ published.contract.artifacts, ∃ raw,
        root.node name = some (.file raw) ∧ entry.get "name" = .str name ∧ RecordsBytes sha256 raw entry) ∧
      ∀ name ∈ published.contract.artifacts, ∃ entry ∈ manifestEntries published.manifest,
        entry.get "name" = .str name := by
  have run := validateProvenance_contract verified.handoff.valid
  have distinct := loads_distinct verified.manifest
  obtain ⟨core, ⟨elf, _, remote, listed, expected⟩, entries⟩ := verified.remote.entries_eq distinct
  have ofCore := verified.entry listed.entryListed (ne_manifestName (.inl (head_coreName _ _)))
  have among : ∀ name ∈ published.contract.artifacts, name ∈ expectedNames provenance.family published.parts.upstreamTag :=
    fun name member => verified.remote.names.1 name (verified.names.2 name (List.mem_append_left _ member))
  have apart : ∀ name ∈ published.contract.artifacts, name ≠ text "manifest.json" := fun name member =>
    ne_manifestName (head_artifact run member)
  rcases entries with ⟨xray, same⟩ | ⟨singBox, source, remoteSource, listedSource, same⟩
  · have other : provenance.family ≠ text "sing_box" := by
      rw [show provenance.family = text "xray" from xray]
      decide
    rw [same]
    refine ⟨fun entry member => List.mem_singleton.mp member ▸ ofCore, fun name member => ?_⟩
    have named := among name member
    rw [expected, if_neg other, List.mem_cons, List.mem_singleton] at named
    exact ⟨.dict core, List.mem_cons_self, named.resolve_left (apart name member) ▸ listed.name⟩
  · have ofSource := verified.entry listedSource.entryListed (ne_manifestName (.inr (head_sourceName _)))
    rw [same]
    constructor
    · intro entry member
      rcases List.mem_pair.mp member with rfl | rfl
      · exact ofCore
      · exact ofSource
    · intro name member
      have named := among name member
      rw [expected, if_pos singBox, List.mem_cons, List.mem_pair] at named
      rcases named.resolve_left (apart name member) with rfl | rfl
      · exact ⟨.dict core, List.mem_cons_self, listed.name⟩
      · exact ⟨.dict source, List.mem_cons_of_mem _ List.mem_cons_self, listedSource.name⟩

/-- Where `verify_published_candidate` succeeds, the chain of custody holds. -/
theorem PublishedVerified.custody
    (verified : PublishedVerified sha256 root files handoffSha256 provenance wrapperCommit published) :
    ∃ documents, documents.contract = published.contract ∧
      Custody sha256 root files handoffSha256 provenance wrapperCommit documents := by
  have run := validateProvenance_contract verified.handoff.valid
  have bytes := verified.handoff.bytes
  have loaded := verified.handoff.loaded
  have distinct := loads_distinct loaded.loaded
  obtain ⟨attestation, records, valid⟩ := validateCoreAttestation_iff.mp bytes.attested
  obtain ⟨forward, backward⟩ := verified.entries
  have artifact : ∀ name ∈ published.contract.artifacts, ∃ raw, root.node name = some (.file raw) ∧
      (name, raw) ∈ published.contents.artifacts ∧
      ArtifactRead sha256 root published.contents.attested name (name, raw) ∧
      AssetsCarry sha256 published.release name raw := by
    intro name member
    obtain ⟨raw, _, ⟨_, _, readable⟩, found, same⟩ := verified.artifacts name member
    obtain ⟨own, memberOwn, read⟩ := bytes.exists_artifact member
    cases readable.found.symm.trans (bytes.artifact_bytes memberOwn)
    exact ⟨raw, readable.found, memberOwn, read, assetsCarry verified.remote.mapped found same⟩
  obtain ⟨remote, found, same⟩ := verified.remote.manifestAsset
  obtain ⟨raw, ⟨release, _⟩, loadedRelease⟩ := verified.release
  obtain ⟨rawReferences, ⟨references, _⟩, loadedReferences⟩ := verified.references
  have pinSnapshot : (published.handoff.get "pinSnapshot").get "metadataSha256" = .str provenance.snapshotSha256 := by
    obtain ⟨entries, isDict⟩ := exists_of_pyEqual_dict bytes.pinSnapshot
    have equal := bytes.pinSnapshot
    have distinctEntries := Distinct.get distinct.2 "pinSnapshot"
    have keys : (["metadataSha256", "modulePath", "moduleVersion", "originCommit"].map text).Nodup := by decide
    rw [isDict] at equal distinctEntries ⊢
    refine pyEqual_str.mp (pyEqual_get distinctEntries.1 ?_ equal List.mem_cons_self)
    exact keys
  have metadata : ∃ raw, published.contents.directory.node (text "snapshot.json") = some (.file raw) ∧
      fileOf published.contents.snapshot.values (text "snapshot.json") = raw := by
    have member : text "snapshot.json" ∈ snapshotFiles := by decide
    obtain ⟨⟨name, raw⟩, _, memberValue, readable, named⟩ :=
      exists_of_forall₂ (forall₂_mem bytes.snapshot.files).flip _ member
    have keys : (published.contents.snapshot.values.map Prod.fst).Nodup := by
      rw [map_fst_of_forall₂ bytes.snapshot.files fun _ _ file => file.2]
      decide
    subst named
    refine ⟨raw, readable.found, ?_⟩
    rw [fileOf, find?_key keys memberValue]
    rfl
  obtain ⟨rawMetadata, foundMetadata, content⟩ := metadata
  have snapshot := bytes.snapshot.valid
  rw [content] at snapshot
  exact ⟨⟨published.contract, published.handoff, attestation, published.contents.directory,
      published.contents.snapshot.metadata, published.release, published.references, published.manifest⟩, rfl,
    { contract := run
      handoff := ⟨_, loaded.readable.found, loaded.digest, loaded.loaded⟩
      release := ⟨raw, release, loadedRelease⟩
      references := ⟨rawReferences, references, loadedReferences⟩
      assets := assetsNamed verified.remote.mapped verified.names
      artifacts := fun name member =>
        have ⟨raw, node, own, _, carry⟩ := artifact name member
        ⟨raw, node, carry, bytes.handoffRecords run distinct member own, backward name member⟩
      manifest := ⟨_, verified.localManifest.found, verified.remoteManifest, verified.manifest,
        assetsCarry verified.remote.mapped found same⟩
      entries := forward
      attestation := ⟨_, bytes.attestation.found, bytes.attestationDigest, valid.loaded⟩
      cores := fun name member core =>
        have ⟨raw, node, _, read, _⟩ := artifact name member
        ⟨raw, node, attestsCore read core valid⟩
      reference := ⟨_, verified.reference.exact, verified.reference.type, verified.reference.sha⟩
      tagName := verified.identity.tagName
      target := verified.identity.target
      wrapper := by
        change (published.manifest.get "wrapper").get "commit" = _
        rw [verified.remote.checked.wrapper]
        exact verified.remote.checked.wrapperCommit
      snapshot := bytes.opened
      metadata := ⟨rawMetadata, foundMetadata, pinSnapshot.trans (congrArg Value.str snapshot.digest.symm),
        snapshot.loaded⟩
      pins := bytes.snapshot.pins_recorded }⟩

end

end

end ExitfyCores.Release
