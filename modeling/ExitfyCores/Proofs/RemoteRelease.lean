/-
Module: ExitfyCores.Proofs.RemoteRelease
Layer: Proofs
Purpose: What `verify_remote_release` accepts, step by step.
Imports: ExitfyCores.Release.RemoteRelease, ExitfyCores.Proofs.Handoff
Trusted boundary: none
Main exports: IsAsset, assetMap_iff, CoreListed, SourceListed, ManifestChecked, RemoteVerified, verifyRemoteRelease_iff
Open obligations: none
-/
import ExitfyCores.Release.RemoteRelease
import ExitfyCores.Proofs.Handoff

namespace ExitfyCores.Release

open Py

/-! ### Assets -/

/-- An asset with a name, an id, a size and a digest. -/
structure IsAsset (asset : Text × Object) : Prop where
  name : asset.2.get "name" = .str asset.1
  nonempty : asset.1 ≠ []
  id : (asset.2.get "id").positiveInt ≠ none
  size : (asset.2.get "size").positiveInt ≠ none
  digest : ∃ digest, isAssetDigest digest = true ∧ asset.2.get "digest" = .str digest

theorem assetStep_iff {assets next : AssetMap} {value : Value} :
    assetStep assets value = .ok next ↔ ∃ asset, IsAsset asset ∧ value = .dict asset.2 ∧
      asset.1 ∉ assets.map Prod.fst ∧ assets ++ [asset] = next := by
  constructor
  · intro run
    unfold assetStep at run
    split at run
    · next entries =>
        split at run
        · next name named =>
            simp only [bind_eq_ok_iff, exists_unit, throwIf_eq_ok, not_or, Bool.not_eq_false, isTextThat_iff,
              pure_eq_ok] at run
            obtain ⟨⟨nonempty, fresh⟩, id, size, digest, same⟩ := run
            exact ⟨(name, entries), ⟨named, nonempty, id, size, digest⟩, rfl, fresh, same⟩
        · cases run
    · cases run
  · rintro ⟨asset, isAsset, same, fresh, rest⟩
    subst same
    simp only [assetStep, isAsset.name, bind_eq_ok_iff, exists_unit, throwIf_eq_ok, not_or, Bool.not_eq_false,
      isTextThat_iff, pure_eq_ok]
    exact ⟨⟨isAsset.nonempty, fresh⟩, isAsset.id, isAsset.size, isAsset.digest, rest⟩

/-- The assets that a list of values spells. -/
structure Mapped (values : List Value) (assets : AssetMap) : Prop where
  values : values = assets.map fun asset => .dict asset.2
  each : ∀ asset ∈ assets, IsAsset asset
  nodup : (assets.map Prod.fst).Nodup

theorem foldlM_assetStep {values : List Value} {done assets : AssetMap} (nodup : (done.map Prod.fst).Nodup) :
    values.foldlM assetStep done = .ok assets ↔ ∃ more : AssetMap, assets = done ++ more ∧
      values = (more.map fun asset => .dict asset.2) ∧ (∀ asset ∈ more, IsAsset asset) ∧
      ((done ++ more).map Prod.fst).Nodup := by
  induction values generalizing done with
  | nil =>
      rw [List.foldlM_nil, pure_eq_ok]
      constructor
      · intro same
        exact ⟨[], by simp [same], rfl, by simp, by simpa using nodup⟩
      · rintro ⟨more, same, spelled, _⟩
        rw [List.map_eq_nil_iff.mp spelled.symm, List.append_nil] at same
        exact same.symm
  | cons value values ih =>
      rw [List.foldlM_cons, bind_eq_ok_iff]
      constructor
      · rintro ⟨next, step, rest⟩
        obtain ⟨asset, isAsset, rfl, fresh, rfl⟩ := assetStep_iff.mp step
        have longer : ((done ++ [asset]).map Prod.fst).Nodup := by
          rw [List.map_append, List.map_singleton, ← List.concat_eq_append]
          exact nodup.concat fresh
        obtain ⟨more, rfl, rfl, each, distinct⟩ := (ih longer).mp rest
        refine ⟨asset :: more, by simp, rfl, List.forall_mem_cons.mpr ⟨isAsset, each⟩, ?_⟩
        rwa [List.append_assoc, List.singleton_append] at distinct
      · rintro ⟨more, same, spelled, each, distinct⟩
        cases more with
        | nil => cases spelled
        | cons asset more =>
            obtain ⟨rfl, rest⟩ := List.cons.inj spelled
            obtain ⟨isAsset, others⟩ := List.forall_mem_cons.mp each
            rw [← List.singleton_append, ← List.append_assoc] at same distinct
            have longer : ((done ++ [asset]).map Prod.fst).Nodup := by
              rw [List.map_append] at distinct
              exact distinct.of_append_left
            have fresh : asset.1 ∉ done.map Prod.fst := by
              rw [List.map_append, List.map_singleton, List.nodup_append] at longer
              exact fun member => longer.2.2 _ member _ List.mem_cons_self rfl
            exact ⟨_, assetStep_iff.mpr ⟨asset, isAsset, rfl, fresh, rfl⟩,
              (ih longer).mpr ⟨more, same, rest, others, distinct⟩⟩

theorem assetMap_iff {release : Object} {assets : AssetMap} :
    assetMap release = .ok assets ↔ ∃ values, release.get "assets" = .list values ∧ Mapped values assets := by
  unfold assetMap
  constructor
  · intro run
    split at run
    · next values found =>
        obtain ⟨more, rfl, spelled, each, nodup⟩ := (@foldlM_assetStep values [] assets List.nodup_nil).mp run
        exact ⟨values, found, spelled, each, nodup⟩
    · cases run
  · rintro ⟨values, found, mapped⟩
    rw [found]
    exact (@foldlM_assetStep values [] assets List.nodup_nil).mpr ⟨assets, rfl, mapped.values, mapped.each, mapped.nodup⟩

theorem asset_eq_some {assets : AssetMap} {name : Text} {remote : Object} (found : assets.asset name = some remote) :
    (name, remote) ∈ assets := by
  unfold AssetMap.asset at found
  obtain ⟨⟨other, _⟩, first, rfl⟩ := Option.map_eq_some_iff.mp found
  have same : other = name := by simpa using List.find?_some first
  exact same ▸ List.mem_of_find?_eq_some first

theorem asset_of_mem {assets : AssetMap} (nodup : (assets.map Prod.fst).Nodup) {name : Text} {remote : Object}
    (member : (name, remote) ∈ assets) : assets.asset name = some remote := by
  rw [AssetMap.asset, find?_key nodup member]
  rfl

/-! ### Pieces of the manifest -/

theorem exactKeys_iff {value : Value} {keys : List String} {label : Text} {entries : Object} :
    exactKeys value keys label = .ok entries ↔ value = .dict entries ∧ HasKeys entries keys := by
  unfold exactKeys
  split
  · next object =>
      simp only [bind_eq_ok_iff, exists_unit, throwIf_eq_ok, Decidable.not_not, pure_eq_ok, Value.dict.injEq]
      constructor
      · rintro ⟨keys, rfl⟩
        exact ⟨rfl, keys⟩
      · rintro ⟨rfl, keys⟩
        exact ⟨keys, rfl⟩
  · next other =>
      constructor
      · intro run
        cases run
      · rintro ⟨same, _⟩
        exact absurd same (other entries)

/-- The value lists the exports. -/
def ListsExports (value : Value) : Prop := ∃ items, exportItems value = .ok items ∧ areExports items = true

theorem checkExports_iff {value : Value} {error : Raised} : checkExports value error = .ok () ↔ ListsExports value := by
  simp only [checkExports, bind_eq_ok_iff, throwIf_eq_ok, Bool.not_eq_false, ListsExports]

/-- An entry of the manifest for a core that is among the assets. -/
structure CoreListed (family : Text) (assets : AssetMap) (contract : ElfContract) (entry remote : Object) : Prop where
  keys : HasKeys entry ["name", "size", "sha256", "elfClass", "elfMachine", "elfMachineName", "exports"]
  found : assets.asset (coreName family contract.abi) = some remote
  name : entry.get "name" = .str (coreName family contract.abi)
  sized : isSize (1024 * 1024) (64 * 1024 * 1024) (entry.get "size") = true
  digest : ∃ digest, isHexText 64 digest = true ∧ entry.get "sha256" = .str digest
  same : sameAsset remote (entry.get "size") (textOf (entry.get "sha256")) = true
  elfClass : pyEqual (entry.get "elfClass") (.int contract.elfClass) = true
  machine : pyEqual (entry.get "elfMachine") (.int contract.machine) = true
  machineName : entry.get "elfMachineName" = .str contract.machineName
  exports : ListsExports (entry.get "exports")

theorem checkCoreAsset_iff {family : Text} {assets : AssetMap} {entries : Object} {contract : ElfContract} :
    checkCoreAsset family assets entries contract = .ok () ↔ ∃ entry remote,
      abiEntry entries contract.abi = .dict entry ∧ CoreListed family assets contract entry remote := by
  simp only [checkCoreAsset, bind_eq_ok_iff, exactKeys_iff]
  constructor
  · rintro ⟨entry, ⟨same, keys⟩, run⟩
    split at run
    · cases run
    · next remote found =>
        simp only [bind_eq_ok_iff, exists_unit, throwIf_eq_ok, not_or, Bool.not_eq_false, isText_iff_str,
          isTextThat_iff, checkExports_iff] at run
        obtain ⟨⟨name, sized, digest, asset, elfClass, machine, machineName⟩, exports⟩ := run
        exact ⟨entry, remote, same, keys, found, name, sized, digest, asset, elfClass, machine, machineName, exports⟩
  · rintro ⟨entry, remote, same, listed⟩
    refine ⟨entry, ⟨same, listed.keys⟩, ?_⟩
    simp only [listed.found, bind_eq_ok_iff, exists_unit, throwIf_eq_ok, not_or, Bool.not_eq_false, isText_iff_str,
      isTextThat_iff, checkExports_iff]
    exact ⟨⟨listed.name, listed.sized, listed.digest, listed.same, listed.elfClass, listed.machine,
      listed.machineName⟩, listed.exports⟩

/-- The source bundle of the manifest that is among the assets. -/
structure SourceListed (assets : AssetMap) (parts : ManifestParts) (source remote : Object) : Prop where
  entry : parts.wrapper.get "sourceBundle" = .dict source
  keys : HasKeys source ["name", "size", "sha256"]
  name : source.get "name" = .str (sourceName parts.upstreamTag)
  found : assets.asset (sourceName parts.upstreamTag) = some remote
  sized : isSize 1 (512 * 1024 * 1024) (source.get "size") = true
  digest : ∃ digest, isHexText 64 digest = true ∧ source.get "sha256" = .str digest
  same : sameAsset remote (source.get "size") (textOf (source.get "sha256")) = true

theorem matchDigest_iff {value : Value} {matched : Bool} : matchDigest value = .ok matched ↔
    ∃ digest, isHexText 64 digest = matched ∧ value = .str digest := by
  cases value <;> simp [matchDigest]

theorem checkSourceAsset_iff {assets : AssetMap} {parts : ManifestParts} :
    checkSourceAsset assets parts = .ok () ↔ ∃ source remote, SourceListed assets parts source remote := by
  simp only [checkSourceAsset, bind_eq_ok_iff, exists_unit, exactKeys_iff, throwIf_eq_ok, Bool.not_eq_false,
    isText_iff_str]
  constructor
  · rintro ⟨source, ⟨entry, keys⟩, name, run⟩
    split at run
    · cases run
    · next remote found =>
        simp only [bind_eq_ok_iff, exists_unit, throwIf_eq_ok, not_or, Bool.not_eq_false, matchDigest_iff] at run
        obtain ⟨sized, matched, ⟨digest, isDigest, value⟩, isMatched, same⟩ := run
        exact ⟨source, remote, entry, keys, name, found, sized, ⟨digest, isDigest.trans isMatched, value⟩, same⟩
  · rintro ⟨source, remote, listed⟩
    refine ⟨source, ⟨listed.entry, listed.keys⟩, listed.name, ?_⟩
    obtain ⟨digest, isDigest, value⟩ := listed.digest
    simp only [listed.found, bind_eq_ok_iff, exists_unit, throwIf_eq_ok, not_or, Bool.not_eq_false, matchDigest_iff]
    exact ⟨listed.sized, true, ⟨digest, isDigest, value⟩, rfl, listed.same⟩

/-! ### The manifest -/

/-- The fields of `upstream` and `wrapper` that the family asks for. -/
def PartsChecked (family : Text) (upstream wrapper : Object) : Prop :=
  if family = text "xray" then
    HasKeys upstream ["repository", "tag", "commit"] ∧ HasKeys wrapper ["repository", "commit"] ∧
      upstream.get "repository" = .str (text "XTLS/libXray")
  else
    HasKeys upstream ["repository", "tag", "commit", "goVersion"] ∧
      HasKeys wrapper ["repository", "commit", "ndkVersion", "buildTags", "sourceBundle"] ∧
      upstream.get "repository" = .str (text "SagerNet/sing-box") ∧
      (∃ version, isGoVersion version = true ∧ upstream.get "goVersion" = .str version) ∧
      wrapper.get "ndkVersion" = .str ndkVersion ∧
      pyEqual (wrapper.get "buildTags") (.list (sbTags.map Value.str)) = true

theorem matchGoVersion_iff {value : Value} {matched : Bool} : matchGoVersion value = .ok matched ↔
    ∃ version, isGoVersion version = matched ∧ value = .str version := by
  cases value <;> simp [matchGoVersion]

theorem checkSingBoxBuild_iff {upstream wrapper : Object} : checkSingBoxBuild upstream wrapper = .ok () ↔
    upstream.get "repository" = .str (text "SagerNet/sing-box") ∧
      (∃ version, isGoVersion version = true ∧ upstream.get "goVersion" = .str version) ∧
      wrapper.get "ndkVersion" = .str ndkVersion ∧
      pyEqual (wrapper.get "buildTags") (.list (sbTags.map Value.str)) = true := by
  simp only [checkSingBoxBuild, bind_eq_ok_iff, exists_unit, throwIf_eq_ok, not_or, Bool.not_eq_false, isText_iff_str,
    matchGoVersion_iff]
  constructor
  · rintro ⟨repository, matched, ⟨version, isVersion, found⟩, isMatched, ndk, tags⟩
    exact ⟨repository, ⟨version, isVersion.trans isMatched, found⟩, ndk, tags⟩
  · rintro ⟨repository, version, ndk, tags⟩
    exact ⟨repository, true, version, rfl, ndk, tags⟩

theorem familyParts_iff {family : Text} {manifest upstream wrapper : Object} :
    familyParts family manifest = .ok (upstream, wrapper) ↔
      manifest.get "upstream" = .dict upstream ∧ manifest.get "wrapper" = .dict wrapper ∧
        PartsChecked family upstream wrapper := by
  unfold familyParts PartsChecked
  split
  · simp only [bind_eq_ok_iff, exists_unit, exactKeys_iff, throwIf_eq_ok, Bool.not_eq_false, isText_iff_str, pure_eq_ok,
      Prod.mk.injEq]
    constructor
    · rintro ⟨_, ⟨foundUpstream, upstreamKeys⟩, _, ⟨foundWrapper, wrapperKeys⟩, repository, rfl, rfl⟩
      exact ⟨foundUpstream, foundWrapper, upstreamKeys, wrapperKeys, repository⟩
    · rintro ⟨foundUpstream, foundWrapper, upstreamKeys, wrapperKeys, repository⟩
      exact ⟨_, ⟨foundUpstream, upstreamKeys⟩, _, ⟨foundWrapper, wrapperKeys⟩, repository, rfl, rfl⟩
  · simp only [bind_eq_ok_iff, exists_unit, exactKeys_iff, checkSingBoxBuild_iff, pure_eq_ok, Prod.mk.injEq]
    constructor
    · rintro ⟨_, ⟨foundUpstream, upstreamKeys⟩, _, ⟨foundWrapper, wrapperKeys⟩, build, rfl, rfl⟩
      exact ⟨foundUpstream, foundWrapper, upstreamKeys, wrapperKeys, build⟩
    · rintro ⟨foundUpstream, foundWrapper, upstreamKeys, wrapperKeys, build⟩
      exact ⟨_, ⟨foundUpstream, upstreamKeys⟩, _, ⟨foundWrapper, wrapperKeys⟩, build, rfl, rfl⟩

/-- The manifest's own provenance. -/
structure ManifestChecked (release manifest : Object) (expected : RemoteExpectation) (parts : ManifestParts) : Prop where
  schema : pyEqual (manifest.get "schema") (.int 3) = true
  coreApi : pyEqual (manifest.get "coreApi") (.int 2) = true
  configContract : pyEqual (manifest.get "configContract") (.int 1) = true
  family : manifest.get "family" = .str expected.family
  minAndroidApi : pyEqual (manifest.get "minAndroidApi") (.int 29) = true
  requiredExports : ListsExports (manifest.get "requiredExports")
  upstream : manifest.get "upstream" = .dict parts.upstream
  wrapper : manifest.get "wrapper" = .dict parts.wrapper
  upstreamTag : parts.upstream.get "tag" = .str parts.upstreamTag
  version : upstreamGroups parts.upstreamTag ≠ none
  releaseTag : ∃ tag, isReleaseTag (tagPrefix expected.family parts.upstreamTag) tag = true ∧
    release.get "tag_name" = .str tag ∧ manifest.get "releaseTag" = .str tag
  fields : PartsChecked expected.family parts.upstream parts.wrapper
  upstreamCommit : parts.upstream.get "commit" = .str expected.upstreamCommit
  repository : parts.wrapper.get "repository" = .str (text "kvuco/exitFy-cores")
  wrapperCommit : parts.wrapper.get "commit" = .str expected.wrapperCommit

theorem checkManifest_iff {release manifest : Object} {expected : RemoteExpectation} {parts : ManifestParts} :
    checkManifest release manifest expected = .ok parts ↔ ManifestChecked release manifest expected parts := by
  simp only [checkManifest, bind_eq_ok_iff, exists_unit, throwIf_eq_ok, not_or, Bool.not_eq_false, isText_iff_str,
    isTextThat_iff, checkExports_iff, pure_eq_ok, Prod.exists, familyParts_iff]
  constructor
  · rintro ⟨⟨schema, coreApi, contract, family, api⟩, exports, version, tag, upstream, wrapper,
      ⟨foundUpstream, foundWrapper, checked⟩, ⟨commit, repository, wrapperCommit⟩, same⟩
    subst same
    obtain ⟨upstreamTag, isVersion, foundTag⟩ := version
    obtain ⟨⟨releaseTag, isTag, tagName⟩, manifestTag⟩ := tag
    have named : textOf ((manifest.get "upstream").get "tag") = upstreamTag := congrArg textOf foundTag
    rw [named] at isTag ⊢
    rw [tagName] at manifestTag
    rw [foundUpstream] at foundTag
    exact ⟨schema, coreApi, contract, family, api, exports, foundUpstream, foundWrapper, foundTag,
      of_decide_eq_true isVersion, ⟨releaseTag, isTag, tagName, manifestTag⟩, checked, commit, repository,
      wrapperCommit⟩
  · intro checked
    obtain ⟨releaseTag, isTag, tagName, manifestTag⟩ := checked.releaseTag
    have named : (manifest.get "upstream").get "tag" = .str parts.upstreamTag := by
      rw [checked.upstream]
      exact checked.upstreamTag
    rw [named, tagName]
    exact ⟨⟨checked.schema, checked.coreApi, checked.configContract, checked.family, checked.minAndroidApi⟩,
      checked.requiredExports, ⟨_, decide_eq_true checked.version, rfl⟩, ⟨⟨releaseTag, isTag, rfl⟩, manifestTag⟩,
      parts.upstream, parts.wrapper, ⟨checked.upstream, checked.wrapper, checked.fields⟩,
      ⟨checked.upstreamCommit, checked.repository, checked.wrapperCommit⟩, rfl⟩

/-! ### The release -/

/-- What `verify_remote_release` accepts. -/
structure RemoteVerified (sha256 : Sha256) (release manifest : Object) (manifestBytes : List UInt8)
    (expected : RemoteExpectation) (parts : ManifestParts) (assets : AssetMap) (entries : Object) : Prop where
  bounded : manifestBytes.length ≤ maxManifestBytes
  family : expected.family = text "xray" ∨ expected.family = text "sing_box"
  stable : isStable release expected.allowDraft = true
  upstreamCommit : isCommit expected.upstreamCommit = true
  wrapperCommit : isCommit expected.wrapperCommit = true
  target : release.get "target_commitish" = .str expected.wrapperCommit
  keys : HasKeys manifest topLevel
  checked : ManifestChecked release manifest expected parts
  mapped : assetMap release = .ok assets
  manifestAsset : ∃ remote, assets.asset (text "manifest.json") = some remote ∧
    sameAsset remote (.int manifestBytes.length) (sha256.hexdigest manifestBytes) = true
  found : manifest.get "assets" = .dict entries
  abis : SameNames (entries.map Prod.fst) (elfContracts.map ElfContract.abi)
  cores : ∀ contract ∈ elfContracts, ∃ entry remote, abiEntry entries contract.abi = .dict entry ∧
    CoreListed expected.family assets contract entry remote
  source : expected.family = text "sing_box" → ∃ source remote, SourceListed assets parts source remote
  names : SameNames (assets.map Prod.fst) (expectedNames expected.family parts.upstreamTag)

theorem checkManifestAsset_iff {sha256 : Sha256} {assets : AssetMap} {manifestBytes : List UInt8} :
    checkManifestAsset sha256 assets manifestBytes = .ok () ↔ ∃ remote,
      assets.asset (text "manifest.json") = some remote ∧
        sameAsset remote (.int manifestBytes.length) (sha256.hexdigest manifestBytes) = true := by
  rw [checkManifestAsset, throwIf_eq_ok]
  cases assets.asset (text "manifest.json") <;> simp

theorem abiEntries_iff {manifest entries : Object} : abiEntries manifest = .ok entries ↔
    manifest.get "assets" = .dict entries ∧ SameNames (entries.map Prod.fst) (elfContracts.map ElfContract.abi) := by
  unfold abiEntries
  split
  · next found same =>
      simp only [same, bind_eq_ok_iff, exists_unit, throwIf_eq_ok, Decidable.not_not, pure_eq_ok, Value.dict.injEq]
      constructor
      · rintro ⟨names, rfl⟩
        exact ⟨rfl, names⟩
      · rintro ⟨rfl, names⟩
        exact ⟨names, rfl⟩
  · next other =>
      constructor
      · intro run
        cases run
      · rintro ⟨same, _⟩
        exact absurd same (other entries)

/-- A check that is made under a condition only, and the rest. -/
theorem guarded_iff {condition : Prop} [Decidable condition] {check rest : Except Raised Unit} :
    (if condition then check >>= fun _ => rest else rest) = .ok () ↔ (condition → check = .ok ()) ∧ rest = .ok () := by
  split
  · next holds =>
      rw [check_bind_eq_ok]
      exact and_congr_left' ⟨fun passed _ => passed, fun passed => passed holds⟩
  · next fails =>
      exact ⟨fun passed => ⟨fun holds => absurd holds fails, passed⟩, fun passed => passed.2⟩

theorem verifyRemoteRelease_iff {sha256 : Sha256} {release manifest : Object} {manifestBytes : List UInt8}
    {expected : RemoteExpectation} : verifyRemoteRelease sha256 release manifest manifestBytes expected = .ok () ↔
      ∃ parts assets entries, RemoteVerified sha256 release manifest manifestBytes expected parts assets entries := by
  simp only [verifyRemoteRelease, bind_eq_ok_iff, exists_unit, throwIf_eq_ok, not_or, Bool.not_eq_false, Nat.not_lt,
    not_and, isText_iff_str, exactKeys_iff, checkManifest_iff, checkManifestAsset_iff, abiEntries_iff, forM_iff,
    checkCoreAsset_iff, guarded_iff, checkSourceAsset_iff, Decidable.not_not, Value.dict.injEq]
  constructor
  · rintro ⟨bounded, family, stable, ⟨upstream, wrapper⟩, target, _, ⟨rfl, keys⟩, parts, checked, assets, mapped,
      manifestAsset, entries, ⟨found, abis⟩, cores, source, names⟩
    exact ⟨parts, assets, entries, bounded, Decidable.or_iff_not_imp_left.mpr family, stable, upstream, wrapper, target, keys, checked, mapped, manifestAsset, found, abis, cores, source,
      names⟩
  · rintro ⟨parts, assets, entries, verified⟩
    exact ⟨verified.bounded, fun other => verified.family.resolve_left other, verified.stable,
      ⟨verified.upstreamCommit, verified.wrapperCommit⟩, verified.target, manifest, ⟨rfl, verified.keys⟩, parts,
      verified.checked, assets, verified.mapped, verified.manifestAsset, entries, ⟨verified.found, verified.abis⟩,
      verified.cores, verified.source, verified.names⟩

end ExitfyCores.Release
