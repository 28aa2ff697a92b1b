/-
Module: ExitfyCores.Release.RemoteRelease
Layer: Release
Purpose: `scripts/verify_remote_release.py`: a release that the service shows, held against its manifest.
Imports: ExitfyCores.Release.Handoff, ExitfyCores.Release.ReadyDraft
Trusted boundary: human-reviewed spec
Main exports: AssetMap, assetMap, RemoteExpectation, verifyRemoteRelease
Open obligations: none
-/
import ExitfyCores.Release.Handoff
import ExitfyCores.Release.ReadyDraft

namespace ExitfyCores.Release

open Py

/-! ### Assets -/

/-- The assets of a release by their names. -/
abbrev AssetMap := List (Text × Object)

/-- `remote_assets.get(name)` -/
def AssetMap.asset (assets : AssetMap) (name : Text) : Option Object :=
  (assets.find? fun entry => entry.1 = name).map Prod.snd

/-- One turn of the loop of `_asset_map`. -/
def assetStep (assets : AssetMap) (value : Value) : Except Raised AssetMap :=
  match value with
  | .dict entries =>
      match Object.get entries "name" with
      | .str name => do
          throwIf (name = [] ∨ name ∈ assets.map Prod.fst)
            (.value (text "release asset names are missing or duplicated"))
          throwIf ((Object.get entries "id").positiveInt = none)
            (.value (text "release asset id is invalid: " ++ name))
          throwIf ((Object.get entries "size").positiveInt = none)
            (.value (text "release asset size is invalid: " ++ name))
          throwIf (isTextThat isAssetDigest (Object.get entries "digest") = false)
            (.value (text "release asset digest is invalid: " ++ name))
          return assets ++ [(name, entries)]
      | _ => throw (.value (text "release asset names are missing or duplicated"))
  | _ => throw (.value (text "release asset is malformed"))

/-- `_asset_map(release)` -/
def assetMap (release : Object) : Except Raised AssetMap :=
  match release.get "assets" with
  | .list values => values.foldlM assetStep []
  | _ => throw (.value (text "release assets are missing"))

/-! ### Pieces of the manifest -/

/-- `_exact_keys(value, expected, label)` -/
def exactKeys (value : Value) (expected : List String) (label : Text) : Except Raised Object :=
  match value with
  | .dict entries => do
      throwIf (¬ HasKeys entries expected) (.value (label ++ text " fields do not match the contract"))
      return entries
  | _ => throw (.value (label ++ text " fields do not match the contract"))

/-- The value is a list or a dictionary, which no set holds. -/
def isUnhashable : Value → Bool
  | .list _ => true
  | .dict _ => true
  | _ => false

/-- The items of `value or []` as `set` and `len` take them. -/
def exportItems : Value → Except Raised (List Value)
  | .none => .ok []
  | .bool false => .ok []
  | .str value => .ok (value.map fun c => .str [c])
  | .list items => if items.any isUnhashable then .error .unexpected else .ok items
  | .dict entries => .ok (entries.map fun entry => .str entry.1)
  | value => if equalNumbers value (.int 0) then .ok [] else .error .unexpected

/-- `EXPORTS` -/
def exports : List Text := [text "StartCore", text "StopCore"]

/-- `set(items) == EXPORTS and len(items) == len(EXPORTS)` -/
def areExports (items : List Value) : Bool :=
  (exports.all fun name => items.any (Value.isText name)) &&
    (items.all fun item => exports.any fun name => item.isText name) && items.length == exports.length

/-- Whether a value lists the exports. -/
def checkExports (value : Value) (error : Raised) : Except Raised Unit := do
  let items ← exportItems value
  throwIf (areExports items = false) error

def topLevel : List String :=
  ["schema", "coreApi", "configContract", "family", "releaseTag", "upstream", "wrapper", "minAndroidApi",
    "requiredExports", "assets"]

/-- `SB_TAGS` -/
def sbTags : List Text := [text "badlinkname", text "tfogo_checklinkname0", text "with_quic", text "with_utls"]

def ndkVersion : Text := text "27.2.12479018"

def maxManifestBytes : Nat := 1024 * 1024

/-- What the caller expects of a release. -/
structure RemoteExpectation where
  family : Text
  upstreamCommit : Text
  wrapperCommit : Text
  allowDraft : Bool

/-- `release.get("draft")` is allowed and `release.get("prerelease") is False`. -/
def isStable (release : Object) (allowDraft : Bool) : Bool :=
  (match release.get "draft" with
    | .bool draft => !draft || allowDraft
    | _ => false) &&
  match release.get "prerelease" with
  | .bool prerelease => !prerelease
  | _ => false

/-- The start of a release tag of the family. -/
def tagPrefix (family upstreamTag : Text) : Text :=
  (if family = text "xray" then text "xray" else text "sb") ++ text "-" ++ upstreamTag ++ text "-w"

/-- The fields of the manifest that a family has on its own. -/
structure ManifestParts where
  upstreamTag : Text
  upstream : Object
  wrapper : Object

/-- `re.fullmatch(r"[0-9]+\.[0-9]+(?:\.[0-9]+)?", value)`, which raises `TypeError` on what is no string -/
def matchGoVersion : Value → Except Raised Bool
  | .str value => .ok (isGoVersion value)
  | _ => .error .unexpected

/-- The contract of the build of sing-box. -/
def checkSingBoxBuild (upstream wrapper : Object) : Except Raised Unit := do
  let invalid := Raised.value (text "sing-box build contract is invalid")
  throwIf ((upstream.get "repository").isText (text "SagerNet/sing-box") = false) invalid
  let goVersion ← matchGoVersion (upstream.get "goVersion")
  throwIf (goVersion = false ∨ (wrapper.get "ndkVersion").isText ndkVersion = false ∨
    pyEqual (wrapper.get "buildTags") (.list (sbTags.map Value.str)) = false) invalid

/-- `upstream` and `wrapper` with exactly the fields of the family. -/
def familyParts (family : Text) (manifest : Object) : Except Raised (Object × Object) :=
  if family = text "xray" then do
    let upstream ← exactKeys (manifest.get "upstream") ["repository", "tag", "commit"] (text "upstream")
    let wrapper ← exactKeys (manifest.get "wrapper") ["repository", "commit"] (text "wrapper")
    throwIf ((upstream.get "repository").isText (text "XTLS/libXray") = false)
      (.value (text "unexpected Xray upstream repository"))
    return (upstream, wrapper)
  else do
    let upstream ← exactKeys (manifest.get "upstream") ["repository", "tag", "commit", "goVersion"] (text "upstream")
    let wrapper ← exactKeys (manifest.get "wrapper") ["repository", "commit", "ndkVersion", "buildTags", "sourceBundle"]
      (text "wrapper")
    checkSingBoxBuild upstream wrapper
    return (upstream, wrapper)

/-- The manifest's own provenance. -/
def checkManifest (release : Object) (manifest : Object) (expected : RemoteExpectation) :
    Except Raised ManifestParts := do
  let contract := Raised.value (text "manifest core contract is invalid")
  throwIf (pyEqual (manifest.get "schema") (.int 3) = false ∨ pyEqual (manifest.get "coreApi") (.int 2) = false ∨
    pyEqual (manifest.get "configContract") (.int 1) = false ∨
    (manifest.get "family").isText expected.family = false ∨
    pyEqual (manifest.get "minAndroidApi") (.int 29) = false) contract
  checkExports (manifest.get "requiredExports") contract
  let upstreamTag := textOf ((manifest.get "upstream").get "tag")
  throwIf (isTextThat (fun tag => upstreamGroups tag ≠ none) ((manifest.get "upstream").get "tag") = false)
    (.value (text "manifest upstream tag is invalid"))
  throwIf (isTextThat (isReleaseTag (tagPrefix expected.family upstreamTag)) (release.get "tag_name") = false ∨
      (manifest.get "releaseTag").isText (textOf (release.get "tag_name")) = false)
    (.value (text "release tag does not match the manifest"))
  let (upstream, wrapper) ← familyParts expected.family manifest
  throwIf ((upstream.get "commit").isText expected.upstreamCommit = false ∨
      (wrapper.get "repository").isText (text "kvuco/exitFy-cores") = false ∨
      (wrapper.get "commit").isText expected.wrapperCommit = false)
    (.value (text "manifest commit pins are stale"))
  return ⟨upstreamTag, upstream, wrapper⟩

/-! ### Assets of the manifest -/

/-- `remote.get("size") == size and remote.get("digest") == f"sha256:{digest}"` -/
def sameAsset (remote : Object) (size : Value) (digest : Text) : Bool :=
  pyEqual (remote.get "size") size && (remote.get "digest").isText (text "sha256:" ++ digest)

/-- What a manifest says of the cores for an ABI: the class, the machine and its name. -/
structure ElfContract where
  abi : Text
  elfClass : Nat
  machine : Nat
  machineName : Text

/-- `ABIS` of this script -/
def elfContracts : List ElfContract := [⟨text "arm64-v8a", 64, 183, text "EM_AARCH64"⟩]

/-- `f"libxray-{abi}.so" if family == "xray" else f"libexitfy-sb-{abi}.so"` -/
def coreName (family abi : Text) : Text :=
  (if family = text "xray" then text "libxray-" else text "libexitfy-sb-") ++ abi ++ text ".so"

/-- `entries.get(abi)` -/
def abiEntry (entries : Object) (abi : Text) : Value :=
  ((entries.find? fun entry => entry.1 = abi).map Prod.snd).getD .none

/-- One turn of the loop over the ABIs. -/
def checkCoreAsset (family : Text) (assets : AssetMap) (entries : Object) (contract : ElfContract) :
    Except Raised Unit := do
  let name := coreName family contract.abi
  let mismatch := Raised.value (text "remote core asset contract mismatch for " ++ contract.abi)
  let entry ← exactKeys (abiEntry entries contract.abi)
    ["name", "size", "sha256", "elfClass", "elfMachine", "elfMachineName", "exports"]
    (text "manifest asset " ++ contract.abi)
  match assets.asset name with
  | none => throw mismatch
  | some remote => do
      throwIf ((entry.get "name").isText name = false ∨ isSize (1024 * 1024) (64 * 1024 * 1024) (entry.get "size") = false ∨
        isTextThat (isHexText 64) (entry.get "sha256") = false ∨
        sameAsset remote (entry.get "size") (textOf (entry.get "sha256")) = false ∨
        pyEqual (entry.get "elfClass") (.int contract.elfClass) = false ∨
        pyEqual (entry.get "elfMachine") (.int contract.machine) = false ∨
        (entry.get "elfMachineName").isText contract.machineName = false) mismatch
      checkExports (entry.get "exports") mismatch

/-- `re.fullmatch(r"[0-9a-f]{64}", value)`, which raises `TypeError` on what is no string -/
def matchDigest : Value → Except Raised Bool
  | .str value => .ok (isHexText 64 value)
  | _ => .error .unexpected

/-- `f"exitfy-sb-{upstream_tag}-source.tar.gz"` -/
def sourceName (upstreamTag : Text) : Text := text "exitfy-sb-" ++ upstreamTag ++ text "-source.tar.gz"

/-- The source bundle of sing-box. -/
def checkSourceAsset (assets : AssetMap) (parts : ManifestParts) : Except Raised Unit := do
  let mismatch := Raised.value (text "remote source bundle contract mismatch")
  let source ← exactKeys (parts.wrapper.get "sourceBundle") ["name", "size", "sha256"] (text "source bundle")
  throwIf ((source.get "name").isText (sourceName parts.upstreamTag) = false) mismatch
  match assets.asset (sourceName parts.upstreamTag) with
  | none => throw mismatch
  | some remote => do
      throwIf (isSize 1 (512 * 1024 * 1024) (source.get "size") = false) mismatch
      let digest ← matchDigest (source.get "sha256")
      throwIf (digest = false ∨ sameAsset remote (source.get "size") (textOf (source.get "sha256")) = false) mismatch

/-- `manifest.json` among the assets. -/
def checkManifestAsset (sha256 : Sha256) (assets : AssetMap) (manifestBytes : List UInt8) : Except Raised Unit :=
  throwIf ((assets.asset (text "manifest.json")).all (fun remote =>
      !sameAsset remote (.int manifestBytes.length) (sha256.hexdigest manifestBytes)) = true)
    (.value (text "remote manifest size/digest mismatch"))

/-- `manifest.get("assets")` with exactly the ABIs. -/
def abiEntries (manifest : Object) : Except Raised Object :=
  match manifest.get "assets" with
  | .dict entries => do
      throwIf (¬ SameNames (entries.map Prod.fst) (elfContracts.map ElfContract.abi)) (.value (text "manifest ABI set is incomplete"))
      return entries
  | _ => throw (.value (text "manifest ABI set is incomplete"))

/-- `expected_names` -/
def expectedNames (family upstreamTag : Text) : List Text :=
  text "manifest.json" :: elfContracts.map (fun contract => coreName family contract.abi) ++
    if family = text "sing_box" then [sourceName upstreamTag] else []

/-- `verify_remote_release(release, manifest, manifest_bytes, family, upstream_commit, wrapper_commit, allow_draft)` -/
def verifyRemoteRelease (sha256 : Sha256) (release manifest : Object) (manifestBytes : List UInt8)
    (expected : RemoteExpectation) : Except Raised Unit := do
  throwIf (maxManifestBytes < manifestBytes.length) (.value (text "manifest exceeds 1048576 bytes"))
  throwIf (expected.family ≠ text "xray" ∧ expected.family ≠ text "sing_box") (.value (text "unsupported core family"))
  throwIf (isStable release expected.allowDraft = false) (.value (text "release is not stable"))
  throwIf (isCommit expected.upstreamCommit = false ∨ isCommit expected.wrapperCommit = false)
    (.value (text "expected commits are invalid"))
  throwIf ((release.get "target_commitish").isText expected.wrapperCommit = false)
    (.value (text "release target commit is stale"))
  let manifest ← exactKeys (.dict manifest) topLevel (text "manifest")
  let parts ← checkManifest release manifest expected
  let assets ← assetMap release
  checkManifestAsset sha256 assets manifestBytes
  let entries ← abiEntries manifest
  elfContracts.forM (checkCoreAsset expected.family assets entries)
  if expected.family = text "sing_box" then checkSourceAsset assets parts
  throwIf (¬ SameNames (assets.map Prod.fst) (expectedNames expected.family parts.upstreamTag))
    (.value (text "release asset set is incomplete or contains extras"))

end ExitfyCores.Release
