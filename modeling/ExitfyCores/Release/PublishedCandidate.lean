/-
Module: ExitfyCores.Release.PublishedCandidate
Layer: Release
Purpose: `scripts/verify_published_candidate.py`: a public release, its tag reference and its manifest, held against the
  candidate directory that they were made of.
Imports: ExitfyCores.Release.RemoteRelease
Trusted boundary: human-reviewed spec; files stay as they are while the script reads them, so the second looks at names
  and identities are left out
Main exports: readStable, verifyTagReferences, PublishedFiles, verifyPublishedCandidate
Open obligations: none
-/
import ExitfyCores.Release.RemoteRelease

namespace ExitfyCores.Release

open Py

/-! ### Files outside the candidate -/

def maxReleaseBytes : Nat := 16 * 1024 * 1024

def maxReferencesBytes : Nat := 16 * 1024 * 1024

/-- `_read_regular_stable(path, maximum, label)` of `verify_build_inputs`, on what stands at the path. -/
def readStable (node : Option Node) (maximum : Nat) (label : Text) : Except Raised (List UInt8) :=
  match node with
  | none => throw (.value (label ++ text " has a changed or symlinked path"))
  | some (.file raw) => do
      throwIf (maximum < raw.length) (.value (label ++ text " exceeds the safety limit"))
      return raw
  | some _ => throw (.value (label ++ text " is not a single-link regular file"))

/-- `_load_json(raw, label)` -/
def loadJson (raw : List UInt8) (label : Text) : Except Raised Value :=
  match loads raw with
  | .ok value => .ok value
  | .error (.digits message) => .error (.value message)
  | .error _ => .error (.value (label ++ text " is not valid JSON"))

/-! ### The tag reference -/

/-- The references of a response that may come in pages. -/
def flattenReferences (items : List Value) : List Value :=
  items.flatMap fun
    | .list page => page
    | reference => [reference]

/-- `isinstance(value, dict)` -/
def isDict : Value → Bool
  | .dict _ => true
  | _ => false

/-- `f"refs/tags/{tag}"` -/
def tagReference (tag : Text) : Text := text "refs/tags/" ++ tag

/-- `exact` -/
def exactReferences (references : List Value) (tag : Text) : List Value :=
  references.filter fun reference => (reference.get "ref").isText (tagReference tag)

/-- `verify_tag_references(value, tag, expected_commit, allow_missing)` -/
def verifyTagReferences (value : Value) (tag expectedCommit : Text) (allowMissing : Bool) : Except Raised Unit := do
  throwIf (tag = [] ∨ tag.any Py.isSpace = true) (.value (text "release tag is invalid"))
  throwIf (isCommit expectedCommit = false) (.value (text "wrapper commit is invalid"))
  match value with
  | .list items => do
      let references := flattenReferences items
      throwIf (references.all isDict = false) (.value (text "tag reference response contains a malformed entry"))
      match exactReferences references tag with
      | [] => throwIf (allowMissing = false) (.value (text "exact release tag reference is missing"))
      | [reference] =>
          let target := reference.get "object"
          throwIf ((target.get "type").isText (text "commit") = false ∨ (target.get "sha").isText expectedCommit = false)
            (.value (text "release tag does not point to the wrapper commit"))
      | _ => throw (.value (text "exact release tag reference is ambiguous"))
  | _ => throw (.value (text "tag reference response must be an array"))

/-! ### The published candidate -/

def manifestName : Text := text "manifest.json"

/-- The files that the script is given beside the candidate directory. -/
structure PublishedFiles where
  release : Option Node
  references : Option Node
  remoteManifest : Option Node

/-- `value is False` -/
def isFalse : Value → Bool
  | .bool false => true
  | _ => false

/-- The checks on the release itself. -/
def checkPublishedIdentity (release : Object) (releaseTag wrapperCommit : Text) : Except Raised Unit :=
  throwIf ((release.get "tag_name").isText releaseTag = false ∨
      (release.get "target_commitish").isText wrapperCommit = false ∨ isFalse (release.get "draft") = false ∨
      isFalse (release.get "prerelease") = false ∨ (release.get "id").positiveInt = none)
    (.value (text "published release identity does not match the candidate"))

/-- One turn of the loop over the artifacts. -/
def checkPublishedAsset (sha256 : Sha256) (root : Directory) (assets : AssetMap) (name : Text) : Except Raised Unit := do
  let limit ← artifactLimit name
  let raw ← readRegular root name limit (text "local release asset " ++ name)
  match assets.asset name with
  | none => throw .unexpected
  | some remote =>
      throwIf (sameAsset remote (.int raw.length) (sha256.hexdigest raw) = false)
        (.value (text "published asset differs from the candidate: " ++ name))

/-- The last checks on `manifest.json` among the assets. -/
def checkPublishedManifest (sha256 : Sha256) (assets : AssetMap) (localManifest remoteManifest : List UInt8) :
    Except Raised Unit :=
  match assets.asset manifestName with
  | none => throw .unexpected
  | some remote =>
      throwIf (sameAsset remote (.int localManifest.length) (sha256.hexdigest localManifest) = false ∨
          sha256.hexdigest remoteManifest ≠ sha256.hexdigest localManifest)
        (.value (text "published manifest digest differs from the candidate"))

/-- `verify_published_candidate(…)` -/
def verifyPublishedCandidate (sha256 : Sha256) (root : Directory) (files : PublishedFiles) (handoffSha256 : Text)
    (provenance : CandidateProvenance) (wrapperCommit : Text) : Except Raised Unit := do
  verifyHandoff sha256 root handoffSha256 provenance [manifestName]
  throwIf (isCommit wrapperCommit = false) (.value (text "published wrapper commit is invalid"))
  let releaseRaw ← readStable files.release maxReleaseBytes (text "published release")
  let release ← loadObject releaseRaw (text "published release")
  checkPublishedIdentity release provenance.releaseTag wrapperCommit
  let referencesRaw ← readStable files.references maxReferencesBytes (text "release tag references")
  let references ← loadJson referencesRaw (text "release tag references")
  verifyTagReferences references provenance.releaseTag wrapperCommit false
  let localManifest ← readRegular root manifestName maxManifestBytes (text "local release manifest")
  let remoteManifest ← readStable files.remoteManifest maxManifestBytes (text "remote release manifest")
  throwIf (remoteManifest ≠ localManifest) (.value (text "remote manifest bytes differ from the local candidate"))
  let manifest ← loadObject localManifest (text "local release manifest")
  verifyRemoteRelease sha256 release manifest localManifest
    ⟨provenance.family, provenance.upstreamCommit, wrapperCommit, false⟩
  let assets ← assetMap release
  let contract ← familyContract provenance.family provenance.upstreamTag
  throwIf (¬ SameNames (assets.map Prod.fst) (contract.artifacts ++ [manifestName]))
    (.value (text "published release asset set differs from the candidate"))
  (sortedTexts contract.artifacts).forM (checkPublishedAsset sha256 root assets)
  checkPublishedManifest sha256 assets localManifest remoteManifest

end ExitfyCores.Release
