/-
Module: ExitfyCores.Release.ReadyDraft
Layer: Release
Purpose: `prepare_plan`, `verified_draft` and `verified_ready_draft` of `scripts/release_draft_state.py` on a decoded
  release list, and how the list that the service shows catches up with a draft that was just made.
Imports: ExitfyCores.Release.DraftState, Mathlib.Logic.Relation
Trusted boundary: human-reviewed spec; the expected names are strings, as the command line gives them
Main exports: DraftError, exactMatches, preparePlan, verifiedDraft, expectedAssetNames, verifiedReadyDraft,
  Appears, CatchesUp
Open obligations: none
-/
import ExitfyCores.Release.DraftState
import Mathlib.Logic.Relation

namespace ExitfyCores.Release

open Py

/-! ### The errors -/

/-- What the checks raise: `DraftNotReady`, another `ValueError`, or an exception of another class. -/
inductive DraftError where
  | notReady (message : Text)
  | permanent (message : Text)
  | unexpected

/-- `raise ValueError(message)` -/
def DraftError.value (message : String) : DraftError := .permanent (text message)

/-! ### Matching releases -/

/-- The two lists of `_exact_matches`. -/
structure Matches where
  drafts : List Object
  published : List Object

/-- `tag_name` is the tag. -/
def named (tag : Text) (release : Object) : Bool := (release.get "tag_name").isText tag

/-- One turn of the loop of `_exact_matches`. -/
def matchStep (tag : Text) (found : Matches) (release : Object) : Except DraftError Matches :=
  if named tag release then
    match release.get "draft" with
    | .bool true => do
        (notPrerelease (text "matching draft must not be a prerelease") release).mapError .permanent
        return { found with drafts := found.drafts ++ [release] }
    | .bool false => .ok { found with published := found.published ++ [release] }
    | _ => .error (.value "matching release has an invalid draft state")
  else .ok found

/-- `_exact_matches(releases, tag)` -/
def exactMatches (releases : List Object) (tag : Text) : Except DraftError Matches := do
  throwIf (tag = [] ∨ tag.any Py.isSpace) (.value "release tag is invalid")
  releases.foldlM (matchStep tag) { drafts := [], published := [] }

/-- `_require_commit(value)` -/
def requireCommit (value : Text) : Except DraftError Unit :=
  throwIf (isHexText 40 value = false) (.value "wrapper commit is invalid")

/-! ### The plan -/

/-- The result of `prepare_plan`. -/
structure Plan where
  create : Bool
  draftId : Option Nat
  assetIds : List Nat

/-- The plan for the one matching draft. -/
def planFor (expectedCommit : Text) (draft : Object) : Except DraftError Plan := do
  throwIf ((draft.get "target_commitish").isText expectedCommit = false)
    (.value "matching draft targets a different wrapper commit")
  match (draft.get "id").positiveInt with
  | none => throw (.value "matching draft id is invalid")
  | some draftId =>
      match draft.get "assets" with
      | .list assets =>
          let ids ← (assetIds (text "matching draft contains an invalid asset id") assets).mapError .permanent
          throwIf (¬ ids.Nodup) (.value "matching draft contains duplicate asset ids")
          return { create := false, draftId := some draftId, assetIds := ids.mergeSort }
      | _ => throw (.value "matching draft assets are invalid")

/-- `prepare_plan(releases, tag, expected_commit)` -/
def preparePlan (releases : List Object) (tag expectedCommit : Text) : Except DraftError Plan := do
  requireCommit expectedCommit
  let found ← exactMatches releases tag
  throwIf (found.published ≠ []) (.value "the exact release tag is already public")
  match found.drafts with
  | [] => return { create := true, draftId := none, assetIds := [] }
  | [draft] => planFor expectedCommit draft
  | _ => throw (.value "the exact release tag has multiple drafts")

/-- `verified_draft(releases, tag, expected_commit)` -/
def verifiedDraft (releases : List Object) (tag expectedCommit : Text) : Except DraftError Object := do
  let plan ← preparePlan releases tag expectedCommit
  throwIf (plan.create = true) (.value "verified draft is missing")
  let found ← exactMatches releases tag
  match found.drafts with
  | draft :: _ => return draft
  | [] => throw .unexpected

/-! ### A ready draft -/

/-- `ASSET_NAME.fullmatch(value)` -/
def isAssetName (value : Text) : Bool :=
  match value with
  | [] => false
  | c :: rest =>
      let alphanumeric := fun c => isDigit c || (65 ≤ c && c ≤ 90) || (97 ≤ c && c ≤ 122)
      alphanumeric c && rest.length ≤ 254 &&
        rest.all fun c => alphanumeric c || (text "._+-").contains c

/-- `ASSET_DIGEST.fullmatch(value)` -/
def isAssetDigest (value : Text) : Bool :=
  match stripStart (text "sha256:") value with
  | some digits => isHexText 64 digits
  | none => false

/-- One turn of the loop of `_expected_asset_names`. -/
def expectedNameStep (names : List Text) (value : Text) : Except DraftError (List Text) := do
  throwIf (isAssetName value = false) (.value "expected asset name is invalid")
  throwIf (value ∈ names) (.value "expected asset names are duplicated")
  return value :: names

/-- `_expected_asset_names(values)` -/
def expectedAssetNames (values : List Text) : Except DraftError (List Text) := do
  throwIf (values = []) (.value "at least one expected asset is required")
  values.foldlM expectedNameStep []

/-- One turn of the loop that collects the names of the assets. -/
def nameStep (names : List Text) (asset : Value) : Except DraftError (List Text) :=
  match asset with
  | .dict entries =>
      match Object.get entries "name" with
      | .str name => do
          throwIf (isAssetName name = false) (.value "matching draft contains an invalid asset name")
          throwIf (name ∈ names) (.value "matching draft contains duplicate asset names")
          return name :: names
      | _ => throw (.value "matching draft contains an invalid asset name")
  | _ => throw .unexpected

/-- The size and the digest of an asset are there. -/
def metadataReady (asset : Value) : Bool :=
  (asset.get "size").positiveInt.isSome &&
    match asset.get "digest" with
    | .str digest => isAssetDigest digest
    | _ => false

/-- `f"{asset['name']}"` of a name that is a string. -/
def assetName (asset : Value) : Text :=
  match asset.get "name" with
  | .str name => name
  | _ => []

/-- One turn of the loop over sizes and digests. -/
def checkMetadata (asset : Value) : Except DraftError Unit :=
  throwIf (metadataReady asset = false)
    (.notReady (text "verified draft asset metadata is not ready: " ++ assetName asset))

/-- The checks on the assets of the verified draft. -/
def checkAssets (expectedNames : List Text) (assets : List Value) : Except DraftError Unit := do
  let names ← assets.foldlM nameStep []
  throwIf (∃ name ∈ names, name ∉ expectedNames) (.value "matching draft contains an unexpected asset")
  throwIf (∃ name ∈ expectedNames, name ∉ names) (.notReady (text "verified draft asset set is not ready"))
  assets.forM checkMetadata

/-- `verified_ready_draft(releases, tag, expected_commit, expected_assets)` -/
def verifiedReadyDraft (releases : List Object) (tag expectedCommit : Text) (expectedAssets : List Text) :
    Except DraftError Object := do
  let expectedNames ← expectedAssetNames expectedAssets
  requireCommit expectedCommit
  let found ← exactMatches releases tag
  throwIf (found.drafts = [] ∧ found.published = []) (.notReady (text "verified draft is not visible yet"))
  -- Identity and provenance come before everything that another look could mend.
  let draft ← verifiedDraft releases tag expectedCommit
  match draft.get "assets" with
  | .list assets =>
      checkAssets expectedNames assets
      return draft
  | _ => throw .unexpected

/-! ### What the service shows later -/

/-- A draft of a tag. -/
def isDraft (tag : Text) (release : Object) : Prop := named tag release = true ∧ release.get "draft" = .bool true

/-- Nothing but the values of some keys differs. -/
def SameBut (keys : List String) (object object' : Object) : Prop := ∀ key ∉ keys, object'.get key = object.get key

/-- One more thing becomes visible: the missing draft, a missing expected asset, or the size and the digest of an
asset that is already there. -/
inductive Appears (tag : Text) (expected : List Text) : List Object → List Object → Prop where
  | draft {before after : List Object} {release : Object} (missing : ∀ other ∈ before ++ after, ¬ isDraft tag other)
      (made : isDraft tag release) : Appears tag expected (before ++ after) (before ++ release :: after)
  | asset {before after : List Object} {release release' asset : Object} {assets later : List Value} {name : Text}
      (matching : isDraft tag release) (same : SameBut ["assets"] release release')
      (shown : release.get "assets" = .list (assets ++ later)) (named : asset.get "name" = .str name)
      (awaited : name ∈ expected) (missing : ∀ other ∈ assets ++ later, other.get "name" ≠ .str name)
      (shown' : release'.get "assets" = .list (assets ++ .dict asset :: later)) :
      Appears tag expected (before ++ release :: after) (before ++ release' :: after)
  | metadata {before after : List Object} {release release' asset asset' : Object} {assets later : List Value}
      (matching : isDraft tag release) (same : SameBut ["assets"] release release')
      (shown : release.get "assets" = .list (assets ++ .dict asset :: later))
      (sameAsset : SameBut ["size", "digest"] asset asset')
      (shown' : release'.get "assets" = .list (assets ++ .dict asset' :: later)) :
      Appears tag expected (before ++ release :: after) (before ++ release' :: after)

/-- The list after any number of such appearances. -/
abbrev CatchesUp (tag : Text) (expected : List Text) : List Object → List Object → Prop :=
  Relation.ReflTransGen (Appears tag expected)

end ExitfyCores.Release
