/-
Module: ExitfyCores.Proofs.PublishedChain
Layer: Proofs
Purpose: A public release that `verify_published_candidate` accepts has the whole chain of custody behind it; only
  `manifest.json` among its assets has no record in the handoff.
Imports: ExitfyCores.Proofs.Custody, ExitfyCores.Proofs.HandoffImage
Trusted boundary: none
Main exports: HandoffVerified.allow, publishedCandidate_custody, manifest_unrecorded
Open obligations: none
-/
import ExitfyCores.Proofs.Custody
import ExitfyCores.Proofs.HandoffImage

namespace ExitfyCores.Release

open Py

section

variable {sha256 : Sha256} {root : Directory} {expectedSha256 : Text} {provenance : CandidateProvenance}
  {contract : FamilyContract} {raw : List UInt8} {handoff : Object} {contents : Contents}

/-! ### One more file -/

theorem node_append {extra : Directory} {name : Text} {node : Node} (found : root.node name = some node) :
    (root ++ extra).node name = some node := by
  obtain ⟨entry, first, same⟩ := Option.map_eq_some_iff.mp found
  rw [Directory.node, List.find?_append, first]
  exact congrArg some same

theorem node_appended {name : Text} {node : Node} (fresh : name ∉ root.map Prod.fst) :
    (root ++ [(name, node)]).node name = some node := by
  have missing : (root.find? fun entry => entry.1 = name) = none := by
    rw [List.find?_eq_none]
    intro entry member
    have other : entry.1 ≠ name := fun same => fresh (same ▸ List.mem_map_of_mem member)
    simpa using other
  rw [Directory.node, List.find?_append, missing]
  simp

theorem Readable.append {extra : Directory} {name : Text} {maximum : Nat} (readable : Readable root name maximum raw) :
    Readable (root ++ extra) name maximum raw := { readable with found := node_append readable.found }

/-- A verified candidate stays so with a file more, where that file is allowed. -/
theorem HandoffVerified.allow
    (verified : HandoffVerified sha256 root expectedSha256 provenance [] contract raw handoff contents) {name : Text}
    {extra : List UInt8} (isName : IsName name) (fresh : name ∉ root.map Prod.fst) (nonempty : extra.length ≠ 0)
    (bounded : extra.length ≤ maxHandoffBytes) :
    HandoffVerified sha256 (root ++ [(name, .file extra)]) expectedSha256 provenance [name] contract raw handoff
      contents := by
  obtain ⟨valid, _, listed, _, loaded, bytes⟩ := verified
  have names : (root ++ [(name, Node.file extra)]).map Prod.fst = root.map Prod.fst ++ [name] := by simp
  refine ⟨valid, List.forall_mem_singleton.mpr isName.2.2, ⟨?_, ?_, ?_⟩, ?_, { loaded with readable := loaded.readable.append },
    { bytes with
      opened := node_append bytes.opened
      attestation := bytes.attestation.append
      artifacts := bytes.artifacts.imp fun _ _ read => ?_ }⟩
  · rw [names, ← List.concat_eq_append]
    exact listed.nodup.concat fresh
  · intro other member
    rw [names] at member
    rcases List.mem_append.mp member with old | new
    · exact listed.names other old
    · exact List.mem_singleton.mp new ▸ isName
  · rw [names]
    have same := listed.same
    simp only [rootNames, List.append_nil] at same ⊢
    constructor
    · intro other member
      exact List.mem_append.mpr ((List.mem_append.mp member).imp_left (same.1 other))
    · intro other member
      exact List.mem_append.mpr ((List.mem_append.mp member).imp_left (same.2 other))
  · exact List.forall_mem_singleton.mpr ⟨extra, isName.2.2, node_appended fresh, nonempty, bounded⟩
  · obtain ⟨limit, limited, readable⟩ := read.limited
    exact { read with limited := ⟨limit, limited, readable.append⟩ }

end

/-! ### The chain of custody -/

/-- Where `verify_published_candidate` succeeds, the public assets are the artifacts and `manifest.json`, and the chain
of custody holds for each of them. -/
theorem publishedCandidate_custody {sha256 : Sha256} {root : Directory} {files : PublishedFiles} {handoffSha256 : Text}
    {provenance : CandidateProvenance} {wrapperCommit : Text}
    (run : verifyPublishedCandidate sha256 root files handoffSha256 provenance wrapperCommit = .ok ()) :
    ∃ documents, Custody sha256 root files handoffSha256 provenance wrapperCommit documents := by
  obtain ⟨published, verified⟩ := verifyPublishedCandidate_iff.mp run
  obtain ⟨documents, _, custody⟩ := verified.custody
  exact ⟨documents, custody⟩

/-! ### A published candidate -/

section

variable (sha256 : Sha256) (core : List UInt8)

/-- The size of the least core that a public release may have. -/
def IsLeast : Prop := core.length = 1024 * 1024

variable {core} in
theorem IsLeast.shipped (least : IsLeast core) : IsShipped core := by
  rw [IsShipped, show core.length = 1024 * 1024 from least]
  decide

def publicWrapper : Text := List.replicate 40 99

def publicManifest : Object :=
  [(text "assets", .dict [(text "arm64-v8a", .dict [(text "elfClass", .int 64), (text "elfMachine", .int 183),
      (text "elfMachineName", .str (text "EM_AARCH64")),
      (text "exports", .list [.str (text "StartCore"), .str (text "StopCore")]),
      (text "name", .str (text "libxray-arm64-v8a.so")), (text "sha256", .str (sha256.hexdigest core)),
      (text "size", .int core.length)])]),
    (text "configContract", .int 1), (text "coreApi", .int 2), (text "family", .str (text "xray")),
    (text "minAndroidApi", .int 29), (text "releaseTag", .str (text "xray-v1.2.3-w2")),
    (text "requiredExports", .list [.str (text "StartCore"), .str (text "StopCore")]), (text "schema", .int 3),
    (text "upstream", .dict [(text "commit", .str (List.replicate 40 98)), (text "repository", .str (text "XTLS/libXray")),
      (text "tag", .str (text "v1.2.3"))]),
    (text "wrapper", .dict [(text "commit", .str publicWrapper), (text "repository", .str (text "kvuco/exitFy-cores"))])]

def publicManifestRaw : List UInt8 := canonicalJson (.dict (publicManifest sha256 core))

/-- An asset as the service shows it. -/
def publicAsset (id : Int) (name : String) (raw : List UInt8) : Object :=
  [(text "digest", .str (text "sha256:" ++ sha256.hexdigest raw)), (text "id", .int id), (text "name", .str (text name)),
    (text "size", .int raw.length)]

def shownRelease : Object :=
  [(text "assets", .list [.dict (publicAsset sha256 1 "libxray-arm64-v8a.so" core),
      .dict (publicAsset sha256 2 "manifest.json" (publicManifestRaw sha256 core))]),
    (text "draft", .bool false), (text "id", .int 1), (text "prerelease", .bool false),
    (text "tag_name", .str (text "xray-v1.2.3-w2")), (text "target_commitish", .str publicWrapper)]

def publicReference : Value :=
  .dict [(text "object", .dict [(text "sha", .str publicWrapper), (text "type", .str (text "commit"))]),
    (text "ref", .str (text "refs/tags/xray-v1.2.3-w2"))]

def publicFiles : PublishedFiles where
  release := some (.file (canonicalJson (.dict (shownRelease sha256 core))))
  references := some (.file (canonicalJson (.list [publicReference])))
  remoteManifest := some (.file (publicManifestRaw sha256 core))

/-- The candidate with its manifest. -/
def publicRoot : Directory :=
  tinyRoot sha256 core (.int 1) ++ [(manifestName, .file (publicManifestRaw sha256 core))]

theorem sortKeys_publicManifest : sortKeys (.dict (publicManifest sha256 core)) = .dict (publicManifest sha256 core) := rfl

theorem sortKeys_shownRelease : sortKeys (.dict (shownRelease sha256 core)) = .dict (shownRelease sha256 core) := rfl

variable {core} in
theorem plain_publicManifest (least : IsLeast core) : Plain (.dict (publicManifest sha256 core)) := by
  have hex : ∀ raw, PlainText (sha256.hexdigest raw) := fun raw => plainText_hex (sha256.hex raw)
  simp only [publicManifest, Plain, PlainEntries, PlainItems, hex, short_size least.shipped.2, true_and, and_true,
    List.map_cons, List.map_nil]
  decide

variable {core} in
theorem length_publicManifestRaw (least : IsLeast core) : (publicManifestRaw sha256 core).length ≤ 1024 := by
  have digits := length_sizeText least.shipped.2
  rw [publicManifestRaw, length_canonicalJson (sortKeys_publicManifest sha256 core)]
  simp only [publicManifest, reprFloats, reprEntries, reprItems, dumps, dumpsEntries, dumpsItems, List.length_append,
    List.length_cons, length_quote_hex, compact_newline, compact_space, List.length_nil]
  generalize (intText core.length).length = count at digits
  revert count
  decide

theorem nonempty_publicManifestRaw : (publicManifestRaw sha256 core).length ≠ 0 :=
  length_canonicalJson_ne_zero (sortKeys_publicManifest sha256 core)

variable {core} in
theorem short_publicManifestRaw (least : IsLeast core) : (publicManifestRaw sha256 core).length ≤ maxCoreBytes :=
  Nat.le_trans (length_publicManifestRaw sha256 least) (by decide)

theorem plainText_assetDigest (raw : List UInt8) : PlainText (text "sha256:" ++ sha256.hexdigest raw) := by
  have start : PlainText (text "sha256:") := by decide
  intro c member
  exact (List.mem_append.mp member).elim (start c) (plainText_hex (sha256.hex raw) c)

theorem plain_publicAsset {id : Int} (short : (decimal id.natAbs).length ≤ maxStrDigits) {name : String}
    (plainName : PlainText (text name)) {raw : List UInt8} (bounded : raw.length ≤ maxCoreBytes) :
    Plain (.dict (publicAsset sha256 id name raw)) := by
  simp only [publicAsset, Plain, PlainEntries, plainText_assetDigest, short, plainName, short_size bounded, true_and,
    and_true, List.map_cons, List.map_nil]
  decide

variable {core} in
theorem plain_shownRelease (least : IsLeast core) : Plain (.dict (shownRelease sha256 core)) := by
  have shared := @plain_publicAsset sha256 1 (by decide) "libxray-arm64-v8a.so" (by decide) _ least.shipped.2
  have manifest := @plain_publicAsset sha256 2 (by decide) "manifest.json" (by decide) _
    (short_publicManifestRaw sha256 least)
  have wrapper : PlainText publicWrapper := by decide
  have tag : PlainText (text "xray-v1.2.3-w2") := by decide
  have keys : ∀ name ∈ (["assets", "draft", "id", "prerelease", "tag_name", "target_commitish"].map text),
      PlainText name := by decide
  have nodup : (["assets", "draft", "id", "prerelease", "tag_name", "target_commitish"].map text).Nodup := by decide
  have number : Plain (.int 1) := show (decimal 1).length ≤ maxStrDigits by decide
  refine ⟨plainEntries_iff.mpr fun entry member => ⟨keys _ (List.mem_map_of_mem member), ?_⟩, nodup⟩
  simp only [shownRelease, List.mem_cons, List.not_mem_nil, or_false] at member
  rcases member with rfl | rfl | rfl | rfl | rfl | rfl
  · exact ⟨shared, manifest, trivial⟩
  · exact trivial
  · exact number
  · exact trivial
  · exact tag
  · exact wrapper

theorem sortKeys_publicReference : sortKeys (.list [publicReference]) = .list [publicReference] := rfl

theorem plain_publicReference : Plain (.list [publicReference]) := by
  have wrapper : PlainText publicWrapper := by decide
  simp only [publicReference, Plain, PlainEntries, PlainItems, wrapper, true_and, and_true, List.map_cons, List.map_nil]
  decide

/-- What is written of an asset digest. -/
theorem length_quote_assetDigest (raw : List UInt8) : (quote (text "sha256:" ++ sha256.hexdigest raw)).length = 73 := by
  have start : (text "sha256:").length = 7 := by decide
  rw [length_quote_plain (plainText_assetDigest sha256 raw), List.length_append, length_hex (sha256.hex raw), start]

variable {core} in
theorem length_shownReleaseRaw (least : IsLeast core) : (canonicalJson (.dict (shownRelease sha256 core))).length ≤ 1024 := by
  have digits := length_sizeText least.shipped.2
  have others := length_sizeText (short_publicManifestRaw sha256 least)
  rw [length_canonicalJson (sortKeys_shownRelease sha256 core)]
  simp only [shownRelease, publicAsset, reprFloats, reprEntries, reprItems, dumps, dumpsEntries, dumpsItems,
    List.length_append, List.length_cons, length_quote_assetDigest, compact_newline, compact_space, List.length_nil]
  generalize (intText core.length).length = count at digits
  generalize (intText (publicManifestRaw sha256 core).length).length = other at others
  revert other count
  decide

theorem length_referencesRaw : (canonicalJson (.list [publicReference])).length ≤ 1024 := by
  rw [length_canonicalJson sortKeys_publicReference]
  simp only [publicReference, reprFloats, reprEntries, reprItems, dumps, dumpsEntries, dumpsItems, List.length_append,
    List.length_cons, compact_newline, compact_space, List.length_nil]
  decide

variable {core} in
theorem publicHandoff_verified (least : IsLeast core) : HandoffVerified sha256 (publicRoot sha256 core)
    (sha256.hexdigest (tinyHandoffRaw sha256 core (.int 1))) (tinyProvenance sha256) [manifestName] tinyContract
    (tinyHandoffRaw sha256 core (.int 1)) (tinyHandoff sha256 core (.int 1)) (tinyContents sha256 core) := by
  have isName : IsName manifestName := by
    have names : directoryNames [(manifestName, Node.other)] [] = .ok [manifestName] := eq_ok_of_toOption (by decide)
    exact (directoryNames_iff.mp names).2.1 manifestName (by decide)
  have fresh : manifestName ∉ (tinyRoot sha256 core (.int 1)).map Prod.fst := by
    change manifestName ∉ [text "libxray-arm64-v8a.so", coreAttestationName, snapshotDir, handoffName]
    decide
  exact (tiny_verified sha256 least.shipped (.inl rfl)).allow isName fresh (nonempty_publicManifestRaw sha256 core)
    (Nat.le_trans (length_publicManifestRaw sha256 least) (by decide))

def publicParts : ManifestParts where
  upstreamTag := text "v1.2.3"
  upstream := [(text "commit", .str (List.replicate 40 98)), (text "repository", .str (text "XTLS/libXray")),
    (text "tag", .str (text "v1.2.3"))]
  wrapper := [(text "commit", .str publicWrapper), (text "repository", .str (text "kvuco/exitFy-cores"))]

def publicAssets : AssetMap :=
  [(text "libxray-arm64-v8a.so", publicAsset sha256 1 "libxray-arm64-v8a.so" core),
    (text "manifest.json", publicAsset sha256 2 "manifest.json" (publicManifestRaw sha256 core))]

/-- The entry of the manifest for the core. -/
def publicEntry : Object :=
  [(text "elfClass", .int 64), (text "elfMachine", .int 183), (text "elfMachineName", .str (text "EM_AARCH64")),
    (text "exports", .list [.str (text "StartCore"), .str (text "StopCore")]),
    (text "name", .str (text "libxray-arm64-v8a.so")), (text "sha256", .str (sha256.hexdigest core)),
    (text "size", .int core.length)]

theorem isAsset_publicAsset {id : Nat} (positive : id ≠ 0) {name : String} (named : text name ≠ []) {raw : List UInt8}
    (nonempty : raw.length ≠ 0) : IsAsset (text name, publicAsset sha256 id name raw) := by
  have digest : isAssetDigest (text "sha256:" ++ sha256.hexdigest raw) = true := by
    rw [isAssetDigest, stripStart_eq_some.mpr rfl]
    exact sha256.hex raw
  refine ⟨rfl, named, ?_, ?_, _, digest, rfl⟩
  · exact ne_of_eq_of_ne (positiveInt_natCast positive) (Option.some_ne_none id)
  · exact ne_of_eq_of_ne (positiveInt_natCast nonempty) (Option.some_ne_none _)

theorem sameAsset_publicAsset (id : Int) (name : String) (raw : List UInt8) :
    sameAsset (publicAsset sha256 id name raw) (.int raw.length) (sha256.hexdigest raw) = true :=
  Bool.and_eq_true_iff.mpr ⟨equalNumbers_int _, isText_iff_str.mpr rfl⟩

variable {core} in
theorem assetMap_shownRelease (least : IsLeast core) : assetMap (shownRelease sha256 core) = .ok (publicAssets sha256 core) := by
  have nodup : [text "libxray-arm64-v8a.so", text "manifest.json"].Nodup := by decide
  refine assetMap_iff.mpr ⟨_, rfl, rfl, ?_, nodup⟩
  intro asset member
  rcases List.mem_pair.mp member with rfl | rfl
  · exact @isAsset_publicAsset sha256 1 (by decide) _ (by decide) _ least.shipped.1
  · exact @isAsset_publicAsset sha256 2 (by decide) _ (by decide) _ (nonempty_publicManifestRaw sha256 core)

theorem listsExports : ListsExports (.list [.str (text "StartCore"), .str (text "StopCore")]) :=
  ⟨[.str (text "StartCore"), .str (text "StopCore")], rfl, by decide⟩

theorem publicManifest_checked : ManifestChecked (shownRelease sha256 core) (publicManifest sha256 core)
    ⟨text "xray", List.replicate 40 98, publicWrapper, false⟩ publicParts := by
  have version : upstreamGroups (text "v1.2.3") ≠ none := by decide
  have tag : isReleaseTag (tagPrefix (text "xray") (text "v1.2.3")) (text "xray-v1.2.3-w2") = true := by decide
  have upstreamKeys : HasKeys publicParts.upstream ["repository", "tag", "commit"] := by decide
  have wrapperKeys : HasKeys publicParts.wrapper ["repository", "commit"] := by decide
  exact {
    schema := equalNumbers_int 3
    coreApi := equalNumbers_int 2
    configContract := equalNumbers_int 1
    family := rfl
    minAndroidApi := equalNumbers_int 29
    requiredExports := listsExports
    upstream := rfl
    wrapper := rfl
    upstreamTag := rfl
    version := version
    releaseTag := ⟨text "xray-v1.2.3-w2", tag, rfl, rfl⟩
    fields := (if_pos rfl).mpr ⟨upstreamKeys, wrapperKeys, rfl⟩
    upstreamCommit := rfl
    repository := rfl
    wrapperCommit := rfl }

variable {core} in
theorem publicCore_listed (least : IsLeast core) : CoreListed (text "xray") (publicAssets sha256 core)
    ⟨text "arm64-v8a", 64, 183, text "EM_AARCH64"⟩ (publicEntry sha256 core)
    (publicAsset sha256 1 "libxray-arm64-v8a.so" core) := by
  have keys : SameNames (["elfClass", "elfMachine", "elfMachineName", "exports", "name", "sha256", "size"].map text)
      (["name", "size", "sha256", "elfClass", "elfMachine", "elfMachineName", "exports"].map text) := by decide
  have bounds : max 1 (1024 * 1024) ≤ core.length ∧ core.length ≤ 64 * 1024 * 1024 := by
    rw [show core.length = 1024 * 1024 from least]
    decide
  exact {
    keys := keys
    found := rfl
    name := rfl
    sized := isSize_iff.mpr ⟨core.length, rfl, bounds⟩
    digest := ⟨_, sha256.hex core, rfl⟩
    same := sameAsset_publicAsset sha256 1 "libxray-arm64-v8a.so" core
    elfClass := equalNumbers_int 64
    machine := equalNumbers_int 183
    machineName := rfl
    exports := listsExports }

variable {core} in
theorem publicRelease_verified (least : IsLeast core) : RemoteVerified sha256 (shownRelease sha256 core)
    (publicManifest sha256 core) (publicManifestRaw sha256 core)
    ⟨(tinyProvenance sha256).family, (tinyProvenance sha256).upstreamCommit, publicWrapper, false⟩ publicParts
    (publicAssets sha256 core) [(text "arm64-v8a", .dict (publicEntry sha256 core))] := by
  have commits : isCommit (List.replicate 40 98) = true ∧ isCommit publicWrapper = true := by decide
  have keys : SameNames (["assets", "configContract", "coreApi", "family", "minAndroidApi", "releaseTag",
      "requiredExports", "schema", "upstream", "wrapper"].map text) (topLevel.map text) := by decide
  have names : SameNames [text "libxray-arm64-v8a.so", text "manifest.json"]
      (expectedNames (text "xray") (text "v1.2.3")) := by decide
  have abi : SameNames [text "arm64-v8a"] (elfContracts.map ElfContract.abi) := by decide
  have other : text "xray" ≠ text "sing_box" := by decide
  exact {
    bounded := Nat.le_trans (length_publicManifestRaw sha256 least) (by decide)
    family := .inl rfl
    stable := rfl
    upstreamCommit := commits.1
    wrapperCommit := commits.2
    target := rfl
    keys := keys
    checked := publicManifest_checked sha256 core
    mapped := assetMap_shownRelease sha256 least
    manifestAsset := ⟨_, rfl, sameAsset_publicAsset sha256 2 "manifest.json" _⟩
    found := rfl
    abis := abi
    cores := List.forall_mem_singleton.mpr ⟨_, _, rfl, publicCore_listed sha256 least⟩
    source := fun singBox => absurd singBox other
    names := names }

variable {core} in
theorem publicCandidate_accepted (least : IsLeast core) :
    verifyPublishedCandidate sha256 (publicRoot sha256 core) (publicFiles sha256 core)
      (sha256.hexdigest (tinyHandoffRaw sha256 core (.int 1))) (tinyProvenance sha256) publicWrapper = .ok () := by
  have verified := publicHandoff_verified sha256 least
  have wrapper : isCommit publicWrapper = true := by decide
  have tag : text "xray-v1.2.3-w2" ≠ [] ∧ (text "xray-v1.2.3-w2").any Py.isSpace = false := by decide
  have names : SameNames [text "libxray-arm64-v8a.so", text "manifest.json"]
      ([text "libxray-arm64-v8a.so"] ++ [manifestName]) := by decide
  have release : (canonicalJson (.dict (shownRelease sha256 core))).length ≤ maxReleaseBytes :=
    Nat.le_trans (length_shownReleaseRaw sha256 least) (by decide)
  have references : (canonicalJson (.list [publicReference])).length ≤ maxReferencesBytes :=
    Nat.le_trans length_referencesRaw (by decide)
  have manifest : (publicManifestRaw sha256 core).length ≤ maxManifestBytes :=
    Nat.le_trans (length_publicManifestRaw sha256 least) (by decide)
  obtain ⟨_, readableManifest⟩ := verified.extraFiles manifestName List.mem_cons_self
  have core' : Readable (publicRoot sha256 core) (text "libxray-arm64-v8a.so") maxCoreBytes core := by
    cases verified.bytes.artifacts with
    | cons read _ =>
        obtain ⟨limit, limited, readable⟩ := read.limited
        cases limited
        exact readable
  exact verifyPublishedCandidate_iff.mpr
    ⟨⟨tinyContract, _, _, _, shownRelease sha256 core, [publicReference], publicReference, publicManifestRaw sha256 core,
      publicManifest sha256 core, publicParts, publicAssets sha256 core, _⟩, {
    handoff := verified
    wrapper := wrapper
    release := ⟨_, ⟨rfl, release⟩, loads_canonicalJson (plain_shownRelease sha256 least) (sortKeys_shownRelease sha256 core)⟩
    identity := ⟨rfl, rfl, rfl, rfl, ne_of_eq_of_ne (@positiveInt_natCast 1 (by decide)) (Option.some_ne_none 1)⟩
    references := ⟨_, ⟨rfl, references⟩, loads_canonicalJson plain_publicReference sortKeys_publicReference⟩
    tag := tag
    reference := ⟨rfl, rfl, rfl, rfl⟩
    localManifest := ⟨readableManifest.component, rfl, nonempty_publicManifestRaw sha256 core, manifest⟩
    remoteManifest := rfl
    manifest := loads_canonicalJson (plain_publicManifest sha256 least) (sortKeys_publicManifest sha256 core)
    remote := publicRelease_verified sha256 least
    names := names
    artifacts := List.forall_mem_singleton.mpr ⟨core, _, ⟨maxCoreBytes, rfl, core'⟩, rfl,
      sameAsset_publicAsset sha256 1 "libxray-arm64-v8a.so" core⟩ }⟩

end

/-- A core of the least public size. -/
def leastCore : List UInt8 := List.replicate (1024 * 1024) 120

theorem isLeast_leastCore : IsLeast leastCore := List.length_replicate

theorem publicCandidate_custody : ∃ documents, Custody hashlib (publicRoot hashlib leastCore)
    (publicFiles hashlib leastCore) (hashlib.hexdigest (tinyHandoffRaw hashlib leastCore (.int 1)))
    (tinyProvenance hashlib) publicWrapper documents :=
  publishedCandidate_custody (publicCandidate_accepted hashlib isLeast_leastCore)

/-- The paths in the handoff of the candidate. -/
theorem tinyHandoff_paths (sha256 : Sha256) (core : List UInt8) {records : List Value}
    (isRecords : Object.get (tinyHandoff sha256 core (.int 1)) "files" = .list records) :
    (records.map fun record => record.get "path") = (["core-attestation.json", "libxray-arm64-v8a.so",
      "pin-snapshot/go.mod", "pin-snapshot/go.sum", "pin-snapshot/snapshot.json"].map fun path => .str (text path)) := by
  cases isRecords
  rfl

/-- `manifest.json` is a public asset of the accepted candidate, and the handoff has no record of it. -/
theorem manifest_unrecorded :
    verifyPublishedCandidate hashlib (publicRoot hashlib leastCore) (publicFiles hashlib leastCore)
        (hashlib.hexdigest (tinyHandoffRaw hashlib leastCore (.int 1))) (tinyProvenance hashlib) publicWrapper = .ok () ∧
      AssetsNamed (shownRelease hashlib leastCore) [text "libxray-arm64-v8a.so", manifestName] ∧
      (publicRoot hashlib leastCore).node handoffName = some (.file (tinyHandoffRaw hashlib leastCore (.int 1))) ∧
      loads (tinyHandoffRaw hashlib leastCore (.int 1)) = .ok (.dict (tinyHandoff hashlib leastCore (.int 1))) ∧
      ∀ raw, ¬ HandoffRecords hashlib (tinyHandoff hashlib leastCore (.int 1)) manifestName raw := by
  have verified := publicHandoff_verified hashlib isLeast_leastCore
  have names : SameNames [text "libxray-arm64-v8a.so", text "manifest.json"]
      [text "libxray-arm64-v8a.so", manifestName] := by decide
  refine ⟨publicCandidate_accepted hashlib isLeast_leastCore,
    assetsNamed (assetMap_shownRelease hashlib isLeast_leastCore) names, verified.loaded.readable.found,
    verified.loaded.loaded, ?_⟩
  intro raw ⟨records, isRecords, ⟨record, member, path⟩, _⟩
  have among := @List.mem_map_of_mem _ _ _ _ (fun record : Value => record.get "path") member
  rw [tinyHandoff_paths hashlib leastCore isRecords, path] at among
  obtain ⟨other, memberOther, same⟩ := List.mem_map.mp among
  have apart : ∀ other ∈ ["core-attestation.json", "libxray-arm64-v8a.so", "pin-snapshot/go.mod", "pin-snapshot/go.sum",
      "pin-snapshot/snapshot.json"], text other ≠ manifestName := by decide
  exact apart other memberOther (Value.str.inj same)

end ExitfyCores.Release
