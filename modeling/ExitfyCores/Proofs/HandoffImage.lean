/-
Module: ExitfyCores.Proofs.HandoffImage
Layer: Proofs
Purpose: A handoff that `verify_handoff` accepts is one that `create_handoff` writes just when every number in it is an
  integer; a candidate in which `true` stands for a size is accepted all the same.
Imports: ExitfyCores.Proofs.Handoff
Trusted boundary: none
Main exports: IsCreated, HasIntegers, acceptedHandoffsCreated, trueSize_accepted
Open obligations: none
-/
import ExitfyCores.Proofs.Handoff

namespace ExitfyCores.Release

open Py

section

variable {sha256 : Sha256} {root : Directory} {expectedSha256 : Text} {provenance : CandidateProvenance}
  {allowedExtraFiles : List Text} {contract : FamilyContract} {raw : List UInt8} {handoff : Object} {contents : Contents}

/-! ### The image of `create_handoff` -/

/-- The document in a candidate directory is the one that `create_handoff` writes from the artifacts, the snapshot and
the core attestation in it. -/
def IsCreated (sha256 : Sha256) (provenance : CandidateProvenance) (root : Directory) : Prop :=
  ∃ snapshot attestation output digest, root.node snapshotDir = some (.directory snapshot) ∧
    root.node coreAttestationName = some (.file attestation) ∧
    createHandoff sha256 ⟨root, snapshot, root, coreAttestationName⟩ provenance (sha256.hexdigest attestation) =
      .ok (output, digest) ∧ output.node handoffName = root.node handoffName

/-- The document in a candidate directory has neither a boolean nor a float in it. -/
def HasIntegers (root : Directory) : Prop :=
  ∃ raw handoff, root.node handoffName = some (.file raw) ∧ loads raw = .ok handoff ∧ onlyIntegers handoff = true

theorem eq_of_node {directory : Directory} {name : Text} {first second : Node}
    (one : directory.node name = some first) (two : directory.node name = some second) : first = second :=
  Option.some.inj (one.symm.trans two)

theorem HandoffVerified.isCreated_iff
    (verified : HandoffVerified sha256 root expectedSha256 provenance allowedExtraFiles contract raw handoff contents) :
    IsCreated sha256 provenance root ↔ HasIntegers root := by
  have found := verified.loaded.readable.found
  have bytes := verified.bytes
  constructor
  · intro ⟨snapshot, attestation, output, digest, opened, attested, run, same⟩
    obtain ⟨contract', ⟨directory', snapshot', attestation', attested', artifacts'⟩, raw', created, rfl, rfl, rfl⟩ :=
      createHandoff_iff.mp run
    -- Both read the same files, so every step gives the same.
    cases verified.valid.symm.trans created.valid
    cases eq_of_node bytes.opened opened
    cases eq_of_node bytes.attestation.found attested
    cases eq_of_node bytes.attestation.found created.attestation.found
    cases bytes.attested.symm.trans created.attested
    cases (readSnapshot_iff.mpr bytes.snapshot).symm.trans (readSnapshot_iff.mpr created.snapshot)
    have label := text ""
    cases (mapM_iff.mpr (bytes.artifacts.imp fun _ _ => (@readArtifact_iff _ _ _ label _ _).mpr)).symm.trans
      (mapM_iff.mpr (created.artifacts.imp fun _ _ => (@readArtifact_iff _ _ _ label _ _).mpr))
    cases eq_of_node (node_handoffName verified.valid created.artifacts raw') (same.trans found)
    exact ⟨raw, .dict handoff, found, verified.loaded.loaded, verified.canonical_iff.mp created.document⟩
  · intro ⟨raw', handoff', found', loaded, integers⟩
    cases eq_of_node found found'
    cases verified.loaded.loaded.symm.trans loaded
    have document := verified.canonical_iff.mpr integers
    refine ⟨contents.directory, contents.attestation, _, _, bytes.opened, bytes.attestation.found,
      createHandoff_iff.mpr ⟨contract, contents, raw, ⟨verified.valid, bytes.attestation, rfl, bytes.attested,
        bytes.snapshot, bytes.artifacts, document, verified.loaded.readable.bounded, verified.written⟩, rfl, rfl, rfl⟩, ?_⟩
    rw [node_handoffName verified.valid bytes.artifacts, found]

/-- A directory that `verify_handoff` accepts holds the document that `create_handoff` writes just when the document in
it has neither a boolean nor a float. -/
theorem acceptedHandoffsCreated (accepted : verifyHandoff sha256 root expectedSha256 provenance allowedExtraFiles = .ok ()) :
    IsCreated sha256 provenance root ↔ HasIntegers root := by
  obtain ⟨contract, raw, handoff, contents, verified⟩ := verifyHandoff_iff.mp accepted
  exact verified.isCreated_iff

end

/-! ### A candidate in which `true` stands for the size 1 -/

section

variable (sha256 : Sha256) (core : List UInt8)

def tinyFile (path : String) (role : String) (raw : List UInt8) (size : Value) : Value :=
  .dict [(text "path", .str (text path)), (text "role", .str (text role)),
    (text "sha256", .str (sha256.hexdigest raw)), (text "size", size)]

def tinyPin (name : String) (raw : List UInt8) : Value :=
  .dict [(text "file", .str (text name)), (text "path", .str (text name)),
    (text "sha256", .str (sha256.hexdigest raw)), (text "size", .int 1)]

def tinyMetadata : Object :=
  [(text "modulePath", .str (text "github.com/xtls/libxray")), (text "moduleVersion", .str (text "v1.2.3")),
    (text "originCommit", .str (List.replicate 40 98)),
    (text "pins", .list [tinyPin sha256 "go.mod" [109], tinyPin sha256 "go.sum" [115]]), (text "schema", .int 1)]

def tinyMetadataRaw : List UInt8 := canonicalJson (.dict (tinyMetadata sha256))

def tinyAttestation : Object :=
  [(text "family", .str (text "xray")),
    (text "files", .list [.dict [(text "elfClass", .int 2),
      (text "exports", .list [.str (text "StartCore"), .str (text "StopCore")]),
      (text "loadAlignments", .list [.int 16384]), (text "machine", .int 183),
      (text "path", .str (text "libxray-arm64-v8a.so")), (text "sha256", .str (sha256.hexdigest core)),
      (text "size", .int core.length)]]), (text "schema", .int 1)]

def tinyAttestationRaw : List UInt8 := canonicalJson (.dict (tinyAttestation sha256 core))

def tinyHandoff (size : Value) : Object :=
  [(text "coreAttestationSha256", .str (sha256.hexdigest (tinyAttestationRaw sha256 core))),
    (text "eventCommit", .str (List.replicate 40 97)), (text "family", .str (text "xray")),
    (text "files", .list [
      tinyFile sha256 "core-attestation.json" "verification" (tinyAttestationRaw sha256 core)
        (.int (tinyAttestationRaw sha256 core).length),
      tinyFile sha256 "libxray-arm64-v8a.so" "core" core (.int core.length),
      tinyFile sha256 "pin-snapshot/go.mod" "pin" [109] size,
      tinyFile sha256 "pin-snapshot/go.sum" "pin" [115] (.int 1),
      tinyFile sha256 "pin-snapshot/snapshot.json" "snapshot" (tinyMetadataRaw sha256) (.int 382)]),
    (text "pinSnapshot", .dict [(text "metadataSha256", .str (sha256.hexdigest (tinyMetadataRaw sha256))),
      (text "modulePath", .str (text "github.com/xtls/libxray")), (text "moduleVersion", .str (text "v1.2.3")),
      (text "originCommit", .str (List.replicate 40 98))]),
    (text "releaseTag", .str (text "xray-v1.2.3-w2")), (text "schema", .int 2),
    (text "upstream", .dict [(text "commit", .str (List.replicate 40 98)), (text "goVersion", .str (text "1.25.1")),
      (text "tag", .str (text "v1.2.3"))])]

def tinyHandoffRaw (size : Value) : List UInt8 := canonicalJson (.dict (tinyHandoff sha256 core size))

def tinyProvenance : CandidateProvenance where
  family := text "xray"
  eventCommit := List.replicate 40 97
  upstreamTag := text "v1.2.3"
  upstreamCommit := List.replicate 40 98
  goVersion := text "1.25.1"
  releaseTag := text "xray-v1.2.3-w2"
  snapshotSha256 := sha256.hexdigest (tinyMetadataRaw sha256)

def tinySnapshot : Directory :=
  [(text "go.mod", .file [109]), (text "go.sum", .file [115]), (text "snapshot.json", .file (tinyMetadataRaw sha256))]

/-- The candidate with a size in the record of `go.mod`. -/
def tinyRoot (size : Value) : Directory :=
  [(text "libxray-arm64-v8a.so", .file core), (coreAttestationName, .file (tinyAttestationRaw sha256 core)),
    (snapshotDir, .directory (tinySnapshot sha256)), (handoffName, .file (tinyHandoffRaw sha256 core size))]

theorem length_quote_plain {value : Text} (plain : PlainText value) : (quote value).length = value.length + 2 := by
  rw [quote_plain plain]
  simp

theorem plainText_hex {count : Nat} {value : Text} (hex : isHexText count value = true) : PlainText value := by
  intro c member
  have digit := List.all_eq_true.mp (Bool.and_eq_true_iff.mp hex).2 c member
  simp only [isHexDigit, isDigit, Bool.or_eq_true, Bool.and_eq_true, decide_eq_true_eq] at digit
  omega

theorem length_hex {count : Nat} {value : Text} (hex : isHexText count value = true) : value.length = count :=
  beq_iff_eq.mp (Bool.and_eq_true_iff.mp hex).1

variable {core} in
/-- The digits of the size of a file. -/
theorem length_sizeText (small : core.length ≤ maxCoreBytes) : (intText core.length).length < 9 := by
  have bound : core.length < 10 ^ 8 := Nat.lt_of_le_of_lt small (by decide)
  exact Nat.lt_succ_of_le ((length_decimal_le (by decide)).mpr bound)

variable {core} in
theorem short_size (small : core.length ≤ maxCoreBytes) :
    (decimal (core.length : Int).natAbs).length ≤ maxStrDigits :=
  Nat.le_of_lt (Nat.lt_trans (length_sizeText small) (by decide))

theorem sortKeys_tinyMetadata : sortKeys (.dict (tinyMetadata sha256)) = .dict (tinyMetadata sha256) := by
  rfl

theorem sortKeys_tinyAttestation : sortKeys (.dict (tinyAttestation sha256 core)) = .dict (tinyAttestation sha256 core) := rfl

theorem plain_tinyMetadata : Plain (.dict (tinyMetadata sha256)) := by
  have hex : ∀ raw, PlainText (sha256.hexdigest raw) := fun raw => plainText_hex (sha256.hex raw)
  simp only [tinyMetadata, tinyPin, Plain, PlainEntries, PlainItems, hex, true_and, and_true, List.map_cons,
    List.map_nil]
  decide

variable {core} in
theorem plain_tinyAttestation (small : core.length ≤ maxCoreBytes) : Plain (.dict (tinyAttestation sha256 core)) := by
  have hex : ∀ raw, PlainText (sha256.hexdigest raw) := fun raw => plainText_hex (sha256.hex raw)
  simp only [tinyAttestation, Plain, PlainEntries, PlainItems, hex, short_size small, true_and, and_true, List.map_cons,
    List.map_nil]
  decide

theorem plain_tinyFile {path role : String} (plainPath : PlainText (text path)) (plainRole : PlainText (text role))
    (raw : List UInt8) {size : Value} (plain : Plain size) : Plain (tinyFile sha256 path role raw size) := by
  have hex : PlainText (sha256.hexdigest raw) := plainText_hex (sha256.hex raw)
  simp only [tinyFile, Plain, PlainEntries, hex, plainPath, plainRole, plain, true_and, and_true, List.map_cons,
    List.map_nil]
  decide

/-- The length of what is written of a value whose keys are sorted. -/
theorem length_canonicalJson {value : Value} (sorted : sortKeys value = value) :
    (canonicalJson value).length = (dumps compact 0 (reprFloats value)).length + 1 := by
  have newline : Ascii (text "\n") := by simp [text, Ascii]
  rw [canonicalJson, length_encode_ascii (ascii_append (ascii_canonicalDumps value) newline), List.length_append,
    canonicalDumps, sorted]
  rfl

theorem length_canonicalJson_ne_zero {value : Value} (sorted : sortKeys value = value) :
    (canonicalJson value).length ≠ 0 := by
  rw [length_canonicalJson sorted]
  exact Nat.succ_ne_zero _

theorem length_quote_hex (raw : List UInt8) : (quote (sha256.hexdigest raw)).length = 66 := by
  rw [length_quote_plain (plainText_hex (sha256.hex raw)), length_hex (sha256.hex raw)]

theorem length_tinyMetadataRaw : (tinyMetadataRaw sha256).length = 382 := by
  rw [tinyMetadataRaw, length_canonicalJson (sortKeys_tinyMetadata sha256)]
  simp only [tinyMetadata, tinyPin, reprFloats, reprEntries, reprItems, dumps, dumpsEntries, dumpsItems,
    List.length_append, List.length_cons, length_quote_hex, compact_newline, compact_space, List.length_nil]
  decide

variable {core} in
theorem length_tinyAttestationRaw (small : core.length ≤ maxCoreBytes) :
    (tinyAttestationRaw sha256 core).length ≤ 250 := by
  have digits := length_sizeText small
  rw [tinyAttestationRaw, length_canonicalJson (sortKeys_tinyAttestation sha256 core)]
  simp only [tinyAttestation, reprFloats, reprEntries, reprItems, dumps, dumpsEntries, dumpsItems,
    List.length_append, List.length_cons, length_quote_hex, compact_newline, compact_space, List.length_nil]
  generalize (intText core.length).length = count at digits
  revert count
  decide

variable {core} in
theorem plain_tinyHandoff (small : core.length ≤ maxCoreBytes) {size : Value} (plain : Plain size) :
    Plain (.dict (tinyHandoff sha256 core size)) := by
  have hex : ∀ raw, PlainText (sha256.hexdigest raw) := fun raw => plainText_hex (sha256.hex raw)
  have attestation : (tinyAttestationRaw sha256 core).length ≤ maxCoreBytes :=
    Nat.le_trans (length_tinyAttestationRaw sha256 small) (by decide)
  have number : ∀ value : Int, (decimal value.natAbs).length ≤ maxStrDigits → Plain (.int value) := fun _ short => short
  simp only [tinyHandoff, Plain, PlainEntries, PlainItems, hex, true_and, and_true, List.map_cons, List.map_nil]
  refine ⟨⟨by decide, by decide, by decide, by decide, by decide,
    by decide, ⟨?_, ?_, ?_, ?_, ?_⟩, by decide⟩, by decide⟩
  · exact plain_tinyFile sha256 (by decide) (by decide) _ (number _ (short_size attestation))
  · exact plain_tinyFile sha256 (by decide) (by decide) _ (number _ (short_size small))
  · exact plain_tinyFile sha256 (by decide) (by decide) _ plain
  · exact plain_tinyFile sha256 (by decide) (by decide) _ (number 1 (by decide))
  · exact plain_tinyFile sha256 (by decide) (by decide) _ (number 382 (by decide))

/-- A size that equals 1. -/
def IsOneByte (size : Value) : Prop := size = .int 1 ∨ size = .bool true

variable {size : Value}

theorem sortKeys_tinyHandoff (one : IsOneByte size) :
    sortKeys (.dict (tinyHandoff sha256 core size)) = .dict (tinyHandoff sha256 core size) := by
  rcases one with rfl | rfl <;> rfl

variable {core} in
theorem length_tinyHandoffRaw (small : core.length ≤ maxCoreBytes) (one : IsOneByte size) :
    (tinyHandoffRaw sha256 core size).length ≤ 1240 := by
  have attestation : (tinyAttestationRaw sha256 core).length ≤ maxCoreBytes :=
    Nat.le_trans (length_tinyAttestationRaw sha256 small) (by decide)
  have digits := length_sizeText small
  have others := length_sizeText attestation
  rw [tinyHandoffRaw, length_canonicalJson (sortKeys_tinyHandoff sha256 core one)]
  rcases one with rfl | rfl
  all_goals
    simp only [tinyHandoff, tinyFile, reprFloats, reprEntries, reprItems, dumps, dumpsEntries, dumpsItems,
      List.length_append, List.length_cons, length_quote_hex, compact_newline, compact_space, List.length_nil]
    generalize (intText core.length).length = count at digits
    generalize (intText (tinyAttestationRaw sha256 core).length).length = other at others
    revert other count
    decide

/-- What is written of a plain value whose keys are sorted is read back. -/
theorem loads_canonicalJson {value : Value} (plain : Plain value) (sorted : sortKeys value = value) :
    loads (canonicalJson value) = .ok value := by
  have read := @loads_canonicalDumps value (sorted.symm ▸ plain) (text "\n") (by decide)
  rwa [sorted] at read

theorem isComponent_of_names {directory : Directory} {names : List Text} (listed : Listed directory names) {name : Text}
    (member : name ∈ names) : IsComponent name := (listed.names name (listed.same.2 name member)).2.2

theorem tinySnapshot_listed : Listed (tinySnapshot sha256) snapshotFiles := by
  have listed := directoryNames_iff.mp (eq_ok_of_toOption (show
    (directoryNames ([text "go.mod", text "go.sum", text "snapshot.json"].map fun name => (name, Node.other)) []).toOption =
      some [text "go.mod", text "go.sum", text "snapshot.json"] by decide))
  exact ⟨listed.1, listed.2.1, fun _ member => member, fun _ member => member⟩

theorem isValidPin_tinyPin (name : String) (b : UInt8) :
    isValidPin (tinyPin sha256 name [b]) (text name) (text name) = true := by
  have keys : SameNames (["file", "path", "sha256", "size"].map text) (["path", "file", "size", "sha256"].map text) := by
    decide
  have sized : isSize 1 maxPinBytes (.int 1) = true := by decide
  change (decide (SameNames _ _) && (Value.str (text name)).isText (text name) &&
    (Value.str (text name)).isText (text name) && isSize 1 maxPinBytes (.int 1) &&
    isHexText 64 (sha256.hexdigest [b])) = true
  rw [sized, sha256.hex, isText_iff_str.mpr rfl]
  simpa using keys

theorem tinySnapshot_read : SnapshotRead sha256 (tinySnapshot sha256) (tinyProvenance sha256)
    (text "github.com/xtls/libxray") ⟨[(text "go.mod", [109]), (text "go.sum", [115]),
      (text "snapshot.json", tinyMetadataRaw sha256)], tinyMetadata sha256⟩ := by
  have listed := tinySnapshot_listed sha256
  have component : ∀ name ∈ snapshotFiles, IsComponent name := fun name member => isComponent_of_names listed member
  have keys : SameNames (["modulePath", "moduleVersion", "originCommit", "pins", "schema"].map text)
      (["schema", "modulePath", "moduleVersion", "originCommit", "pins"].map text) := by decide
  have loaded := loads_canonicalJson (plain_tinyMetadata sha256) (sortKeys_tinyMetadata sha256)
  have length := length_tinyMetadataRaw sha256
  refine ⟨listed, ?_, ?_, ?_⟩
  · refine .cons ⟨⟨component _ (by decide), rfl, by decide, by decide⟩, rfl⟩
      (.cons ⟨⟨component _ (by decide), rfl, by decide, by decide⟩, rfl⟩
        (.cons ⟨⟨component _ (by decide), rfl, ?_, ?_⟩, rfl⟩ .nil))
    · rw [length]
      decide
    · rw [length]
      decide
  · refine ⟨rfl, loaded, rfl, keys, rfl, rfl, rfl, ⟨text "v1.2.3", by decide, rfl⟩, rfl, ?_⟩
    intro record member
    change record ∈ [(tinyPin sha256 "go.mod" [109], text "go.mod", text "go.mod"),
      (tinyPin sha256 "go.sum" [115], text "go.sum", text "go.sum")] at member
    rcases List.mem_pair.mp member with rfl | rfl
    · exact isValidPin_tinyPin sha256 "go.mod" 109
    · exact isValidPin_tinyPin sha256 "go.sum" 115
  · intro record member
    change record ∈ [tinyPin sha256 "go.mod" [109], tinyPin sha256 "go.sum" [115]] at member
    rcases List.mem_pair.mp member with rfl | rfl
    · exact ⟨rfl, isText_iff_str.mpr rfl⟩
    · exact ⟨rfl, isText_iff_str.mpr rfl⟩

/-- The contract of the candidate. -/
def tinyContract : FamilyContract :=
  ⟨[text "libxray-arm64-v8a.so"], text "github.com/xtls/libxray", text "xray-v1.2.3-w"⟩

theorem validate_tinyProvenance : validateProvenance (tinyProvenance sha256) = .ok tinyContract := by
  simp only [validateProvenance, bind_eq_ok_iff, exists_unit, throwIf_eq_ok, not_or, Bool.not_eq_false, pure_eq_ok]
  have commits : isCommit (List.replicate 40 97) = true ∧ isCommit (List.replicate 40 98) = true := by decide
  have go : isGoVersion (text "1.25.1") = true := by decide
  have tag : isReleaseTag (text "xray-v1.2.3-w") (text "xray-v1.2.3-w2") = true := by decide
  exact ⟨tinyContract, rfl, commits, go, tag, sha256.hex _, rfl⟩

/-- The record of the core. -/
def tinyCore : Value :=
  .dict [(text "elfClass", .int 2), (text "exports", .list [.str (text "StartCore"), .str (text "StopCore")]),
    (text "loadAlignments", .list [.int 16384]), (text "machine", .int 183),
    (text "path", .str (text "libxray-arm64-v8a.so")), (text "sha256", .str (sha256.hexdigest core)),
    (text "size", .int core.length)]

/-- A core that the pipeline carries: it is not empty, and it is within the bound. -/
def IsShipped (core : List UInt8) : Prop := core.length ≠ 0 ∧ core.length ≤ maxCoreBytes

theorem positiveInt_natCast {number : Nat} (positive : number ≠ 0) :
    (Value.int (number : Int)).positiveInt = some number := by
  simp [Value.positiveInt, Nat.pos_of_ne_zero positive]

variable {core} in
theorem isSize_core (shipped : IsShipped core) : isSize 1 maxCoreBytes (.int core.length) = true := by
  rw [isSize, positiveInt_natCast shipped.1]
  exact Bool.and_eq_true_iff.mpr
    ⟨decide_eq_true (Nat.one_le_iff_ne_zero.mpr shipped.1), decide_eq_true shipped.2⟩

variable {core} in
theorem isValidCore_tinyCore (shipped : IsShipped core) :
    isValidCore 1 (2, 183) (text "libxray-arm64-v8a.so") (tinyCore sha256 core) = true := by
  have keys : SameNames (["elfClass", "exports", "loadAlignments", "machine", "path", "sha256", "size"].map text)
      (["path", "size", "sha256", "elfClass", "machine", "exports", "loadAlignments"].map text) := by decide
  have sized := isSize_core shipped
  have layout : pyEqual (.int 2) (.int 2) = true ∧ pyEqual (.int 183) (.int 183) = true := by decide
  have exports : pyEqual (.list [.str (text "StartCore"), .str (text "StopCore")])
      (.list (requiredExports.map Value.str)) = true := by decide
  have alignments : ([Value.int 16384].all isAlignment) = true := by decide
  simp only [tinyCore, isValidCore, Bool.and_eq_true, decide_eq_true_eq]
  exact ⟨⟨⟨⟨⟨⟨⟨keys, isText_iff_str.mpr rfl⟩, sized⟩, sha256.hex _⟩, layout.1⟩, layout.2⟩, exports⟩, alignments⟩

variable {core} in
theorem validate_tinyAttestation (shipped : IsShipped core) :
    validateCoreAttestation (tinyAttestationRaw sha256 core) (text "xray") [text "libxray-arm64-v8a.so"] =
      .ok [⟨text "libxray-arm64-v8a.so", core.length, sha256.hexdigest core⟩] := by
  have loaded := loads_canonicalJson (plain_tinyAttestation sha256 shipped.2) (sortKeys_tinyAttestation sha256 core)
  have keys : SameNames (["family", "files", "schema"].map text) (["schema", "family", "files"].map text) := by decide
  have record : attestCore (text "xray") (tinyCore sha256 core, text "libxray-arm64-v8a.so") =
      .ok ⟨text "libxray-arm64-v8a.so", core.length, sha256.hexdigest core⟩ := by
    have layout : (abiOf (text "libxray-arm64-v8a.so")).bind abiLayout = some (2, 183) := by decide
    rw [attestCore, layout]
    have valid := isValidCore_tinyCore sha256 shipped
    have positive : ((tinyCore sha256 core).get "size").positiveInt = some core.length := positiveInt_natCast shipped.1
    have minimum : minimumCoreSize (text "xray") = 1 := by decide
    simp only [bind_eq_ok_iff, exists_unit, throwIf_eq_ok, minimum, valid, positive, pure_eq_ok]
    exact ⟨by decide, rfl⟩
  simp only [validateCoreAttestation, bind_eq_ok_iff, exists_unit, throwIf_eq_ok, not_or, Bool.not_eq_false,
    Decidable.not_not, ne_eq, loadObject_iff, mapM_iff]
  exact ⟨_, loaded, rfl, keys, ⟨rfl, rfl, rfl⟩, rfl, .cons record .nil⟩

/-- What stands behind the document of the candidate. -/
def tinyContents : Contents where
  directory := tinySnapshot sha256
  snapshot := ⟨[(text "go.mod", [109]), (text "go.sum", [115]), (text "snapshot.json", tinyMetadataRaw sha256)],
    tinyMetadata sha256⟩
  attestation := tinyAttestationRaw sha256 core
  attested := [⟨text "libxray-arm64-v8a.so", core.length, sha256.hexdigest core⟩]
  artifacts := [(text "libxray-arm64-v8a.so", core)]

theorem pyEqual_tinyFile (path role : String) (raw : List UInt8) (size : Value) :
    pyEqual (tinyFile sha256 path role raw size) (FileRecord.of sha256 (text path) (text role) raw).value =
      pyEqual size (.int raw.length) := by
  have keys : text "path" ≠ text "role" ∧ text "path" ≠ text "size" ∧ text "path" ≠ text "sha256" ∧
      text "role" ≠ text "size" ∧ text "role" ≠ text "sha256" ∧ text "size" ≠ text "sha256" := by decide
  obtain ⟨one, two, three, four, five, six⟩ := keys
  simp [tinyFile, FileRecord.value, FileRecord.of, pyEqual, pyEqualEntries, Value.isText, one, two, three, four, five,
    six]

theorem tinyContents_records : (tinyContents sha256 core).records sha256 =
    [.of sha256 (text "core-attestation.json") (text "verification") (tinyAttestationRaw sha256 core),
      .of sha256 (text "libxray-arm64-v8a.so") (text "core") core,
      .of sha256 (text "pin-snapshot/go.mod") (text "pin") [109],
      .of sha256 (text "pin-snapshot/go.sum") (text "pin") [115],
      .of sha256 (text "pin-snapshot/snapshot.json") (text "snapshot") (tinyMetadataRaw sha256)] := by
  rfl

theorem pyEqual_one (one : IsOneByte size) : pyEqual size (.int 1) = true := by
  rcases one with rfl | rfl <;> decide

variable {core} in
theorem tiny_bytes (shipped : IsShipped core) (one : IsOneByte size) : BytesVerified sha256 (tinyRoot sha256 core size) (tinyProvenance sha256)
    tinyContract (tinyHandoff sha256 core size) (tinyContents sha256 core) := by
  have attestation : (tinyAttestationRaw sha256 core).length ≤ 250 := length_tinyAttestationRaw sha256 shipped.2
  have metadata := length_tinyMetadataRaw sha256
  have components : IsComponent coreAttestationName ∧ IsComponent (text "libxray-arm64-v8a.so") := by
    unfold IsComponent
    decide
  have snapshotKeys : (["metadataSha256", "modulePath", "moduleVersion", "originCommit"].map text).Nodup := by decide
  refine ⟨rfl, tinySnapshot_read sha256, ?_, ⟨components.1, rfl, ?_, ?_⟩, rfl, validate_tinyAttestation sha256 shipped, ?_, ?_⟩
  · have distinct : Distinct (pinSnapshotValue (tinyProvenance sha256) (tinyMetadata sha256)) :=
      ⟨snapshotKeys, trivial, trivial, trivial, trivial, trivial⟩
    exact pyEqual_refl rfl distinct
  · exact length_canonicalJson_ne_zero (sortKeys_tinyAttestation sha256 core)
  · exact Nat.le_trans attestation (by decide)
  · exact .cons ⟨⟨maxCoreBytes, rfl, components.2, rfl, shipped.1, shipped.2⟩, fun _ => rfl, rfl⟩ .nil
  · have numbers : ∀ number : Nat, pyEqual (.int number) (.int number) = true := fun number => equalNumbers_int number
    rw [tinyContents_records]
    change pyEqualItems [_, _, _, _, _] [_, _, _, _, _] = true
    simp only [pyEqualItems, pyEqual_tinyFile, metadata, List.length_singleton,
      Bool.and_eq_true, List.isEmpty_nil, and_true]
    exact ⟨numbers _, numbers _, pyEqual_one one, numbers 1, numbers 382⟩

variable {core} in
theorem tiny_verified (shipped : IsShipped core) (one : IsOneByte size) : HandoffVerified sha256 (tinyRoot sha256 core size)
    (sha256.hexdigest (tinyHandoffRaw sha256 core size)) (tinyProvenance sha256) [] tinyContract
    (tinyHandoffRaw sha256 core size) (tinyHandoff sha256 core size) (tinyContents sha256 core) := by
  have names : directoryNames ([text "libxray-arm64-v8a.so", coreAttestationName, snapshotDir, handoffName].map
      fun name => (name, Node.other)) [] =
        .ok [text "libxray-arm64-v8a.so", coreAttestationName, snapshotDir, handoffName] :=
    eq_ok_of_toOption (by decide)
  obtain ⟨nodup, each, _⟩ := directoryNames_iff.mp names
  have same : SameNames [text "libxray-arm64-v8a.so", coreAttestationName, snapshotDir, handoffName]
      (rootNames tinyContract []) := by decide
  have component : IsComponent handoffName := (each handoffName (by decide)).2.2
  have plain : Plain size := by
    rcases one with rfl | rfl
    · exact show (decimal 1).length ≤ maxStrDigits by decide
    · exact trivial
  have none : ∀ name ∈ ([] : List Text), False := fun _ member => by cases member
  have loaded := loads_canonicalJson (plain_tinyHandoff sha256 shipped.2 plain) (sortKeys_tinyHandoff sha256 core one)
  have upstream : pyEqual (.dict [(text "commit", .str (List.replicate 40 98)), (text "goVersion", .str (text "1.25.1")),
      (text "tag", .str (text "v1.2.3"))]) (.dict [(text "tag", .str (text "v1.2.3")),
        (text "commit", .str (List.replicate 40 98)), (text "goVersion", .str (text "1.25.1"))]) = true := by decide
  have keys : SameNames (["coreAttestationSha256", "eventCommit", "family", "files", "pinSnapshot", "releaseTag", "schema",
      "upstream"].map text) (handoffKeys.map text) := by decide
  have bounded := length_tinyHandoffRaw sha256 shipped.2 one
  have nonempty : (tinyHandoffRaw sha256 core size).length ≠ 0 :=
    length_canonicalJson_ne_zero (sortKeys_tinyHandoff sha256 core one)
  exact ⟨validate_tinyProvenance sha256, fun _ member => (none _ member).elim, ⟨nodup, each, same⟩, fun _ member => (none _ member).elim,
    ⟨⟨component, rfl, nonempty, Nat.le_trans bounded (by decide)⟩, rfl, loaded, rfl, keys, equalNumbers_int 2, rfl, rfl, rfl,
      upstream⟩, tiny_bytes sha256 shipped one⟩

variable {core} in
theorem tiny_accepted (shipped : IsShipped core) (one : IsOneByte size) : verifyHandoff sha256 (tinyRoot sha256 core size)
    (sha256.hexdigest (tinyHandoffRaw sha256 core size)) (tinyProvenance sha256) [] = .ok () :=
  verifyHandoff_iff.mpr ⟨_, _, _, _, tiny_verified sha256 shipped one⟩

end

theorem isShipped_byte : IsShipped [120] := ⟨by decide, by decide⟩

/-- The accepted document with `true` for a size is not the one that is created. -/
theorem trueSize_accepted :
    verifyHandoff hashlib (tinyRoot hashlib [120] (.bool true)) (hashlib.hexdigest (tinyHandoffRaw hashlib [120] (.bool true)))
        (tinyProvenance hashlib) [] = .ok () ∧
      ¬ IsCreated hashlib (tinyProvenance hashlib) (tinyRoot hashlib [120] (.bool true)) := by
  have accepted := tiny_accepted hashlib isShipped_byte (.inr rfl)
  obtain ⟨contract, raw, handoff, contents, verified⟩ := verifyHandoff_iff.mp accepted
  refine ⟨accepted, fun created => ?_⟩
  obtain ⟨raw, handoff, found, loaded, integers⟩ := verified.isCreated_iff.mp created
  have plain : Plain (.dict (tinyHandoff hashlib [120] (.bool true))) := plain_tinyHandoff hashlib isShipped_byte.2 trivial
  cases eq_of_node (show (tinyRoot hashlib [120] (.bool true)).node handoffName =
    some (.file (tinyHandoffRaw hashlib [120] (.bool true))) from rfl) found
  cases (loads_canonicalJson plain (sortKeys_tinyHandoff hashlib [120] (.inr rfl))).symm.trans loaded
  cases integers

theorem acceptedHandoffsCreated_tiny :
    IsCreated hashlib (tinyProvenance hashlib) (tinyRoot hashlib [120] (.int 1)) := by
  have accepted := tiny_accepted hashlib isShipped_byte (.inl rfl)
  have plain : Plain (.dict (tinyHandoff hashlib [120] (.int 1))) := plain_tinyHandoff hashlib isShipped_byte.2 (show _ ≤ _ by decide)
  exact (acceptedHandoffsCreated accepted).mpr ⟨_, _, rfl,
    loads_canonicalJson plain (sortKeys_tinyHandoff hashlib [120] (.inl rfl)), rfl⟩

end ExitfyCores.Release
