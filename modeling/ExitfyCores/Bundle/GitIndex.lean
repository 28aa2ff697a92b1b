/-
Module: ExitfyCores.Bundle.GitIndex
Layer: Bundle
Purpose: The two readers of `git ls-files -v --stage --debug -z`: `git_index_entries` and `public_relative_path` of
  `scripts/build_singbox_source_bundle.py`, `_assert_default_index_entries` and `_decode_paths` of
  `scripts/verify_build_inputs.py`, on the bytes that the command wrote.
Imports: ExitfyCores.Bundle.Builder, ExitfyCores.Lib.PyCodec, ExitfyCores.Lib.Records
Trusted boundary: human-reviewed spec; running the command and the bound on its output are left out, and so is the
  `repr` of a path at the end of a message
Main exports: indexDebugMetadata, indexReader, splitIndexHeader, publicRelativePath, gitIndexEntries, decodePaths,
  assertDefaultIndexEntries, ListedEntry, ListedEntry.render
Open obligations: none
-/
import ExitfyCores.Bundle.Builder
import ExitfyCores.Lib.PyCodec
import ExitfyCores.Lib.Records

namespace ExitfyCores.Bundle

open Py Records

/-! ### Records of the index -/

/-- `[0-9]` on bytes -/
def isDecimalByte (b : UInt8) : Bool := 48 ≤ b && b ≤ 57

/-- `[0-9a-fA-F]` on bytes -/
def isHexByte (b : UInt8) : Bool := isDecimalByte b || (97 ≤ b && b ≤ 102) || (65 ≤ b && b ≤ 70)

/-- `INDEX_DEBUG_METADATA`; no run can end before the symbol that follows it. -/
def indexDebugMetadata : List (Piece UInt8) :=
  [.word (lit "  ctime: "), .run isDecimalByte, .word (lit ":"), .run isDecimalByte,
    .word (lit "\n  mtime: "), .run isDecimalByte, .word (lit ":"), .run isDecimalByte,
    .word (lit "\n  dev: "), .run isDecimalByte, .word (lit "\tino: "), .run isDecimalByte,
    .word (lit "\n  uid: "), .run isDecimalByte, .word (lit "\tgid: "), .run isDecimalByte,
    .word (lit "\n  size: "), .run isDecimalByte, .word (lit "\tflags: "), .run isHexByte, .word (lit "\n")]

/-- What stands before the NUL of a record, and the group of the metadata behind it. -/
structure IndexRecord where
  header : Bytes
  flags : Bytes
deriving DecidableEq

/-- The record at the head of the output. -/
def nextIndexRecord (noEnd noMetadata : Text) (output : Bytes) : Except Text (IndexRecord × Bytes) :=
  match output.dropWhile (· ≠ 0) with
  | [] => .error noEnd
  | _ :: behind =>
      match readPieces indexDebugMetadata behind with
      | some (runs, rest) => .ok ({ header := output.takeWhile (· ≠ 0), flags := runs.getLastD [] }, rest)
      | none => .error noMetadata

theorem nextIndexRecord_shorter {noEnd noMetadata : Text} {output rest : Bytes} {record : IndexRecord}
    (read : nextIndexRecord noEnd noMetadata output = .ok (record, rest)) : rest.length < output.length := by
  unfold nextIndexRecord at read
  split at read
  · cases read
  · rename_i zero behind found
    split at read
    · rename_i runs rest' matched
      cases read
      have inside := (List.dropWhile_suffix (· ≠ 0) (l := output)).length_le
      rw [found] at inside
      exact Nat.lt_of_le_of_lt (readPieces_length_le matched) (Nat.lt_of_lt_of_le (Nat.lt_succ_self _) inside)
    · cases read

/-- The reader with the messages of a script. -/
def indexReader (noEnd noMetadata : String) : Reader UInt8 Text IndexRecord where
  next := nextIndexRecord (text noEnd) (text noMetadata)
  shorter := nextIndexRecord_shorter

/-- The parts of a header. -/
structure IndexHeader where
  tag : Bytes
  mode : Bytes
  objectId : Bytes
  stage : Bytes
  path : Bytes
deriving DecidableEq

/-- `header.split(b"\t", 1)` and `metadata.split(b" ")`, where these have two and four parts. -/
def splitIndexHeader (header : Bytes) : Option IndexHeader :=
  match header.dropWhile (· ≠ byte '\t') with
  | [] => none
  | _ :: path =>
      match (header.takeWhile (· ≠ byte '\t')).splitOn (byte ' ') with
      | [tag, mode, objectId, stage] => some { tag, mode, objectId, stage, path }
      | _ => none

/-- `int(digits, 16)` -/
def parseHex (digits : Bytes) : Nat :=
  digits.foldl (fun value b =>
    16 * value + (b.toNat - if b ≤ 57 then 48 else if b ≤ 70 then 55 else 87)) 0

/-- `int(digits, 8)` -/
def parseOctal (digits : Text) : Nat := digits.foldl (fun value c => 8 * value + (c - 48)) 0

/-- `raw.decode("ascii")` of bytes that are ASCII -/
def asciiText (raw : Bytes) : Text := raw.map UInt8.toNat

/-- `[0-9a-f]{40}|[0-9a-f]{64}` -/
def isObjectId (raw : Bytes) : Bool := isHexText 40 (asciiText raw) || isHexText 64 (asciiText raw)

/-- `b"100644"` or `b"100755"` -/
def isRegularMode (mode : Bytes) : Bool := mode = lit "100644" || mode = lit "100755"

/-! ### The builder -/

/-- `public_relative_path(raw)`, by the parts of the path. -/
def publicRelativePath (raw : Bytes) : Except Text (List Text) :=
  if Builder.maxArchivePathBytes < raw.length then
    .error (text s!"public file path exceeds {Builder.maxArchivePathBytes} bytes")
  else
    match decodeUtf8 false raw with
    | none => .error (text "public file path is not valid UTF-8")
    | some value =>
        let parts := value.splitOn 47
        if value = [] ∨ value.head? = some 47 ∨ parts.any (fun part => part = [] ∨ part = text "." ∨ part = text "..") ∨
            parts.head? = some (text ".git") ∨ 128 < parts.length then
          .error (text "unsafe public file path: ")
        else .ok parts

/-- `GitIndexEntry` -/
structure GitIndexEntry where
  objectId : Text
  mode : Nat
  hashName : Text
deriving DecidableEq

/-- The entry of a mode and an object id. -/
def gitIndexEntry (mode objectId : Bytes) : GitIndexEntry where
  objectId := asciiText objectId
  mode := parseOctal (asciiText mode)
  hashName := if objectId.length = 40 then text "sha1" else text "sha256"

/-- The locals of the loop of `git_index_entries`. -/
structure IndexScan where
  values : List (List Text × GitIndexEntry)
  retainedBytes : Nat
  records : Nat

/-- What the builder asks of a header and of the flags. -/
def checkIndexHeader (header : IndexHeader) (flags : Bytes) : Except Text Unit := do
  throwIf (header.tag ≠ lit "H") (text "Git index contains non-default entry flags")
  throwIf (parseHex flags ≠ 0) (text "Git index contains non-default entry flags")
  throwIf (header.stage ≠ lit "0") (text "Git index contains an unmerged entry")
  throwIf (isRegularMode header.mode = false) (text "Git index contains a non-regular public entry")
  throwIf (isObjectId header.objectId = false) (text "Git index contains an invalid object id")

/-- The entry of a path that has been read. -/
def addIndexEntry (scan : IndexScan) (header : IndexHeader) (relative : List Text) : Except Text IndexScan := do
  throwIf (Builder.maxArchiveFiles < scan.records + 1)
    (text s!"public Git file set exceeds {Builder.maxArchiveFiles} files")
  throwIf (Builder.maxRetainedPathBytes < scan.retainedBytes + header.path.length)
    (text "public Git file paths exceed the retained-name limit")
  throwIf (relative ∈ scan.values.map Prod.fst) (text "Git index contains a duplicate public entry")
  return { values := scan.values ++ [(relative, gitIndexEntry header.mode header.objectId)]
           retainedBytes := scan.retainedBytes + header.path.length
           records := scan.records + 1 }

/-- One turn of the loop of `git_index_entries`. -/
def indexEntryStep (scan : IndexScan) (record : IndexRecord) : Except Text IndexScan :=
  match splitIndexHeader record.header with
  | none => throw (text "git returned malformed index entry")
  | some header => do
      checkIndexHeader header record.flags
      let relative ← publicRelativePath header.path
      addIndexEntry scan header relative

/-- The reader of the builder. -/
def builderReader : Reader UInt8 Text IndexRecord :=
  indexReader "git returned malformed index metadata" "git returned malformed index debug metadata"

/-- `git_index_entries`, on the output of the command: the dictionary by its entries. -/
def gitIndexEntries (output : Bytes) : Except Text (List (List Text × GitIndexEntry)) := do
  let scan ← builderReader.scan indexEntryStep { values := [], retainedBytes := 0, records := 0 } output
  return scan.values

/-! ### The verifier -/

/-- `Path(value).parts` of a relative path -/
def pathParts (value : Text) : List Text := (value.splitOn 47).filter fun part => part ≠ [] ∧ part ≠ text "."

/-- One turn of the loop of `_decode_paths`. -/
def decodePathStep (label : Text) (values : List Text) (item : Bytes) : Except Text (List Text) :=
  if item = [] then .ok values
  else
    match decodeUtf8 false item with
    | none => .error (label ++ text " contains a non-UTF-8 path")
    | some value => do
        throwIf (value.head? = some 47 ∨ value = [] ∨ value = text "." ∨ text ".." ∈ pathParts value)
          (label ++ text " contains a noncanonical path")
        return values.insert value

/-- `_decode_paths(raw, label)`: the set, by its members. -/
def decodePaths (raw : Bytes) (label : Text) : Except Text (List Text) :=
  (raw.splitOn 0).foldlM (decodePathStep label) []

/-- A tuple of `_assert_default_index_entries`. -/
structure DefaultEntry where
  path : Text
  mode : Text
  objectId : Text
  stage : Nat
deriving DecidableEq

/-- The tuple of a header whose path is decoded. -/
def defaultEntry (header : IndexHeader) (path : Text) : DefaultEntry where
  path := path
  mode := asciiText header.mode
  objectId := asciiText header.objectId
  stage := numeralValue (asciiText header.stage)

/-- `paths` and `entries` of the loop. -/
structure DefaultScan where
  paths : List Text
  entries : List DefaultEntry

/-- One turn of the loop of `_assert_default_index_entries`. -/
def defaultEntryStep (scan : DefaultScan) (record : IndexRecord) : Except Text DefaultScan :=
  match splitIndexHeader record.header with
  | none => throw (text "Git returned malformed index entry")
  | some header =>
      match decodeUtf8 false header.path with
      | none => throw (text "Git returned malformed index entry")
      | some path => do
          throwIf (header.tag ≠ lit "H" ∨ parseHex record.flags ≠ 0 ∨ header.stage ≠ lit "0" ∨
              isRegularMode header.mode = false ∨ isObjectId header.objectId = false)
            (text "Git index contains non-default entry flags or state")
          let canonical ← decodePaths (header.path ++ [0]) (text "Git index")
          throwIf (canonical ≠ [path] ∨ path ∈ scan.paths)
            (text "Git index contains a duplicate or noncanonical path")
          return { paths := path :: scan.paths, entries := scan.entries ++ [defaultEntry header path] }

/-- The reader of the verifier. -/
def verifierReader : Reader UInt8 Text IndexRecord :=
  indexReader "Git returned malformed index metadata" "Git returned malformed index debug metadata"

/-- `_assert_default_index_entries`, on the output of the command; no path is there twice. -/
def assertDefaultIndexEntries (output : Bytes) : Except Text (List DefaultEntry) := do
  let scan ← verifierReader.scan defaultEntryStep { paths := [], entries := [] } output
  return scan.entries.mergeSort fun entry other => entry.path ≤ other.path

/-! ### What `git ls-files` writes -/

/-- What the debug format shows of a file. -/
structure DebugStat where
  ctime : Nat × Nat
  mtime : Nat × Nat
  dev : Nat
  ino : Nat
  uid : Nat
  gid : Nat
  size : Nat

/-- `value` in decimal. -/
def decimalBytes (value : Nat) : Bytes := (Py.decimal value).map UInt8.ofNat

/-- The runs of the debug format of an entry with default flags. -/
def DebugStat.runs (stat : DebugStat) : List Bytes :=
  [decimalBytes stat.ctime.1, decimalBytes stat.ctime.2, decimalBytes stat.mtime.1, decimalBytes stat.mtime.2,
    decimalBytes stat.dev, decimalBytes stat.ino, decimalBytes stat.uid, decimalBytes stat.gid, decimalBytes stat.size,
    lit "0"]

/-- An entry of the index at stage 0, a regular file with default flags. -/
structure ListedEntry where
  path : Bytes
  executable : Bool
  objectId : Bytes
  stat : DebugStat
  isId : isObjectId objectId = true

/-- The mode of an entry. -/
def ListedEntry.mode (entry : ListedEntry) : Bytes := if entry.executable then lit "100755" else lit "100644"

/-- What stands before the NUL. -/
def ListedEntry.header (entry : ListedEntry) : Bytes :=
  [byte ' '].intercalate [lit "H", entry.mode, entry.objectId, lit "0"] ++ byte '\t' :: entry.path

/-- `git ls-files -v --stage --debug -z` on one entry -/
def ListedEntry.render (entry : ListedEntry) : Bytes :=
  entry.header ++ 0 :: renderPieces indexDebugMetadata entry.stat.runs

end ExitfyCores.Bundle
