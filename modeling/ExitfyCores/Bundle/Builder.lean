/-
Module: ExitfyCores.Bundle.Builder
Layer: Bundle
Purpose: The part of `scripts/build_singbox_source_bundle.py` that writes the archive: the manifest checks and the
  depth-first traversal of the staged tree.
Imports: ExitfyCores.Bundle.Names
Trusted boundary: human-reviewed spec; what the traversal finds on disk is the parameter `Source`, one observation
  for each opened name, so that the tree may change while it is read; the answer of the archive writer is the
  parameter `addfile`, about which nothing is assumed
Main exports: ArchiveEntry, Manifest, archiveInfo, validateArchiveManifest, Source, Emission, archiveDirectoryNames,
  archiveDirectory, addTree
Open obligations: none
-/
import ExitfyCores.Bundle.Names

namespace ExitfyCores.Bundle

/-- `dict.get(key)` -/
def Dict.get {Key Value : Type} [DecidableEq Key] (dict : Dict Key Value) (key : Key) : Option Value :=
  (dict.entries.find? fun entry => entry.1 = key).map Prod.snd

/-- `relative / name`, for a name that is one part. -/
def PosixPath.child (relative : PosixPath) (name : Bytes) : PosixPath :=
  { relative with names := relative.names ++ [name] }

namespace Builder

/-- `MAX_PUBLIC_FILE_BYTES` -/
def maxPublicFileBytes : Int := 64 * 1024 * 1024

/-- `MAX_PUBLIC_TREE_BYTES` -/
def maxPublicTreeBytes : Int := 512 * 1024 * 1024

/-- `MAX_ARCHIVE_FILES` -/
def maxArchiveFiles : Nat := 50000

/-- `MAX_ARCHIVE_DIRECTORIES` -/
def maxArchiveDirectories : Nat := 50000

/-- `MAX_ARCHIVE_PATH_BYTES` -/
def maxArchivePathBytes : Nat := 4 * 1024

/-- `MAX_RETAINED_PATH_BYTES` -/
def maxRetainedPathBytes : Nat := 16 * 1024 * 1024

/-- `MAX_DIRECTORY_ENTRIES` -/
def maxDirectoryEntries : Nat := maxArchiveFiles + maxArchiveDirectories

/-- `PublicArchiveEntry` -/
structure ArchiveEntry where
  sha256 : List Char
  size : Int
  mode : Int
deriving Repr, DecidableEq

/-- The manifest: a dictionary from paths to entries. -/
abbrev Manifest := Dict PosixPath ArchiveEntry

/-- `f"{prefix}/{path}"` -/
def archivePath (root : Bytes) (path : PosixPath) : Bytes := root ++ [byte '/'] ++ path.asPosix

/-! ### The manifest -/

/-- The local variables of `validate_archive_manifest`. -/
structure ManifestScan where
  retainedPathBytes : Nat
  payloadBytes : Int
  expectedDirectories : List PosixPath
deriving Repr, DecidableEq

/-- One turn of the loop over the ancestors of a path. -/
def expectDirectory (scan : ManifestScan) (directory : PosixPath) : Except String ManifestScan := do
  if directory ∈ scan.expectedDirectories then pure scan
  else
    let next :=
      { scan with
        expectedDirectories := scan.expectedDirectories ++ [directory]
        retainedPathBytes := scan.retainedPathBytes + directory.asPosix.length }
    raiseIf (maxArchiveDirectories < next.expectedDirectories.length)
      "source archive manifest exceeds the directory limit"
    raiseIf (maxRetainedPathBytes < next.retainedPathBytes)
      "source archive manifest paths exceed the retained-name limit"
    pure next

/-- `PurePosixPath(*relative.parts[:index]) for index in range(1, len(relative.parts))`, of a relative path. -/
def ancestorPaths (relative : PosixPath) : List PosixPath :=
  (List.range' 1 (relative.names.length - 1)).map fun index =>
    { root := [], names := relative.names.take index }

/-- The parts that no path of the manifest may have. -/
def unsafeNames : List Bytes := [[], lit ".", lit ".."]

/-- A hexadecimal digit as the manifest writes it. -/
def isLowerHex (c : Char) : Bool := "0123456789abcdef".toList.contains c

/-- One turn of the loop over the manifest. -/
def validateManifestEntry (root : Bytes) (scan : ManifestScan) (item : PosixPath × ArchiveEntry) :
    Except String ManifestScan := do
  let relative := item.1
  let entry := item.2
  let value := relative.asPosix
  raiseIf (¬ DecodesStrictly value) "surrogates not allowed"
  raiseIf
    (relative.parts = [] ∨ relative.root ≠ [] ∨ 128 < relative.parts.length ∨
      (∃ part ∈ relative.parts, part ∈ unsafeNames) ∨ maxArchivePathBytes < value.length ∨
      maxArchivePathBytes < (archivePath root relative).length)
    "source archive manifest path is unsafe"
  raiseIf
    (entry.size < 0 ∨ maxPublicFileBytes < entry.size ∨ (entry.mode ≠ 0o644 ∧ entry.mode ≠ 0o755) ∨
      entry.sha256.length ≠ 64 ∨ ¬ entry.sha256.all isLowerHex)
    "source archive manifest entry is invalid"
  let payloadBytes := scan.payloadBytes + entry.size
  raiseIf (maxPublicTreeBytes < payloadBytes) s!"source archive manifest exceeds {maxPublicTreeBytes} bytes"
  let retainedPathBytes := scan.retainedPathBytes + value.length
  raiseIf (maxRetainedPathBytes < retainedPathBytes)
    "source archive manifest paths exceed the retained-name limit"
  (ancestorPaths relative).foldlM expectDirectory
    { scan with payloadBytes := payloadBytes, retainedPathBytes := retainedPathBytes }

/-- `validate_archive_manifest` -/
def validateArchiveManifest (manifest : Manifest) (root : Bytes) : Except String (List PosixPath) := do
  raiseIf (maxArchiveFiles < manifest.entries.length)
    s!"source archive manifest exceeds {maxArchiveFiles} files"
  let scan ← manifest.entries.foldlM (validateManifestEntry root)
    { retainedPathBytes := 0, payloadBytes := 0, expectedDirectories := [] }
  pure scan.expectedDirectories

/-! ### The traversal -/

/-- What `os.fstat` and the reader show of a regular file: its size and whether its owner may execute it, then the
bytes read with their digest, whether more could be read, and whether the fingerprint was the same afterwards. -/
structure FileObservation where
  size : Int
  executable : Bool
  bytesRead : Int
  sha256 : List Char
  extra : Bool
  unchanged : Bool
deriving Repr, DecidableEq

/-- What opening a name finds: a regular file, a directory with the names it lists (each once) and what opening
them finds, an object of another kind, or an error. -/
inductive Source where
  | file (observation : FileObservation)
  | directory (names : List Bytes) (nodup : names.Nodup) (child : Bytes → Source) (unchanged : Bool)
  | special
  | unreadable

/-- `archive_info` -/
def archiveInfo (name : Bytes) (size : Int) (executable isDirectory : Bool) : TarHeader :=
  { name := name
    mode := if isDirectory || executable then 0o755 else 0o644
    uid := 0
    gid := 0
    size := if isDirectory then 0 else size
    mtime := 0
    type := if isDirectory then dirType else regType
    linkname := []
    uname := []
    gname := []
    devmajor := 0
    devminor := 0
    paxHeaders := { entries := [], nodup := List.nodup_nil } }

/-- `sorted(names)` -/
def sortedNames (names : List Bytes) : List Bytes :=
  ((names.map Str.mk).insertionSort (· ≤ ·)).map Str.bytes

/-- One turn of the loop of `archive_directory_names`, on the number of names and their bytes. -/
def retainName (retained : Nat × Nat) (name : Bytes) : Except String (Nat × Nat) := do
  raiseIf (maxDirectoryEntries ≤ retained.1) "source archive directory exceeds the entry limit"
  raiseIf (¬ DecodesStrictly name) "source archive name is not valid UTF-8"
  raiseIf (maxRetainedPathBytes < retained.2 + name.length)
    "source archive directory names exceed the retained-name limit"
  raiseIf (name ∈ unsafeNames ∨ byte '/' ∈ name) "source archive contains an unsafe name"
  pure (retained.1 + 1, retained.2 + name.length)

/-- `archive_directory_names` -/
def archiveDirectoryNames (names : List Bytes) : Except String (List Bytes) := do
  let _ ← names.foldlM retainName (0, 0)
  pure (sortedNames names)

/-- What the traversal has done: the members it wrote, and its mutable arguments `seen_entries` and
`copied_bytes`. -/
structure Emission where
  members : List TarHeader
  seenEntries : List PosixPath
  copiedBytes : Int

/-- The arguments that the recursion passes on. -/
structure Traversal where
  addfile : List TarHeader → TarHeader → Except String Unit
  root : Bytes
  expectedManifest : Manifest
  expectedDirectories : List PosixPath

/-- `archive.addfile` -/
def Traversal.write (traversal : Traversal) (emission : Emission) (info : TarHeader) :
    Except String Emission := do
  traversal.addfile emission.members info
  pure { emission with members := emission.members ++ [info] }

/-- The branch of `archive_directory` for a leaf. -/
def archiveFile (traversal : Traversal) (childRelative : PosixPath) (found : FileObservation)
    (emission : Emission) : Except String Emission := do
  let expectedSize := found.size
  raiseIf (expectedSize < 0 ∨ maxPublicFileBytes < expectedSize)
    s!"source archive file exceeds {maxPublicFileBytes} bytes"
  raiseIf (maxPublicTreeBytes < emission.copiedBytes + expectedSize)
    s!"source archive exceeds {maxPublicTreeBytes} bytes"
  match traversal.expectedManifest.get childRelative with
  | none => .error "unexpected file added before source archive"
  | some expectedEntry => do
      let info := archiveInfo (archivePath traversal.root childRelative) found.size found.executable false
      let emission ← traversal.write emission info
      raiseIf (found.bytesRead ≠ expectedSize ∨ found.extra = true) "source archive file changed while read"
      raiseIf (found.unchanged = false) "public source changed while it was copied"
      let actual : ArchiveEntry := { sha256 := found.sha256, size := found.bytesRead, mode := info.mode }
      raiseIf (actual ≠ expectedEntry) "source differs at archive time"
      pure
        { emission with
          seenEntries := emission.seenEntries ++ [childRelative]
          copiedBytes := emission.copiedBytes + expectedSize }

/-- The limits on a path that the traversal reaches. -/
def checkArchivePath (root : Bytes) (childRelative : PosixPath) : Except String Unit :=
  raiseIf
    (128 < childRelative.parts.length ∨ maxArchivePathBytes < childRelative.asPosix.length ∨
      maxArchivePathBytes < (archivePath root childRelative).length)
    "source archive path exceeds safe limits"

/-- `archive_directory` -/
def archiveDirectory (traversal : Traversal) : Source → PosixPath → Nat → Emission → Except String Emission
  | .directory names _ child unchanged, relative, depth, emission => do
      raiseIf (128 < depth) "source archive directory depth exceeds 128"
      let initialNames ← archiveDirectoryNames names
      let emission ← initialNames.foldlM (fun emission name => do
        let childRelative := relative.child name
        checkArchivePath traversal.root childRelative
        match child name with
        | .file found => archiveFile traversal childRelative found emission
        | .directory _ _ _ _ => do
            raiseIf (childRelative ∉ traversal.expectedDirectories)
              "unexpected directory added before source archive"
            let info := archiveInfo (archivePath traversal.root childRelative) 0 true true
            let emission ← traversal.write emission info
            archiveDirectory traversal (child name) childRelative (depth + 1) emission
        | .special => .error "source archive requires a regular file"
        | .unreadable => .error "source archive entry changed or is unsafe") emission
      raiseIf (unchanged = false) "source archive directory changed"
      pure emission
  | _, _, _, _ => .error "source archive entry is not a directory"

/-- `add_tree`: the members it writes. `rootUnchanged` is the last look at the root. -/
def addTree (addfile : List TarHeader → TarHeader → Except String Unit) (source : Source)
    (root : Bytes) (manifest : Manifest) (rootUnchanged : Bool) : Except String (List TarHeader) := do
  raiseIf (root = [] ∨ ∃ part ∈ splitSlashes root, part ∈ unsafeNames) "source archive prefix is unsafe"
  raiseIf ((posixPath root).asPosix ≠ root) "source archive prefix is not normalized"
  raiseIf (¬ DecodesStrictly root) "surrogates not allowed"
  raiseIf (maxArchivePathBytes < root.length) "source archive prefix exceeds the path limit"
  let expectedDirectories ← validateArchiveManifest manifest root
  let emission ← archiveDirectory
    { addfile := addfile, root := root, expectedManifest := manifest
      expectedDirectories := expectedDirectories }
    source { root := [], names := [] } 0 { members := [], seenEntries := [], copiedBytes := 0 }
  raiseIf (¬ (emission.seenEntries ⊆ manifest.keys ∧ manifest.keys ⊆ emission.seenEntries))
    "public source missing at archive time"
  raiseIf (rootUnchanged = false) "source archive root changed"
  pure emission.members

end Builder

end ExitfyCores.Bundle
