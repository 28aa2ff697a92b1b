/-
Module: ExitfyCores.Bundle.Audit
Layer: Bundle
Purpose: `audit_bundle` of `scripts/audit_singbox_source_bundle.py` on the bytes of a bundle: the gzip checks, the
  raw scan, the loop over the members that tarfile parses, and the checks on the whole.
Imports: ExitfyCores.Bundle.RawTar
Trusted boundary: human-reviewed spec; Python's zlib, gzip and tarfile are the parameter `Library`; the search for
  host paths, the scan of payloads and the topology check are the parameter `Policy`, about which nothing is
  assumed. Opening the file and its identity checks are left out.
Main exports: TarHeader, TarInfo, Library, Policy, inspectGzipStream, verifyCanonicalGzipBytes,
  reproducibleMetadataFailures, canonicalMemberFailures, memberFailures, auditBundle
Open obligations: none
-/
import ExitfyCores.Bundle.RawTar

namespace ExitfyCores.Bundle

/-- `MAX_BUNDLE_BYTES` -/
def maxBundleBytes : Nat := 512 * 1024 * 1024

/-- `MAX_TAR_STREAM_BYTES` -/
def maxTarStreamBytes : Nat := maxExpandedBytes + 128 * 1024 * 1024

/-- `MAX_RETAINED_NAME_BYTES` -/
def maxRetainedNameBytes : Nat := 16 * 1024 * 1024

/-- `MAX_ALLOWED_BINARY_BYTES` -/
def maxAllowedBinaryBytes : Int := 1024 * 1024

/-- `MAX_FAILURES` -/
def maxFailures : Nat := 100

/-- `CANONICAL_GZIP_HEADER` -/
def canonicalGzipHeader : Bytes := [0x1F, 0x8B, 0x08, 0, 0, 0, 0, 0, 0x02, 0xFF]

/-! ### What tarfile gives -/

/-- A Python dictionary: no key occurs twice. -/
structure Dict (Key Value : Type) where
  entries : List (Key × Value)
  nodup : (entries.map Prod.fst).Nodup

/-- The keys of a dictionary. -/
def Dict.keys {Key Value : Type} (dict : Dict Key Value) : List Key := dict.entries.map Prod.fst

/-- The fields of a `TarInfo` that its header is made of. Strings are their UTF-8 bytes, where an undecodable
byte stands for itself (`surrogateescape`). -/
structure TarHeader where
  name : Bytes
  mode : Int
  uid : Int
  gid : Int
  size : Int
  mtime : Int
  type : UInt8
  linkname : Bytes
  uname : Bytes
  gname : Bytes
  devmajor : Int
  devminor : Int
  paxHeaders : Dict Bytes Bytes

/-- A `TarInfo` with the places of its header and its data in the stream. -/
structure TarInfo where
  header : TarHeader
  offset : Nat
  offsetData : Nat

/-- `TarInfo.isdir` -/
def TarHeader.IsDir (header : TarHeader) : Prop := header.type = dirType

/-- `TarInfo.isfile`: the regular types, among them the GNU sparse one. -/
def TarHeader.IsFile (header : TarHeader) : Prop := header.type ∈ [regType, aregType, contType, 0x53]

/-- `TarInfo.issym` or `TarInfo.islnk` -/
def TarHeader.IsLink (header : TarHeader) : Prop := header.type = symType ∨ header.type = lnkType

instance (header : TarHeader) : Decidable header.IsDir := inferInstanceAs (Decidable (_ = _))
instance (header : TarHeader) : Decidable header.IsFile := inferInstanceAs (Decidable (_ ∈ _))
instance (header : TarHeader) : Decidable header.IsLink := inferInstanceAs (Decidable (_ ∨ _))

/-- What the script uses of zlib, gzip and tarfile: the decompression of one complete gzip member, the
compression with the fixed settings, the members of a stream and the header of a member in PAX format. -/
structure Library where
  decompress : Bytes → Except String Bytes
  compress : Bytes → Bytes
  members : Bytes → Except String (List TarInfo)
  tobuf : TarHeader → Except String Bytes

/-! ### Paths and payloads -/

/-- `PurePosixPath`: the root, if any, and the names behind it. -/
structure PosixPath where
  root : Bytes
  names : List Bytes
deriving Repr, DecidableEq

/-- `PurePosixPath(name)`; exactly two leading slashes are a root of their own. -/
def posixPath (name : Bytes) : PosixPath :=
  let slashes := (name.takeWhile (· = byte '/')).length
  { root := if slashes = 0 then [] else if slashes = 2 then lit "//" else lit "/"
    names := (splitSlashes name).filter fun part => part ≠ [] ∧ part ≠ lit "." }

/-- `PurePosixPath.parts` -/
def PosixPath.parts (path : PosixPath) : List Bytes :=
  if path.root = [] then path.names else path.root :: path.names

/-- `PurePosixPath.as_posix` -/
def PosixPath.asPosix (path : PosixPath) : Bytes :=
  if path.parts = [] then lit "." else path.root ++ [byte '/'].intercalate path.names

/-- `PurePosixPath.suffix` -/
def PosixPath.suffix (path : PosixPath) : Bytes :=
  let name := path.names.getLastD []
  let extension := name.reverse.takeWhile (· ≠ byte '.')
  if extension = [] ∨ name.length ≤ extension.length + 1 then [] else byte '.' :: extension.reverse

/-- `str.lower` as far as a comparison with ASCII text sees it. -/
def lowerText (data : Bytes) : List Char :=
  (runes data).map fun r => if r = '\u212A' then 'k' else r.toLower

/-- `FORBIDDEN_SUFFIXES` -/
def forbiddenSuffixes : List String :=
  [".plugin", ".dex", ".jar", ".apk", ".aar", ".class", ".so",
    ".dylib", ".dll", ".exe", ".syso",
    ".o", ".obj", ".a", ".lib", ".lo", ".la", ".wasm", ".node",
    ".pyc", ".pyo", ".whl", ".deb", ".rpm", ".msi", ".cab", ".pkg",
    ".zip", ".tar", ".tgz", ".gz", ".bz2", ".xz", ".zst", ".7z",
    ".rar", ".war", ".ear", ".ipa", ".pdf", ".bin", ".img", ".iso",
    ".dmg", ".hex", ".ihex", ".srec", ".s19", ".s28", ".s37", ".uf2"]

/-- `forbidden_namespace_path` -/
def forbiddenNamespacePath (path : PosixPath) : Bool :=
  let parts := path.parts.map lowerText
  parts.any (fun part => part == "com.exteragram".toList || part == "org.telegram".toList) ||
    parts.any (fun part => part == "tmessagesproj".toList) ||
    parts.tails.any fun tail =>
      ["com".toList, "exteragram".toList].isPrefixOf tail ||
        ["org".toList, "telegram".toList].isPrefixOf tail

/-- `AllowedBinary` -/
structure AllowedBinary where
  size : Int
  sha256 : String
deriving Repr, DecidableEq

/-- `ALLOWED_BINARY_FILES`, by the path below the root. -/
def allowedBinaryFiles : List (PosixPath × AllowedBinary) :=
  [(posixPath (lit "singbox/vendor/golang.org/x/net/publicsuffix/data/children"),
      { size := 3484, sha256 := "bda2852d2be3d2187bcb45acedf9973af4ceeead7cec45dfd22f17424f746b9d" }),
    (posixPath (lit "singbox/vendor/golang.org/x/net/publicsuffix/data/nodes"),
      { size := 50500, sha256 := "4291647663383213ccefb726abacf571c5d76904ee939e0e3feb41898bb43102" })]

/-- `allowed_binary_spec` -/
def allowedBinarySpec (path : PosixPath) : Option AllowedBinary :=
  if path.parts.length < 2 then none
  else
    (allowedBinaryFiles.find? fun entry => entry.1.parts = path.parts.drop 1).map Prod.snd

/-- `ContentAudit` -/
structure ContentAudit where
  bytesRead : Int
  exactSize : Bool
  forbiddenMagic : Bool
  sha256 : Option String
  hasNul : Bool
  validUTF8 : Bool
  forbiddenReference : Bool
  localHostPath : Bool
  gitLfsPointer : Bool
deriving Repr, DecidableEq

/-- The kinds of members. -/
inductive Kind where
  | directory
  | file
  | other
deriving Repr, DecidableEq

/-- The checks on names and contents that the script makes beside the layout: `contains_local_host_path`,
`scan_member_payload` and `validate_builder_topology`, the last two on what they are given there. -/
structure Policy where
  containsLocalHostPath : Bytes → Bool
  scanMemberPayload : Bytes → Int → Bool → ContentAudit
  builderTopologyFailures : List PosixPath → List (PosixPath × Kind) → List String

/-! ### The gzip layer -/

/-- `GzipStreamInfo`, with the decompressed stream. -/
structure GzipStreamInfo where
  stream : Bytes
  lastNonzeroOffset : Int
deriving Repr, DecidableEq

/-- The offset of the last nonzero byte, or -1. -/
def lastNonzeroOffset (stream : Bytes) : Int :=
  (stream.reverse.dropWhile (· = 0)).length - 1

/-- `inspect_gzip_stream` -/
def inspectGzipStream (library : Library) (source : Bytes) : Except String GzipStreamInfo := do
  raiseIf (source.take canonicalGzipHeader.length ≠ canonicalGzipHeader) "noncanonical gzip header"
  raiseIf (maxBundleBytes < source.length) "compressed source bundle exceeds limit"
  let stream ← library.decompress source
  raiseIf (maxTarStreamBytes < stream.length) "decompressed tar stream exceeds limit"
  pure { stream := stream, lastNonzeroOffset := lastNonzeroOffset stream }

/-- `verify_canonical_gzip_bytes` -/
def verifyCanonicalGzipBytes (library : Library) (source stream : Bytes) : Except String Unit := do
  let canonical := library.compress stream
  raiseIf (maxBundleBytes < canonical.length) "canonical compressed source bundle exceeds limit"
  raiseIf (source ≠ canonical) "noncanonical gzip payload"

/-! ### One member -/

/-- `if condition: failures.append(message)` -/
def failIf (condition : Prop) [Decidable condition] (message : String) : List String :=
  if condition then [message] else []

@[simp] theorem failIf_eq_nil {condition : Prop} [Decidable condition] {message : String} :
    failIf condition message = [] ↔ ¬ condition := by
  unfold failIf
  split <;> simp_all

/-- The file permissions without special bits. -/
def TarHeader.PlainMode (header : TarHeader) : Prop := 0 ≤ header.mode ∧ header.mode ≤ 0o777

instance (header : TarHeader) : Decidable header.PlainMode := inferInstanceAs (Decidable (_ ∧ _))

/-- The PAX keys that the name needs. -/
def expectedPaxKeys (header : TarHeader) : List Bytes :=
  if header.name.all (· < 0x80) ∧ header.name.length ≤ lengthName then [] else [lit "path"]

/-- `expected_path` -/
def expectedPaxPath (header : TarHeader) : Bytes :=
  if header.IsDir then header.name ++ [byte '/'] else header.name

/-- `validate_reproducible_metadata` -/
def reproducibleMetadataFailures (header : TarHeader) : List String :=
  let text := escapedText header.name
  failIf (header.uid ≠ 0 ∨ header.gid ≠ 0) s!"noncanonical archive ownership: {text}" ++
    failIf (header.uname ≠ [] ∨ header.gname ≠ []) s!"noncanonical archive owner names: {text}" ++
    failIf (header.mtime ≠ 0) s!"noncanonical archive mtime: {text}" ++
    failIf (header.linkname ≠ []) s!"noncanonical archive link metadata: {text}" ++
    failIf (¬ header.PlainMode) s!"archive mode contains special bits: {text}" ++
    (if header.IsDir then
      failIf (header.type ≠ dirType ∨ header.mode ≠ 0o755 ∨ header.size ≠ 0)
        s!"noncanonical archive directory metadata: {text}"
    else if header.IsFile then
      failIf (header.type ≠ regType ∨ header.mode ≠ 0o644 ∧ header.mode ≠ 0o755)
        s!"noncanonical archive file metadata: {text}"
    else []) ++
    failIf
      (¬ (header.paxHeaders.keys ⊆ expectedPaxKeys header ∧
        expectedPaxKeys header ⊆ header.paxHeaders.keys))
      s!"noncanonical archive PAX metadata: {text}" ++
    failIf (∃ entry ∈ header.paxHeaders.entries,
        entry.1 = lit "path" ∧ entry.2 ≠ expectedPaxPath header)
      s!"noncanonical archive PAX path: {text}"

/-- `validate_canonical_member_bytes` -/
def canonicalMemberFailures (library : Library) (stream : Bytes) (member : TarInfo) :
    Except String (List String) :=
  let text := escapedText member.header.name
  match library.tobuf member.header with
  | .error reason => .ok [s!"cannot canonicalize archive member header: {text}: {reason}"]
  | .ok expected =>
      if (member.offsetData : Int) - member.offset ≠ expected.length then
        .ok [s!"noncanonical archive header span: {text}"]
      else do
        let actual ← readExactAt stream expected.length member.offset
        let different := failIf (actual ≠ expected) s!"noncanonical raw archive header: {text}"
        let paddingSize := ((-member.header.size) % blockSize).toNat
        if paddingSize = 0 then pure different
        else
          let paddingOffset := ((member.offsetData : Int) + member.header.size).toNat
          let padding ← readExactAt stream paddingSize paddingOffset
          pure (different ++ failIf (¬ AllZero padding) s!"nonzero archive member padding: {text}")

/-- The payload that `extractfile` reads. -/
def payloadOf (stream : Bytes) (member : TarInfo) : Bytes :=
  (stream.drop member.offsetData).take member.header.size.toNat

/-- The checks on the payload of a file. -/
def payloadFailures (policy : Policy) (stream : Bytes) (member : TarInfo) (path : PosixPath) :
    List String :=
  let text := escapedText member.header.name
  let size := member.header.size
  let spec := allowedBinarySpec path
  let content := policy.scanMemberPayload (payloadOf stream member) size spec.isSome
  if ¬ content.exactSize ∨ content.bytesRead ≠ size then [s!"archive member size mismatch: {text}"]
  else
    failIf (content.forbiddenMagic = true) s!"executable or archive magic is forbidden: {text}" ++
      failIf (content.gitLfsPointer = true) s!"Git LFS pointer is forbidden: {text}" ++
      (match spec with
        | some spec =>
            failIf (maxAllowedBinaryBytes < size)
              s!"allowed binary source exceeds {maxAllowedBinaryBytes} bytes: {text}" ++
            failIf (size ≠ spec.size ∨ content.sha256 ≠ some spec.sha256)
              s!"allowed binary source does not match the reviewed size and digest: {text}"
        | none =>
            failIf (content.hasNul = true) s!"NUL byte in source text: {text}" ++
            failIf (content.validUTF8 = false) s!"non-UTF-8 source text: {text}") ++
      failIf (content.forbiddenReference = true) s!"forbidden client reference: {text}" ++
      failIf (content.localHostPath = true) s!"absolute local host path: {text}"

/-- The local variables of `audit_bundle` that the loop over the members carries. -/
structure AuditState where
  failures : List String
  files : Nat
  directories : Nat
  expanded : Int
  memberCount : Nat
  retainedNameBytes : Nat
  archiveEnd : Nat
  rootName : Option Bytes
  multipleRoots : Bool
  memberKinds : List (PosixPath × Kind)

/-- The kind of a member. -/
def TarHeader.kind (header : TarHeader) : Kind :=
  if header.IsDir then .directory else if header.IsFile then .file else .other

/-- The failures of the name of a member. -/
def nameFailures (policy : Policy) (state : AuditState) (header : TarHeader) (path : PosixPath) :
    List String :=
  let text := escapedText header.name
  let encodedName := if DecodesStrictly header.name then header.name else []
  failIf (¬ DecodesStrictly header.name) s!"archive member name is not valid UTF-8: {text}" ++
    failIf (maxMemberNameBytes < encodedName.length)
      s!"archive member name exceeds {maxMemberNameBytes} bytes: {text}" ++
    failIf (128 < path.parts.length) s!"archive member depth exceeds 128: {text}" ++
    (if encodedName = [] then []
      else
        match memberNamePolicyFailure policy.containsLocalHostPath encodedName header.IsDir with
        | some failure => [s!"{failure}: {text}"]
        | none => []) ++
    (if header.name = [] ∨ path.parts = [] then ["empty archive member name"]
      else
        failIf
          (∃ root, state.rootName = some root ∧ path.parts.head? ≠ some root ∧
            state.multipleRoots = false)
          "source bundle must contain exactly one root directory") ++
    failIf (path.asPosix ≠ header.name) s!"noncanonical archive member name: {text}" ++
    failIf (path ∈ state.memberKinds.map Prod.fst) s!"duplicate normalized archive member: {text}"

/-- The failures of what a member is, down to its payload. `expanded` is the total with this member. -/
def contentFailures (policy : Policy) (stream : Bytes) (member : TarInfo) (path : PosixPath)
    (expanded : Int) : List String :=
  let header := member.header
  let text := escapedText header.name
  if path.root ≠ [] ∨ lit ".." ∈ path.parts then [s!"unsafe archive path: {text}"]
  else if forbiddenNamespacePath path then [s!"forbidden archive namespace: {text}"]
  else if header.IsLink then [s!"archive link is forbidden: {text}"]
  else if header.IsDir then []
  else if ¬ header.IsFile then [s!"unsupported archive member type: {text}"]
  else if header.size < 0 ∨ maxMemberBytes < header.size then [s!"oversized archive member: {text}"]
  else if maxExpandedBytes < expanded then ["expanded source bundle exceeds limit"]
  else
    failIf (lowerText path.suffix ∈ forbiddenSuffixes.map String.toList)
      s!"forbidden packaged artifact: {text}" ++
      payloadFailures policy stream member path

/-- Whether the loop adds the size of a member to `expanded`. -/
def countsAsPayload (header : TarHeader) (path : PosixPath) : Prop :=
  path.root = [] ∧ lit ".." ∉ path.parts ∧ forbiddenNamespacePath path = false ∧ header.IsFile ∧
    0 ≤ header.size ∧ header.size ≤ maxMemberBytes

instance (header : TarHeader) (path : PosixPath) : Decidable (countsAsPayload header path) :=
  inferInstanceAs (Decidable (_ ∧ _))

/-- The limits that end the audit at once. -/
def checkLimits (state : AuditState) : Except String Unit := do
  raiseIf (maxMembers < state.memberCount) s!"source bundle exceeds the {maxMembers}-member limit"
  raiseIf (maxRetainedNameBytes < state.retainedNameBytes)
    "archive member names exceed the retained-byte limit"
  raiseIf (maxArchiveDirectories < state.directories)
    s!"source bundle exceeds the {maxArchiveDirectories}-directory limit"
  raiseIf (maxArchiveFiles < state.files) s!"source bundle exceeds the {maxArchiveFiles}-file limit"

/-- The counters of the loop behind a member. -/
def countMember (state : AuditState) (member : TarInfo) (path : PosixPath) : AuditState :=
  let header := member.header
  { state with
    files := if header.kind = .file then state.files + 1 else state.files
    directories := if header.kind = .directory then state.directories + 1 else state.directories
    expanded := if countsAsPayload header path then state.expanded + header.size else state.expanded
    memberCount := state.memberCount + 1
    retainedNameBytes := state.retainedNameBytes + header.name.length
    archiveEnd := max state.archiveEnd (member.offsetData + paddedSize header.size.toNat)
    rootName := if state.rootName.isNone then path.parts.head? else state.rootName
    multipleRoots := state.multipleRoots ||
      (path.parts ≠ [] && state.rootName.any fun root => path.parts.head? ≠ some root)
    memberKinds := state.memberKinds ++ [(path, header.kind)] }

/-- The body of the loop over the members. -/
def auditMember (library : Library) (policy : Policy) (stream : Bytes) (state : AuditState)
    (member : TarInfo) : Except String AuditState := do
  let path := posixPath member.header.name
  let next := countMember state member path
  checkLimits next
  let canonical ← canonicalMemberFailures library stream member
  let failures := state.failures ++ nameFailures policy state member.header path ++
    reproducibleMetadataFailures member.header ++ canonical ++
    contentFailures policy stream member path next.expanded
  raiseIf (maxFailures < failures.length) s!"source bundle exceeds the {maxFailures}-failure limit"
  pure { next with failures := failures }

/-! ### The whole -/

/-- A path that is both a file and a directory, or a file that is an ancestor of another member. -/
def collisionFailures (memberKinds : List (PosixPath × Kind)) : List String :=
  let message := fun path : PosixPath =>
    "archive file/directory type collision: " ++ escapedText path.asPosix
  memberKinds.flatMap fun entry =>
    failIf ((entry.1, Kind.file) ∈ memberKinds ∧ (entry.1, Kind.directory) ∈ memberKinds)
        (message entry.1) ++
      (memberKinds.filter fun other =>
        other.2 = Kind.file ∧ other.1.parts ≠ [] ∧ other.1.parts ≠ entry.1.parts ∧
          other.1.parts <+: entry.1.parts).map fun other => message other.1

/-- The failures that only the whole archive shows. -/
def layoutFailures (policy : Policy) (info : GzipStreamInfo) (raw : RawTarLayout) (state : AuditState) :
    List String :=
  failIf (state.rootName = none) "source bundle must contain exactly one root directory" ++
    policy.builderTopologyFailures (state.memberKinds.map Prod.fst) state.memberKinds ++
    collisionFailures state.memberKinds ++
    failIf (info.stream.length ≠ canonicalTarStreamSize state.archiveEnd)
      "noncanonical decompressed tar stream length" ++
    failIf (state.archiveEnd ≤ info.lastNonzeroOffset) "nonzero data follows the tar members" ++
    failIf
      (state.archiveEnd ≠ raw.archiveEnd ∨ state.memberCount ≠ raw.memberCount ∨
        state.files ≠ raw.fileCount ∨ state.directories ≠ raw.directoryCount)
      "raw and parsed archive layouts differ" ++
    failIf (state.files = 0) "bundle contains no files"

/-- What an audit that passed has seen: the stream, the members and the number of files it returns. -/
structure Audited where
  stream : Bytes
  members : List TarInfo
  files : Nat

/-- `audit_bundle` on the bytes of the bundle. -/
def auditBundle (library : Library) (policy : Policy) (bundle : Bytes) : Except String Audited := do
  raiseIf (bundle = [] ∨ maxBundleBytes < bundle.length) "invalid bundle size or type"
  let info ← inspectGzipStream library bundle
  verifyCanonicalGzipBytes library bundle info.stream
  let raw ← scanRawTarStream policy.containsLocalHostPath info.stream info.stream.length
  let members ← library.members info.stream
  let state ← members.foldlM (auditMember library policy info.stream)
    { failures := [], files := 0, directories := 0, expanded := 0, memberCount := 0
      retainedNameBytes := 0, archiveEnd := 0, rootName := none, multipleRoots := false, memberKinds := [] }
  let failures := state.failures ++ layoutFailures policy info raw state
  raiseIf (maxFailures < failures.length) s!"source bundle exceeds the {maxFailures}-failure limit"
  raiseIf (failures ≠ []) ("\n".intercalate (failures.eraseDups.mergeSort fun a b => a ≤ b))
  pure { stream := info.stream, members := members, files := state.files }

end ExitfyCores.Bundle
