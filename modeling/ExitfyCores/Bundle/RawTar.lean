/-
Module: ExitfyCores.Bundle.RawTar
Layer: Bundle
Purpose: The raw scan of the decompressed tar stream in `scripts/audit_singbox_source_bundle.py`: block by block,
  without tarfile.
Imports: ExitfyCores.Lib.GoString, ExitfyCores.Lib.Raise, Mathlib.Algebra.Ring.Nat
Trusted boundary: human-reviewed spec; the search for host paths is the parameter `containsLocalHostPath`
Main exports: blockSize, readExactAt, validateZeroRange, parseCanonicalTarSize, validateRawTarChecksum,
  validateRawPaxPayload, validateRawMemberName, memberNamePolicyFailure, canonicalTarStreamSize, RawTarLayout,
  scanRawTarStream
Open obligations: none
-/
import ExitfyCores.Lib.GoString
import ExitfyCores.Lib.Raise
import Mathlib.Algebra.Ring.Nat

namespace ExitfyCores.Bundle

/-- `MAX_MEMBER_BYTES` -/
def maxMemberBytes : Nat := 64 * 1024 * 1024

/-- `MAX_EXPANDED_BYTES` -/
def maxExpandedBytes : Nat := 512 * 1024 * 1024

/-- `MAX_ARCHIVE_FILES` -/
def maxArchiveFiles : Nat := 50000

/-- `MAX_ARCHIVE_DIRECTORIES` -/
def maxArchiveDirectories : Nat := 50000

/-- `MAX_MEMBERS` -/
def maxMembers : Nat := maxArchiveFiles + maxArchiveDirectories

/-- `MAX_MEMBER_NAME_BYTES` -/
def maxMemberNameBytes : Nat := 4096

/-- `MAX_PAX_BYTES` -/
def maxPaxBytes : Nat := 8192

/-- `tarfile.BLOCKSIZE` -/
def blockSize : Nat := 512

/-- `tarfile.RECORDSIZE` -/
def recordSize : Nat := 20 * blockSize

/-- `tarfile.LENGTH_NAME` -/
def lengthName : Nat := 100

/-- `read_exact_at` -/
def readExactAt (stream : Bytes) (size offset : Nat) : Except String Bytes :=
  if size ≠ 0 ∧ stream.length < offset + size then .error "truncated decompressed tar stream"
  else .ok ((stream.drop offset).take size)

/-- `data.strip(b"\0")` is empty. -/
def AllZero (data : Bytes) : Prop := ∀ byte ∈ data, byte = 0

instance (data : Bytes) : Decidable (AllZero data) := inferInstanceAs (Decidable (∀ byte ∈ data, _))

/-- `validate_zero_range` -/
def validateZeroRange (stream : Bytes) (offset size : Nat) (message : String) : Except String Unit := do
  let data ← readExactAt stream size offset
  raiseIf (¬ AllZero data) message

/-- An octal digit. -/
def isOctal (byte : UInt8) : Bool := 0x30 ≤ byte && byte ≤ 0x37

/-- `int(field, 8)` of octal digits. -/
def octal (field : Bytes) : Nat := field.foldl (fun value byte => 8 * value + (byte.toNat - 0x30)) 0

/-- The bytes of a header from `start` up to `stop`. -/
def headerField (header : Bytes) (start stop : Nat) : Bytes := (header.take stop).drop start

/-- `parse_canonical_tar_size` -/
def parseCanonicalTarSize (header : Bytes) : Except String Nat :=
  let field := headerField header 124 136
  if field.length ≠ 12 ∨ field.getLast? ≠ some 0 ∨ ¬ field.dropLast.all isOctal then
    .error "noncanonical raw archive size field"
  else .ok (octal field.dropLast)

/-- `sum(data)` -/
def byteSum (data : Bytes) : Nat := (data.map UInt8.toNat).sum

/-- `validate_raw_tar_checksum` -/
def validateRawTarChecksum (header : Bytes) : Except String Unit := do
  let field := headerField header 148 156
  raiseIf (field.length ≠ 8 ∨ field.drop 6 ≠ [0, 0x20] ∨ ¬ (field.take 6).all isOctal)
    "noncanonical raw archive checksum field"
  raiseIf (octal (field.take 6) ≠ byteSum (header.take 148) + 8 * 0x20 + byteSum (header.drop 156))
    "invalid raw archive header checksum"

/-- `FORBIDDEN_BYTES` -/
def forbiddenBytes : List Bytes :=
  [lit "TMessagesProj", lit "com.exteragram", lit "org.telegram", lit "com/exteragram", lit "org/telegram"]

/-- `bytes.lower` of a byte. -/
def lowerByte (byte : UInt8) : UInt8 := if 0x41 ≤ byte && byte ≤ 0x5A then byte + 0x20 else byte

/-- `needle in data` -/
def containsBytes (needle data : Bytes) : Bool := data.tails.any fun tail => needle.isPrefixOf tail

/-- `data.split(b"/")` -/
def splitSlashes (data : Bytes) : List Bytes := data.splitOn (byte '/')

/-- `member_name_policy_failure` -/
def memberNamePolicyFailure (containsLocalHostPath : Bytes → Bool) (encodedName : Bytes)
    (directory : Bool) : Option String :=
  let candidate :=
    if directory && encodedName.getLast? == some (byte '/') then encodedName.dropLast else encodedName
  if byte '\\' ∈ candidate then some "archive member name contains a backslash"
  else if candidate.any fun code => code < 0x20 || code == 0x7F then
    some "archive member name contains a control character"
  else if (splitSlashes candidate).any fun part =>
      part.getLast? == some (byte '.') || part.getLast? == some (byte ' ') then
    some "archive member path component has a trailing dot or space"
  else if forbiddenBytes.any fun forbidden =>
      containsBytes (forbidden.map lowerByte) (candidate.map lowerByte) then
    some "forbidden archive namespace"
  else if containsLocalHostPath candidate then some "absolute local host path in archive member name"
  else none

/-- `bytes.decode("utf-8", "strict")` succeeds. -/
def DecodesStrictly (data : Bytes) : Prop := encodeRunes (runes data) = data

instance (data : Bytes) : Decidable (DecodesStrictly data) := inferInstanceAs (Decidable (_ = _))

/-- The failure of the name policy is raised. -/
def raisePolicyFailure : Option String → Except String Unit
  | none => .ok ()
  | some failure => .error failure

/-- A decimal digit. -/
def isDecimal (byte : UInt8) : Bool := 0x30 ≤ byte && byte ≤ 0x39

/-- `int(field, 10)` of decimal digits. -/
def decimal (field : Bytes) : Nat :=
  field.foldl (fun value byte => 10 * value + (byte.toNat - 0x30)) 0

/-- `validate_raw_pax_payload` -/
def validateRawPaxPayload (containsLocalHostPath : Bytes → Bool) (payload : Bytes) :
    Except String Unit := do
  let lengthField := payload.takeWhile (· ≠ 0x20)
  raiseIf (0x20 ∉ payload ∨ lengthField = []) "noncanonical archive PAX metadata"
  raiseIf
    (¬ lengthField.all isDecimal ∨ 5 < lengthField.length ∨ lengthField.head? = some 0x30 ∨
      decimal lengthField ≠ payload.length ∨ payload.count 0x0A ≠ 1 ∨ payload.getLast? ≠ some 0x0A)
    "noncanonical archive PAX metadata"
  let record := (payload.drop (lengthField.length + 1)).dropLast
  raiseIf (¬ (lit "path=").isPrefixOf record) "noncanonical archive PAX metadata"
  let pathBytes := record.drop (lit "path=").length
  raiseIf
    (pathBytes = [] ∨ maxMemberNameBytes + 1 < pathBytes.length ∨ 0 ∈ pathBytes ∨ 0x0D ∈ pathBytes)
    "noncanonical archive PAX path"
  raiseIf (¬ DecodesStrictly pathBytes) "noncanonical archive PAX path"
  raisePolicyFailure
    (memberNamePolicyFailure containsLocalHostPath pathBytes (pathBytes.getLast? == some (byte '/')))

/-- `validate_raw_member_name` -/
def validateRawMemberName (containsLocalHostPath : Bytes → Bool) (nameBytes : Bytes) (directory : Bool) :
    Except String Unit := do
  raiseIf (nameBytes = []) "empty archive member name"
  raiseIf (¬ DecodesStrictly nameBytes) "raw archive member name is not valid UTF-8"
  raisePolicyFailure (memberNamePolicyFailure containsLocalHostPath nameBytes directory)

/-- `canonical_tar_stream_size` -/
def canonicalTarStreamSize (archiveEnd : Nat) : Nat :=
  (archiveEnd + 2 * blockSize + recordSize - 1) / recordSize * recordSize

/-- A size rounded up to whole blocks. -/
def paddedSize (size : Nat) : Nat := (size + blockSize - 1) / blockSize * blockSize

/-- `RawTarLayout` -/
structure RawTarLayout where
  archiveEnd : Nat
  memberCount : Nat
  fileCount : Nat
  directoryCount : Nat
deriving Repr, DecidableEq

/-- The local variables of `scan_raw_tar_stream`. -/
structure RawScan where
  offset : Nat
  memberCount : Nat
  fileCount : Nat
  directoryCount : Nat
  payloadTotal : Nat
  pendingPax : Bool
deriving Repr, DecidableEq

/-- `tarfile.REGTYPE` -/
def regType : UInt8 := 0x30
/-- `tarfile.AREGTYPE` -/
def aregType : UInt8 := 0
/-- `tarfile.CONTTYPE` -/
def contType : UInt8 := 0x37
/-- `tarfile.DIRTYPE` -/
def dirType : UInt8 := 0x35
/-- `tarfile.SYMTYPE` -/
def symType : UInt8 := 0x32
/-- `tarfile.LNKTYPE` -/
def lnkType : UInt8 := 0x31
/-- `tarfile.XHDTYPE` -/
def xhdType : UInt8 := 0x78

/-- `unsafe_extension_types`: the GNU long link, long name and sparse types, the Solaris and the global
extended headers. -/
def unsafeExtensionTypes : List UInt8 := [0x4B, 0x4C, 0x53, 0x58, 0x67]

/-- `semantic_types` -/
def semanticTypes : List UInt8 := [regType, aregType, contType, dirType, symType, lnkType]

/-- The end of the scan, at a block of zeros. -/
def finishRawScan (stream : Bytes) (expandedSize : Nat) (scan : RawScan) : Except String RawTarLayout := do
  raiseIf (scan.pendingPax = true) "orphaned archive PAX metadata"
  raiseIf (expandedSize ≠ canonicalTarStreamSize scan.offset) "noncanonical decompressed tar stream length"
  raiseIf (expandedSize - scan.offset < 2 * blockSize) "missing canonical tar end markers"
  validateZeroRange stream scan.offset (expandedSize - scan.offset) "nonzero data follows the tar members"
  pure
    { archiveEnd := scan.offset
      memberCount := scan.memberCount
      fileCount := scan.fileCount
      directoryCount := scan.directoryCount }

/-- A PAX header with its payload of `size` bytes. -/
def scanRawPax (containsLocalHostPath : Bytes → Bool) (stream : Bytes) (scan : RawScan) (size : Nat) :
    Except String RawScan := do
  raiseIf (scan.pendingPax = true) "stacked archive PAX metadata"
  raiseIf (size = 0 ∨ maxPaxBytes < size) s!"archive PAX metadata exceeds {maxPaxBytes} bytes"
  let payload ← readExactAt stream size (scan.offset + blockSize)
  validateRawPaxPayload containsLocalHostPath payload
  let padding ← readExactAt stream (paddedSize size - size) (scan.offset + blockSize + size)
  raiseIf (¬ AllZero padding) "nonzero archive PAX padding"
  pure { scan with pendingPax := true, offset := scan.offset + blockSize + paddedSize size }

/-- A name in a message, with its line breaks escaped. -/
def escapedText (name : Bytes) : String :=
  String.ofList ((runes name).flatMap fun r =>
    if r = '\r' then ['\\', 'r'] else if r = '\n' then ['\\', 'n'] else [r])

/-- A member of `size` bytes. -/
def scanRawMember (containsLocalHostPath : Bytes → Bool) (scan : RawScan) (header : Bytes)
    (typeflag : UInt8) (size : Nat) : Except String RawScan := do
  let rawName := (header.take lengthName).takeWhile (· ≠ 0)
  let text := escapedText rawName
  raiseIf (typeflag ∈ unsafeExtensionTypes) "noncanonical archive PAX metadata or extension type"
  raiseIf (typeflag ∉ semanticTypes) s!"unsupported archive member type: {text}"
  if scan.pendingPax then pure ()
  else validateRawMemberName containsLocalHostPath rawName (typeflag == dirType)
  raiseIf (maxMemberBytes < size) s!"oversized raw archive member: {size} bytes"
  raiseIf (maxExpandedBytes < scan.payloadTotal + size) "expanded source bundle exceeds limit"
  raiseIf (maxMembers < scan.memberCount + 1) s!"source bundle exceeds the {maxMembers}-member limit"
  let directoryCount := if typeflag = dirType then scan.directoryCount + 1 else scan.directoryCount
  raiseIf (typeflag = dirType ∧ maxArchiveDirectories < directoryCount)
    s!"source bundle exceeds the {maxArchiveDirectories}-directory limit"
  let isFile := typeflag ∈ [regType, aregType, contType]
  let fileCount := if isFile then scan.fileCount + 1 else scan.fileCount
  raiseIf (isFile ∧ maxArchiveFiles < fileCount) s!"source bundle exceeds the {maxArchiveFiles}-file limit"
  pure
    { offset := scan.offset + blockSize + paddedSize size
      memberCount := scan.memberCount + 1
      fileCount := fileCount
      directoryCount := directoryCount
      payloadTotal := scan.payloadTotal + size
      pendingPax := false }

/-- The loop of `scan_raw_tar_stream`. Every turn but the last moves on by a block, which bounds the turns. -/
def scanRawTarFrom (containsLocalHostPath : Bytes → Bool) (stream : Bytes) (expandedSize : Nat) :
    Nat → RawScan → Except String RawTarLayout
  | 0, _ => .error "truncated decompressed tar stream"
  | turns + 1, scan => do
      let header ← readExactAt stream blockSize scan.offset
      if AllZero header then finishRawScan stream expandedSize scan
      else
        validateRawTarChecksum header
        let size ← parseCanonicalTarSize header
        let typeflag := header.getD 156 0
        raiseIf (expandedSize < scan.offset + blockSize + paddedSize size)
          "truncated decompressed tar member"
        let next ←
          if typeflag = xhdType then scanRawPax containsLocalHostPath stream scan size
          else scanRawMember containsLocalHostPath scan header typeflag size
        scanRawTarFrom containsLocalHostPath stream expandedSize turns next

/-- `scan_raw_tar_stream` -/
def scanRawTarStream (containsLocalHostPath : Bytes → Bool) (stream : Bytes) (expandedSize : Nat) :
    Except String RawTarLayout :=
  scanRawTarFrom containsLocalHostPath stream expandedSize (stream.length / blockSize + 1)
    { offset := 0, memberCount := 0, fileCount := 0, directoryCount := 0, payloadTotal := 0
      pendingPax := false }

end ExitfyCores.Bundle
