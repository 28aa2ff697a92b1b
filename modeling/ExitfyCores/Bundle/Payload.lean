/-
Module: ExitfyCores.Bundle.Payload
Layer: Bundle
Purpose: `scan_member_payload` of `scripts/audit_singbox_source_bundle.py`: one pass over the chunks of a payload that
  looks for host paths, client references, binary formats and invalid text, and keeps no more than the ends of what it
  has read.
Imports: ExitfyCores.Bundle.Audit, ExitfyCores.Lib.PyCodec, ExitfyCores.Lib.Window
Trusted boundary: human-reviewed spec; SHA-256 is a parameter. A reader is the list of what its calls return, and
  nothing from there on; the exception of a decoder is the answer `none`.
Main exports: homePaths, containsLocalHostPath, containsLocalHostPathBefore, IntelHexScanner, PdfObjectScanner,
  hasForbiddenBinaryMagic, hasStructuredPdf, PayloadScan, scanMemberPayload
Open obligations: none
-/
import ExitfyCores.Bundle.Audit
import ExitfyCores.Lib.PyCodec
import ExitfyCores.Lib.Window

namespace ExitfyCores.Bundle

/-- `CONTENT_SCAN_OVERLAP_BYTES` -/
def contentScanOverlapBytes : Nat := 256

/-- `PDF_HEADER_WINDOW_BYTES` -/
def pdfHeaderWindowBytes : Nat := 1024

/-- `PDF_TRAILER_WINDOW_BYTES` -/
def pdfTrailerWindowBytes : Nat := 1024

/-- `PDF_HEADER_BYTES` -/
def pdfHeaderBytes : Nat := 8

/-- `MAGIC_PROBE_BYTES` -/
def magicProbeBytes : Nat := max 263 (pdfHeaderWindowBytes + pdfHeaderBytes - 1)

/-- `MAX_INTEL_HEX_LINE_BYTES` -/
def maxIntelHexLineBytes : Nat := 1024

/-- `GIT_LFS_POINTER_HEADER` -/
def gitLfsPointerHeader : Bytes := lit "version https://git-lfs.github.com/spec/v1"

/-! ### Host paths -/

/-- `[A-Za-z0-9_]` -/
def isWordByte (b : UInt8) : Bool :=
  (byte 'A' ≤ b && b ≤ byte 'Z') || (byte 'a' ≤ b && b ≤ byte 'z') || (byte '0' ≤ b && b ≤ byte '9') || b == byte '_'

/-- The bytes of a literal. -/
def exactly (text : String) : Regex UInt8 := .seqs ((lit text).map fun b => .sat (· == b))

/-- The bytes of a literal under `(?i)`. -/
def anyCase (text : String) : Regex UInt8 := .seqs ((lit text).map fun b => .sat fun c => lowerByte c == lowerByte b)

/-- `HOME_PATHS`, each without the lookbehind `(?<![A-Za-z0-9_])` that all of them begin with. -/
def homePaths : List (Regex UInt8) :=
  [.seqs [exactly "/", .alts [exactly "home", exactly "root"], exactly "/"],
    exactly "/Users/",
    .seq (.sat fun b => byte 'a' ≤ lowerByte b && lowerByte b ≤ byte 'z') (anyCase ":\\Users\\"),
    .seqs [exactly "/",
      .alts [.seq (exactly "private") (.seq (exactly "/") (.alts [exactly "tmp", exactly "var/folders"])),
        exactly "opt/homebrew"],
      .alts [exactly "/", .boundary isWordByte]]]

/-- A pattern of `HOME_PATHS` matches behind the byte `before`. -/
def homePathAt (pattern : Regex UInt8) (before : Option UInt8) (text : Bytes) : Bool :=
  !Regex.wordSide isWordByte before && !(pattern.ends before text).isEmpty

/-- `contains_local_host_path` -/
def containsLocalHostPath (data : Bytes) : Bool :=
  homePaths.any fun pattern => (Window.search (homePathAt pattern) data 0).isSome

/-- `contains_local_host_path_before` for one pattern, from `position` on. -/
def patternBefore (pattern : Regex UInt8) (data : Bytes) (startLimit minimumStart : Nat) : Nat → Nat → Bool
  | 0, _ => false
  | fuel + 1, position =>
      if position < startLimit then
        match Window.search (homePathAt pattern) data position with
        | none => false
        | some start =>
            if startLimit ≤ start then false
            else if minimumStart ≤ start then true
            else patternBefore pattern data startLimit minimumStart fuel (start + 1)
      else false

/-- `contains_local_host_path_before`; the position grows with every match. -/
def containsLocalHostPathBefore (data : Bytes) (startLimit minimumStart : Nat) : Bool :=
  homePaths.any fun pattern => patternBefore pattern data startLimit minimumStart startLimit 0

/-! ### Binary formats -/

/-- `BINARY_MAGICS` -/
def binaryMagics : List Bytes :=
  [[0x7F] ++ lit "ELF", lit "MZ", [0xFE, 0xED, 0xFA, 0xCE], [0xCE, 0xFA, 0xED, 0xFE], [0xFE, 0xED, 0xFA, 0xCF],
    [0xCF, 0xFA, 0xED, 0xFE], [0xCA, 0xFE, 0xBA, 0xBE], [0xBE, 0xBA, 0xFE, 0xCA], [0xCA, 0xFE, 0xBA, 0xBF],
    [0xBF, 0xBA, 0xFE, 0xCA], lit "!<arch>\n", [0] ++ lit "asm", lit "PK" ++ [3, 4], lit "PK" ++ [5, 6],
    lit "PK" ++ [7, 8], [0x1F, 0x8B], lit "BZh", [0xFD] ++ lit "7zXZ" ++ [0], [0x28, 0xB5, 0x2F, 0xFD],
    lit "7z" ++ [0xBC, 0xAF, 0x27, 0x1C], lit "Rar!" ++ [0x1A, 0x07, 0x00], lit "Rar!" ++ [0x1A, 0x07, 0x01, 0x00],
    lit "dex\n"]

/-- `has_forbidden_binary_magic` -/
def hasForbiddenBinaryMagic (data : Bytes) : Bool :=
  binaryMagics.any (·.isPrefixOf data) ||
    (263 ≤ data.length && ((data.take 263).drop 257 == lit "ustar" ++ [0] || (data.take 263).drop 257 == lit "ustar ")) ||
    match data with
    | first :: a :: b :: c :: _ => 0x50 ≤ first && first ≤ 0x5F && [a, b, c] == [0x2A, 0x4D, 0x18]
    | _ => false

/-- `PDF_WHITESPACE` -/
def pdfWhitespace : Bytes := [0, 0x09, 0x0A, 0x0C, 0x0D, 0x20]

/-- `PDF_DELIMITERS` -/
def pdfDelimiters : Bytes := lit "()<>[]\x7b\x7d/%"

/-- `[0-9]` -/
def isDigitByte (b : UInt8) : Bool := 0x30 ≤ b && b ≤ 0x39

/-- `PDF_HEADER` -/
def pdfHeader : Regex UInt8 := .seqs [exactly "%PDF-", .sat isDigitByte, exactly ".", .sat isDigitByte]

/-- `PDF_HEADER` matches at a place. -/
def pdfHeaderAt (before : Option UInt8) (text : Bytes) : Bool := !(pdfHeader.ends before text).isEmpty

/-- Where `PDF_HEADER` ends that is first found, if it starts in the window for headers. -/
def pdfHeaderEnd (probe : Bytes) : Option Nat :=
  (Window.search pdfHeaderAt probe 0).bind fun start =>
    if start < pdfHeaderWindowBytes then some (start + pdfHeaderBytes) else none

/-- `[\x00\t\f ]` -/
def pdfPadding (b : UInt8) : Bool := b == 0 || b == 0x09 || b == 0x0C || b == 0x20

/-- `[\r\n\f]` -/
def pdfLineEnd (b : UInt8) : Bool := b == 0x0D || b == 0x0A || b == 0x0C

/-- `(?=\r\n|[\r\n\f]|\Z)` -/
def pdfLineEnds (text : Bytes) : Bool :=
  [0x0D, 0x0A].isPrefixOf text || text.head?.any pdfLineEnd || text.isEmpty

/-- `PDF_EOF` matches at a place: behind its start or a line end, and before one. -/
def pdfEOFAt (before : Option UInt8) (text : Bytes) : Bool :=
  let starts := (if before = none then [(before, text)] else []) ++ (Regex.sat pdfLineEnd).ends before text
  let marker := Regex.seqs [.many pdfPadding, exactly "%%EOF", .many pdfPadding]
  starts.any fun position => (marker.ends position.1 position.2).any fun final => pdfLineEnds final.2

/-- `has_structured_pdf` -/
def hasStructuredPdf (probe : Bytes) (hasObject : Bool) (trailer : Bytes) : Bool :=
  (pdfHeaderEnd probe).isSome && hasObject && (Window.search pdfEOFAt trailer 0).isSome

/-! ### Intel HEX -/

/-- `b"0123456789abcdefABCDEF"` -/
def hexValue (b : UInt8) : Option Nat :=
  if byte '0' ≤ b ∧ b ≤ byte '9' then some (b.toNat - 0x30)
  else if byte 'a' ≤ b ∧ b ≤ byte 'f' then some (b.toNat - 0x57)
  else if byte 'A' ≤ b ∧ b ≤ byte 'F' then some (b.toNat - 0x37)
  else none

/-- `bytes.fromhex`, as numbers; without a value for an odd length or another byte. -/
def fromHex : Bytes → Option (List Nat)
  | [] => some []
  | high :: low :: rest => do
      let high ← hexValue high
      let low ← hexValue low
      return (16 * high + low) :: (← fromHex rest)
  | [_] => none

/-- `expected_lengths` -/
def expectedLength : Nat → Option Nat
  | 1 => some 0
  | 2 => some 2
  | 3 => some 4
  | 4 => some 2
  | 5 => some 4
  | _ => none

/-- `intel_hex_record_type` -/
def intelHexRecordType (line : Bytes) : Option Nat :=
  let encoded := if line.head? = some (byte ':') then line.drop 1 else []
  if encoded.length < 10 then none
  else
    match fromHex encoded with
    | some (count :: high :: low :: type :: rest) =>
        let record := count :: high :: low :: type :: rest
        if record.length ≠ count + 5 ∨ 5 < type ∨ record.sum % 256 ≠ 0 then none
        else if type = 0 then some type
        else if some count ≠ expectedLength type ∨ high ≠ 0 ∨ low ≠ 0 then none
        else some type
    | _ => none

/-- `IntelHexScanner` -/
structure IntelHexScanner where
  possible : Bool
  line : Bytes
  records : Nat
  eofSeen : Bool
  preamble : Bytes
  preambleDone : Bool
deriving Repr, DecidableEq

namespace IntelHexScanner

/-- `IntelHexScanner.__init__` -/
def init : IntelHexScanner :=
  { possible := true, line := [], records := 0, eofSeen := false, preamble := [], preambleDone := false }

/-- `UTF8_BOM` -/
def utf8Bom : Bytes := [0xEF, 0xBB, 0xBF]

/-- `INTEL_LINE_END` -/
def isLineEnd (b : UInt8) : Bool := b == 0x0D || b == 0x0A

/-- `b" \t\f"` -/
def isBlank (b : UInt8) : Bool := b == 0x20 || b == 0x09 || b == 0x0C

/-- `line.strip(b" \t\f")` -/
def strip (line : Bytes) : Bytes := ((line.dropWhile isBlank).reverse.dropWhile isBlank).reverse

/-- `IntelHexScanner._finish_line` -/
def finishLine (scanner : IntelHexScanner) : IntelHexScanner :=
  let stripped := strip scanner.line
  let scanner := { scanner with line := [] }
  if stripped = [] ∨ stripped.head? = some (byte ';') ∨ stripped.head? = some (byte '#') then scanner
  else
    match intelHexRecordType stripped with
    | none => { scanner with possible := false }
    | some type =>
        if scanner.eofSeen then { scanner with possible := false }
        else { scanner with records := scanner.records + 1, eofSeen := type == 1 }

/-- `IntelHexScanner._feed_body`, line by line -/
def feedBody : Nat → IntelHexScanner → Bytes → IntelHexScanner
  | 0, scanner, _ => scanner
  | fuel + 1, scanner, data =>
      if data = [] then scanner
      else
        let piece := data.takeWhile fun b => !isLineEnd b
        if maxIntelHexLineBytes < scanner.line.length + piece.length then
          { scanner with possible := false, line := [] }
        else
          let extended := { scanner with line := scanner.line ++ piece }
          match data.dropWhile fun b => !isLineEnd b with
          | [] => extended
          | _ :: rest =>
              if extended.finishLine.possible then feedBody fuel extended.finishLine rest else extended.finishLine

/-- The loop of `IntelHexScanner.feed` over the first bytes, with what it leaves for the body. -/
def feedPreamble (scanner : IntelHexScanner) : Bytes → IntelHexScanner × Bytes
  | [] => (scanner, [])
  | b :: rest =>
      let preamble := scanner.preamble ++ [b]
      let done := { scanner with preamble := [], preambleDone := true }
      if ¬ preamble.isPrefixOf utf8Bom then (feedBody preamble.length done preamble, rest)
      else if preamble.length = utf8Bom.length then (done, rest)
      else feedPreamble { scanner with preamble := preamble } rest

/-- `IntelHexScanner.feed` -/
def feed (scanner : IntelHexScanner) (data : Bytes) : IntelHexScanner :=
  if ¬ scanner.possible then scanner
  else if scanner.preambleDone then feedBody data.length scanner data
  else
    let (scanner, rest) := feedPreamble scanner data
    if ¬ scanner.preambleDone ∨ ¬ scanner.possible then scanner else feedBody rest.length scanner rest

/-- `IntelHexScanner.finish` -/
def finish (scanner : IntelHexScanner) : Bool :=
  let scanner :=
    if scanner.possible ∧ ¬ scanner.preambleDone then
      feedBody scanner.preamble.length { scanner with preamble := [], preambleDone := true } scanner.preamble
    else scanner
  let scanner := if scanner.possible ∧ scanner.line ≠ [] then scanner.finishLine else scanner
  scanner.possible && scanner.eofSeen && 2 ≤ scanner.records

end IntelHexScanner

/-! ### PDF objects -/

/-- The states of `PdfObjectScanner`. -/
inductive PdfState where
  | seekFirst
  | number
  | numberGap
  | keywordO
  | keywordB
  | keywordJ
  | comment
deriving Repr, DecidableEq

/-- `PdfObjectScanner` -/
structure PdfObjectScanner where
  state : PdfState
  digits : Nat
  completedNumbers : Nat
  boundary : Bool
  found : Bool
deriving Repr, DecidableEq

namespace PdfObjectScanner

/-- `PdfObjectScanner.__init__` -/
def init : PdfObjectScanner :=
  { state := .seekFirst, digits := 0, completedNumbers := 0, boundary := true, found := false }

/-- `PdfObjectScanner._is_whitespace` -/
def isWhitespace (b : UInt8) : Bool := pdfWhitespace.contains b

/-- `PdfObjectScanner._is_boundary` -/
def isBoundary (b : UInt8) : Bool := pdfWhitespace.contains b || pdfDelimiters.contains b

/-- `PdfObjectScanner._reset` -/
def reset (scanner : PdfObjectScanner) (b : UInt8) : PdfObjectScanner :=
  { scanner with state := .seekFirst, digits := 0, completedNumbers := 0, boundary := isBoundary b }

/-- One byte of `PdfObjectScanner.feed`. -/
def step (scanner : PdfObjectScanner) (b : UInt8) : PdfObjectScanner :=
  match scanner.state with
  | .comment =>
      if b = 0x0D ∨ b = 0x0A then
        { scanner with
          state := if scanner.completedNumbers ≠ 0 then .numberGap else .seekFirst
          boundary := true }
      else scanner
  | .seekFirst =>
      if scanner.boundary ∧ isDigitByte b then
        { scanner with state := .number, digits := 1, completedNumbers := 0, boundary := false }
      else if b = byte '%' then { scanner with state := .comment, completedNumbers := 0 }
      else { scanner with boundary := isBoundary b }
  | .number =>
      if isDigitByte b then
        let counted := { scanner with digits := scanner.digits + 1 }
        if 10 < counted.digits then counted.reset b else counted
      else if isWhitespace b then
        { scanner with completedNumbers := min 2 (scanner.completedNumbers + 1), state := .numberGap }
      else if b = byte '%' then
        { scanner with completedNumbers := min 2 (scanner.completedNumbers + 1), state := .comment }
      else scanner.reset b
  | .numberGap =>
      if isWhitespace b then scanner
      else if isDigitByte b then { scanner with state := .number, digits := 1 }
      else if 2 ≤ scanner.completedNumbers ∧ b = byte 'o' then { scanner with state := .keywordO }
      else if b = byte '%' then { scanner with state := .comment }
      else scanner.reset b
  | .keywordO =>
      if b = byte 'b' then { scanner with state := .keywordB }
      else if b = byte '%' then { scanner with completedNumbers := 0, state := .comment }
      else scanner.reset b
  | .keywordB =>
      if b = byte 'j' then { scanner with state := .keywordJ }
      else if b = byte '%' then { scanner with completedNumbers := 0, state := .comment }
      else scanner.reset b
  | .keywordJ => if isBoundary b then { scanner with found := true } else scanner.reset b

/-- `PdfObjectScanner.feed`; what has been found is kept. -/
def feed (scanner : PdfObjectScanner) (data : Bytes) : PdfObjectScanner :=
  data.foldl (fun scanner b => if scanner.found then scanner else scanner.step b) scanner

end PdfObjectScanner

/-! ### The scan -/

/-- The variables of `scan_member_payload`. `digested` is what the digest has been given, `magicProbe` the variable
`prefix`. -/
structure PayloadScan where
  remaining : Nat
  bytesRead : Nat
  magicProbe : Bytes
  scanTail : Bytes
  pdfTail : Bytes
  pdfObjectScanner : Option PdfObjectScanner
  pdfScannedBytes : Nat
  intelHex : IntelHexScanner
  digested : Option Bytes
  hasNul : Bool
  forbiddenReference : Bool
  localHostPath : Bool
  validUTF8 : Bool
  decoder : Option Py.Utf8
deriving Repr, DecidableEq

namespace PayloadScan

/-- The variables before the loop. -/
def init (memberSize : Nat) (binaryAllowed : Bool) : PayloadScan :=
  { remaining := memberSize
    bytesRead := 0
    magicProbe := []
    scanTail := []
    pdfTail := []
    pdfObjectScanner := none
    pdfScannedBytes := 0
    intelHex := .init
    digested := if binaryAllowed then some [] else none
    hasNul := false
    forbiddenReference := false
    localHostPath := false
    validUTF8 := true
    decoder := if binaryAllowed then none else some (.at []) }

/-- The start of a payload, and the scanner for PDF objects behind the header in it. -/
def probe (scan : PayloadScan) (chunk : Bytes) : PayloadScan :=
  if scan.magicProbe.length < magicProbeBytes then
    let magicProbe := scan.magicProbe ++ chunk.take (magicProbeBytes - scan.magicProbe.length)
    match pdfHeaderEnd magicProbe, scan.pdfObjectScanner with
    | some headerEnd, none =>
        { scan with
          magicProbe := magicProbe
          pdfObjectScanner := some (PdfObjectScanner.init.feed (magicProbe.drop headerEnd))
          pdfScannedBytes := magicProbe.length }
    | _, _ => { scan with magicProbe := magicProbe }
  else scan

/-- The bytes of a chunk that the scanner for PDF objects has not seen. -/
def scanPdfObjects (scan : PayloadScan) (chunk : Bytes) : PayloadScan :=
  match scan.pdfObjectScanner with
  | none => scan
  | some scanner =>
      if scanner.found then scan
      else
        let chunkOffset := scan.bytesRead - chunk.length
        let scanOffset := max scan.pdfScannedBytes chunkOffset
        if scanOffset < scan.bytesRead then
          { scan with
            pdfObjectScanner := some (scanner.feed (chunk.drop (scanOffset - chunkOffset)))
            pdfScannedBytes := scan.bytesRead }
        else scan

/-- What is looked for in the chunk and the end of what was read before it. -/
def scanWindow (scan : PayloadScan) (chunk : Bytes) : PayloadScan :=
  let window := scan.scanTail ++ chunk
  { scan with
    forbiddenReference :=
      scan.forbiddenReference ||
        forbiddenBytes.any fun forbidden => containsBytes (forbidden.map lowerByte) (window.map lowerByte)
    localHostPath :=
      scan.localHostPath ||
        containsLocalHostPathBefore window (window.length - contentScanOverlapBytes)
          (if scan.bytesRead = window.length then 0 else 1)
    scanTail := Window.last (contentScanOverlapBytes + 1) window }

/-- The checks on text, if binaries are not allowed. -/
def decodeChunk (scan : PayloadScan) (chunk : Bytes) : PayloadScan :=
  match scan.decoder with
  | none => scan
  | some state =>
      match chunk.foldlM (Py.Utf8.feed false) state with
      | some next => { scan with decoder := some next }
      | none => { scan with validUTF8 := false, decoder := none }

/-- One pass of the loop. -/
def step (binaryAllowed : Bool) (scan : PayloadScan) (chunk : Bytes) : PayloadScan :=
  let counted :=
    { scan with
      remaining := scan.remaining - chunk.length
      bytesRead := scan.bytesRead + chunk.length
      digested := scan.digested.map (· ++ chunk) }
  let probed := counted.probe chunk
  let fed :=
    { probed with
      pdfTail := Window.last pdfTrailerWindowBytes (probed.pdfTail ++ chunk)
      intelHex := probed.intelHex.feed chunk }
  let scanned := (fed.scanPdfObjects chunk).scanWindow chunk
  if binaryAllowed then scanned
  else { scanned with hasNul := scanned.hasNul || chunk.contains 0 }.decodeChunk chunk

/-- The loop, with what the reader has left. -/
def run (binaryAllowed : Bool) : PayloadScan → List Bytes → Except String (PayloadScan × List Bytes)
  | scan, [] => .ok (scan, [])
  | scan, chunk :: stream =>
      if scan.remaining = 0 then .ok (scan, chunk :: stream)
      else if chunk = [] then .ok (scan, stream)
      else if scan.remaining < chunk.length then .error "archive payload reader exceeded member size"
      else run binaryAllowed (scan.step binaryAllowed chunk) stream

/-- What is known when the reader has answered once more, with `extra`. -/
def audit (sha256 : Bytes → String) (scan : PayloadScan) (extra : Bytes) : ContentAudit :=
  { bytesRead := scan.bytesRead
    exactSize := scan.remaining == 0 && extra.isEmpty
    forbiddenMagic :=
      hasForbiddenBinaryMagic scan.magicProbe ||
        hasStructuredPdf scan.magicProbe (scan.pdfObjectScanner.any (·.found)) scan.pdfTail ||
        scan.intelHex.finish
    sha256 := scan.digested.map sha256
    hasNul := scan.hasNul
    validUTF8 := scan.validUTF8 && scan.decoder.all (·.missing == 0)
    forbiddenReference := scan.forbiddenReference
    localHostPath :=
      scan.localHostPath ||
        containsLocalHostPathBefore scan.scanTail scan.scanTail.length
          (if scan.bytesRead = scan.scanTail.length then 0 else 1)
    gitLfsPointer := gitLfsPointerHeader.isPrefixOf scan.magicProbe }

end PayloadScan

/-- `scan_member_payload` -/
def scanMemberPayload (sha256 : Bytes → String) (payloadStream : List Bytes) (memberSize : Nat)
    (binaryAllowed : Bool) : Except String ContentAudit := do
  let (scan, stream) ← (PayloadScan.init memberSize binaryAllowed).run binaryAllowed payloadStream
  pure (scan.audit sha256 (stream.headD []))

end ExitfyCores.Bundle
