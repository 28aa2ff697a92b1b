/-
Module: ExitfyCores.Bundle.TarWriter
Layer: Bundle
Purpose: The bytes that Python's tarfile writes in PAX format for the members of the builder: `addfile` of
  `archive_directory` for each member, and what closing the archive adds.
Imports: ExitfyCores.Bundle.Pax
Trusted boundary: human-reviewed spec of tarfile, for texts that are UTF-8 and numbers that fit their fields; of the
  fields that tarfile moves to a PAX header, only the path occurs here
Main exports: stn, itn, createHeader, paxEntry, paxEntries, createPaxGenericHeader, toBuf, addFile, tarStream,
  tarMembers
Open obligations: none
-/
import ExitfyCores.Bundle.Pax

namespace ExitfyCores.Bundle

/-- `text.encode("ascii", "replace")` -/
def asciiReplace (text : Bytes) : Bytes :=
  (runes text).map fun r => if r.toNat < 128 then UInt8.ofNat r.toNat else byte '?'

/-- `stn`: a text in a field, cut or filled up with NUL. -/
def stn (text : Bytes) (length : Nat) : Bytes :=
  (asciiReplace text).take length ++ List.replicate (length - (asciiReplace text).length) 0

/-- The last `count` octal digits of a number. -/
def octalDigits : Nat → Nat → Bytes
  | 0, _ => []
  | count + 1, n => octalDigits count (n / 8) ++ [UInt8.ofNat (0x30 + n % 8)]

/-- `itn`: a number in octal digits, with a NUL behind them. -/
def itn (n digits : Nat) : Bytes := octalDigits (digits - 1) n ++ [0]

/-- The fields in front of the checksum. -/
def frontFields (header : TarHeader) (name : Bytes) : Bytes :=
  stn name 100 ++ (itn (header.mode % 0o10000).toNat 8 ++ (itn header.uid.toNat 8 ++ (itn header.gid.toNat 8 ++
    (itn header.size.toNat 12 ++ itn header.mtime.toNat 12))))

/-- The fields behind the checksum; only device files have device numbers, and the prefix stays empty. -/
def backFields (header : TarHeader) : Bytes :=
  header.type :: (stn header.linkname 100 ++ (lit "ustar\x0000" ++ (stn header.uname 32 ++ (stn header.gname 32 ++
    List.replicate (8 + 8 + 155 + 12) 0))))

/-- `_create_header`: the block of a header, with the checksum over its other fields and eight blanks. -/
def createHeader (header : TarHeader) (name : Bytes) : Bytes :=
  let checksum := byteSum (frontFields header name) + 8 * 0x20 + byteSum (backFields header)
  frontFields header name ++ (octalDigits 6 checksum ++ [0, 0x20] ++ backFields header)

/-- The zeros that fill up the last block of a payload. -/
def blockPadding (size : Nat) : Bytes := List.replicate (paddedSize size - size) 0

/-- The header in front of PAX records. -/
def paxGenericInfo (size : Nat) : TarHeader :=
  { Builder.archiveInfo (lit "././@PaxHeader") size false false with mode := 0, type := xhdType }

/-- `_create_pax_generic_header` -/
def createPaxGenericHeader (records : Bytes) : Bytes :=
  createHeader (paxGenericInfo records.length) (lit "././@PaxHeader") ++ (records ++ blockPadding records.length)

/-- A PAX record: its length, a blank, the key, and the value up to the end of the line. -/
def paxEntry (entry : Bytes × Bytes) : Bytes :=
  let base := entry.1.length + entry.2.length + 3
  (Py.decimal (paxLengthFrom (base + 3) base 0)).map UInt8.ofNat ++
    byte ' ' :: (entry.1 ++ byte '=' :: (entry.2 ++ [0x0A]))

/-- The PAX records of a header: its own, which have priority, and the path when the name needs it. -/
def paxEntries (header : TarHeader) : List (Bytes × Bytes) :=
  header.paxHeaders.entries ++
    if lit "path" ∉ header.paxHeaders.keys ∧ NeedsPaxPath header then [(lit "path", storedName header)] else []

/-- `TarInfo.tobuf` in PAX format. -/
def toBuf (header : TarHeader) : Bytes :=
  (if paxEntries header = [] then [] else createPaxGenericHeader ((paxEntries header).flatMap paxEntry)) ++
    createHeader header (storedName header)

/-- `TarFile.addfile` -/
def addFile (member : TarHeader × Bytes) : Bytes :=
  toBuf member.1 ++ (member.2 ++ blockPadding member.2.length)

/-- The members of an archive. -/
def addFiles (members : List (TarHeader × Bytes)) : Bytes := members.flatMap addFile

/-- The archive when it is closed: two blocks of zeros, and more up to the end of a record. -/
def tarStream (members : List (TarHeader × Bytes)) : Bytes :=
  addFiles members ++
    List.replicate (canonicalTarStreamSize (addFiles members).length - (addFiles members).length) 0

/-- The members that tarfile reads from what it wrote, with their places in the stream. -/
def tarMembers : Nat → List (TarHeader × Bytes) → List TarInfo
  | _, [] => []
  | offset, member :: rest =>
      { header := readBack member.1, offset := offset, offsetData := offset + (toBuf member.1).length } ::
        tarMembers (offset + (addFile member).length) rest

end ExitfyCores.Bundle
