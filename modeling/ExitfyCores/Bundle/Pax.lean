/-
Module: ExitfyCores.Bundle.Pax
Layer: Bundle
Purpose: How Python's tarfile writes a member in PAX format and reads it back, as far as names go: the slash behind
  a directory name, the PAX record for a path, and the bytes a member takes in the stream.
Imports: ExitfyCores.Bundle.Builder, ExitfyCores.Lib.PyJson
Trusted boundary: human-reviewed spec of tarfile
Main exports: storedName, NeedsPaxPath, readBack, paxRecordLength, paxRecord, memberSpan, tarStreamSize
Open obligations: none
-/
import ExitfyCores.Bundle.Builder
import ExitfyCores.Lib.PyJson

namespace ExitfyCores.Bundle

/-- `name.rstrip("/")` -/
def stripSlashes (name : Bytes) : Bytes := (name.reverse.dropWhile (· = byte '/')).reverse

/-- The name as it is stored: a directory ends in a slash. -/
def storedName (header : TarHeader) : Bytes :=
  if header.IsDir ∧ header.name.getLast? ≠ some (byte '/') then header.name ++ [byte '/'] else header.name

/-- The name is ASCII. -/
def IsASCII (name : Bytes) : Prop := ∀ b ∈ name, b < 0x80

instance (name : Bytes) : Decidable (IsASCII name) := inferInstanceAs (Decidable (∀ b ∈ name, _))

/-- The stored name does not fit the name field. -/
def NeedsPaxPath (header : TarHeader) : Prop :=
  ¬ IsASCII (storedName header) ∨ lengthName < (storedName header).length

instance (header : TarHeader) : Decidable (NeedsPaxPath header) := inferInstanceAs (Decidable (_ ∨ _))

/-- The PAX records that tarfile adds to a header without records of its own. -/
def paxPath (header : TarHeader) : Dict Bytes Bytes :=
  if NeedsPaxPath header then
    { entries := [(lit "path", storedName header)], nodup := List.pairwise_singleton _ _ }
  else { entries := [], nodup := List.nodup_nil }

/-- The member that tarfile reads from what it wrote for a header without records of its own. -/
def readBack (header : TarHeader) : TarHeader :=
  { header with
    name := if header.IsDir ∨ NeedsPaxPath header then stripSlashes (storedName header) else header.name
    paxHeaders := paxPath header }

/-- The decimal digits of a length. -/
def decimalDigits (n : Nat) : Nat := (Nat.toDigits 10 n).length

/-- The loop of `_create_pax_generic_header`: the length field counts itself. -/
def paxLengthFrom : Nat → Nat → Nat → Nat
  | 0, _, guess => guess
  | turns + 1, base, guess =>
      let next := base + decimalDigits guess
      if next = guess then guess else paxLengthFrom turns base next

/-- The length of the PAX record for a path. The length field has at most as many digits as the record has
bytes, which bounds the turns. -/
def paxRecordLength (path : Bytes) : Nat :=
  let base := (lit "path").length + path.length + 3
  paxLengthFrom (base + 3) base 0

/-- A PAX record for a path with this number as its length field. -/
def paxRecordOf (length : Nat) (path : Bytes) : Bytes :=
  (Py.decimal length).map UInt8.ofNat ++ byte ' ' :: (lit "path=" ++ (path ++ [0x0A]))

/-- The PAX record that tarfile writes for a path. -/
def paxRecord (path : Bytes) : Bytes := paxRecordOf (paxRecordLength path) path

/-- The bytes of a member in the stream: its PAX header and record if it has one, its header, and its payload in
whole blocks. -/
def memberSpan (header : TarHeader) : Nat :=
  (if NeedsPaxPath header then blockSize + paddedSize (paxRecordLength (storedName header)) else 0) +
    blockSize + paddedSize header.size.toNat

/-- The length of the stream that holds these members. -/
def tarStreamSize (members : List TarHeader) : Nat :=
  canonicalTarStreamSize (members.map memberSpan).sum

example : (readBack (Builder.archiveInfo (lit "r/a") 0 true true)).name = lit "r/a" := by
  decide

end ExitfyCores.Bundle
