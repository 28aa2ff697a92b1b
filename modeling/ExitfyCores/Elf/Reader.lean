/-
Module: ExitfyCores.Elf.Reader
Layer: Elf
Purpose: Reading of an ELF file in `scripts/verify_artifacts.py`: bounded reads, `struct` fields, and the
  resolution of virtual addresses through the PT_LOAD segments. Every read at a resolved address is noted.
Imports: Mathlib.Data.List.Dedup, ExitfyCores.Lib.Checked, ExitfyCores.Lib.GoString, Mathlib.Algebra.Ring.Nat
Trusted boundary: human-reviewed spec
Main exports: LoadSegment, Resolved, Access, Inspect, read, unpack, mappedOffset, mappedAvailable, resolve,
  readIn, unpackIn, readCString
Open obligations: none
-/
import Mathlib.Data.List.Dedup
import ExitfyCores.Lib.Checked
import ExitfyCores.Lib.GoString
import Mathlib.Algebra.Ring.Nat

namespace ExitfyCores.Elf

open Checked

/-- `MAX_SYMBOL_NAME_BYTES` -/
def maxSymbolNameBytes : Nat := 4096

/-- `_LoadSegment` -/
structure LoadSegment where
  offset : Nat
  virtualAddress : Nat
  fileSize : Nat
  memorySize : Nat
  flags : Nat
  alignment : Nat
deriving Repr, DecidableEq

/-- An address range that `_mapped_offset` resolved, with the file offset it gave. -/
structure Resolved where
  address : Nat
  size : Nat
  offset : Nat
deriving Repr, DecidableEq

/-- A read of `size` bytes, `start` bytes into a resolved range. -/
structure Access where
  range : Resolved
  start : Nat
  size : Nat
deriving Repr, DecidableEq

/-- The verification of one file, with the reads at resolved addresses it makes. -/
abbrev Inspect := Checked Access

/-- `_Reader.read` -/
def read (file : Bytes) (offset size : Nat) (label : String) : Inspect Bytes := do
  reject (file.length < offset ∨ file.length - offset < size) s!"{label} escapes ELF"
  pure ((file.drop offset).take size)

/-- A little-endian unsigned number. -/
def littleEndian (bytes : Bytes) : Nat := bytes.foldr (fun byte rest => byte.toNat + 256 * rest) 0

/-- The fields of a `struct` format of unsigned numbers, given by their widths. -/
def fields : List Nat → Bytes → List Nat
  | [], _ => []
  | width :: widths, bytes => littleEndian (bytes.take width) :: fields widths (bytes.drop width)

/-- `struct.calcsize` -/
def calcSize (format : List Nat) : Nat := format.sum

/-- `_Reader.unpack` -/
def unpack (file : Bytes) (format : List Nat) (offset : Nat) (label : String) : Inspect (List Nat) := do
  let bytes ← read file offset (calcSize format) label
  pure (fields format bytes)

/-- `_checked_end`, of which only the check is used. -/
def checkedEnd (start size limit : Nat) (label : String) : Inspect Unit :=
  reject (limit < start ∨ limit - start < size) s!"{label} range is invalid"

/-- The condition on a candidate in `_mapped_offset`: the file bytes of the segment back the whole range. -/
def LoadSegment.Backs (segment : LoadSegment) (address size : Nat) : Prop :=
  segment.virtualAddress ≤ address ∧ address - segment.virtualAddress ≤ segment.fileSize ∧
    size ≤ segment.fileSize - (address - segment.virtualAddress)

instance (segment : LoadSegment) (address size : Nat) : Decidable (segment.Backs address size) :=
  inferInstanceAs (Decidable (_ ∧ _))

/-- The file offset of an address in a segment. -/
def LoadSegment.offsetOf (segment : LoadSegment) (address : Nat) : Nat :=
  segment.offset + address - segment.virtualAddress

/-- `_mapped_offset`; addresses and sizes are unsigned fields of the file. -/
def mappedOffset (segments : List LoadSegment) (address size : Nat) (label : String) :
    Except String Nat :=
  match ((segments.filter fun segment => segment.Backs address size).map
      fun segment => segment.offsetOf address).dedup with
  | [offset] => .ok offset
  | _ => .error s!"{label} is not uniquely file-backed by PT_LOAD"

/-- `_mapped_available` -/
def mappedAvailable (segments : List LoadSegment) (address : Nat) (label : String) : Except String Nat :=
  match ((segments.filter fun segment =>
        segment.virtualAddress ≤ address && address < segment.virtualAddress + segment.fileSize).map
      fun segment => segment.fileSize - (address - segment.virtualAddress)).dedup with
  | [available] => .ok available
  | _ => .error s!"{label} is not uniquely file-backed by PT_LOAD"

/-- `_mapped_offset`, kept together with the range it resolved. -/
def resolve (segments : List LoadSegment) (address size : Nat) (label : String) : Inspect Resolved := do
  let offset ← lift (mappedOffset segments address size label)
  pure { address := address, size := size, offset := offset }

/-- `_Reader.read` at an offset into a resolved range. -/
def readIn (file : Bytes) (range : Resolved) (start size : Nat) (label : String) : Inspect Bytes := do
  note { range := range, start := start, size := size }
  read file (range.offset + start) size label

/-- `_Reader.unpack` at an offset into a resolved range. -/
def unpackIn (file : Bytes) (format : List Nat) (range : Resolved) (start : Nat) (label : String) :
    Inspect (List Nat) := do
  let bytes ← readIn file range start (calcSize format) label
  pure (fields format bytes)

/-- One number at an offset into a resolved range. -/
def wordIn (file : Bytes) (width : Nat) (range : Resolved) (start : Nat) (label : String) :
    Inspect Nat := do
  let bytes ← readIn file range start width label
  pure (littleEndian bytes)

/-- The loop of `_read_c_string`; every turn reads at least one byte, so `remaining` bounds the turns. -/
def readCStringFrom (file : Bytes) (strings : Resolved) :
    Nat → Nat → Nat → Bytes → Inspect Bytes
  | 0, _, _, _ => fail "dynamic symbol name is unterminated or oversized"
  | turns + 1, cursor, remaining, value => do
      reject (remaining = 0) "dynamic symbol name is unterminated or oversized"
      let chunk ← readIn file strings cursor (min 256 remaining) "dynamic symbol name"
      if 0 ∈ chunk then pure (value ++ chunk.takeWhile (· ≠ 0))
      else
        readCStringFrom file strings turns (cursor + chunk.length) (remaining - chunk.length)
          (value ++ chunk)

/-- `bytes.decode("utf-8", "strict")` succeeds. -/
def ValidUTF8 (bytes : Bytes) : Prop := encodeRunes (runes bytes) = bytes

instance (bytes : Bytes) : Decidable (ValidUTF8 bytes) := inferInstanceAs (Decidable (_ = _))

/-- `_read_c_string` in the table `strings`. Names are kept as the bytes they encode to. -/
def readCString (file : Bytes) (strings : Resolved) (nameOffset : Nat) : Inspect Bytes := do
  reject (strings.size ≤ nameOffset) "dynamic symbol name escapes DT_STRTAB"
  let remaining := min (strings.size - nameOffset) (maxSymbolNameBytes + 1)
  let value ← readCStringFrom file strings (remaining + 1) nameOffset remaining []
  reject (¬ ValidUTF8 value) "dynamic symbol name is not valid UTF-8"
  pure value

end ExitfyCores.Elf
