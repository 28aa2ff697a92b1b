/-
Module: ExitfyCores.Elf.Domain
Layer: Elf
Purpose: `_inspect_reader` of `scripts/verify_artifacts.py` with the domain of every operation: what `struct.unpack`,
  an index, a division or a shift needs is guarded, a loop that does not end is a fault, and every `os.pread` is noted.
Imports: ExitfyCores.Elf.Inspection, ExitfyCores.Lib.Guarded
Trusted boundary: human-reviewed spec; the file is static, so that `os.pread` inside it gives all bytes that it is
  asked for
Main exports: Fault, FileRead, Guard, read, unpack, readCString, sysvHashSymbolCount, gnuHashSymbolCount,
  sysvHashReaches, gnuHashReaches, inspectReader
Open obligations: none
-/
import ExitfyCores.Elf.Inspection
import ExitfyCores.Lib.Guarded

namespace ExitfyCores.Elf.Domain

open Guarded

/-! ### Guarded operations -/

/-- What goes wrong outside the domain of an operation. -/
inductive Fault where
  | unpackSize
  | indexRange
  | zeroDivisor
  | negativeShift
  | endless
deriving DecidableEq, Repr

/-- One `os.pread`. -/
structure FileRead where
  offset : Nat
  size : Nat
deriving DecidableEq, Repr

/-- The verification of one file. -/
abbrev Guard := Guarded FileRead Fault

/-- `items[position]` -/
def item {α : Type} (items : List α) (position : Nat) : Guard α := pick .indexRange items position

/-- `value % divisor` -/
def modulo (value divisor : Nat) : Guard Nat := do
  faultIf (divisor = 0) .zeroDivisor
  pure (value % divisor)

/-- `value // divisor` -/
def quotient (value divisor : Nat) : Guard Nat := do
  faultIf (divisor = 0) .zeroDivisor
  pure (value / divisor)

/-- `value << count` -/
def shiftLeft (value : Nat) (count : Int) : Guard Nat := do
  faultIf (count < 0) .negativeShift
  pure (value <<< count.toNat)

/-- `value >> count` -/
def shiftRight (value : Nat) (count : Int) : Guard Nat := do
  faultIf (count < 0) .negativeShift
  pure (value >>> count.toNat)

/-- `struct.unpack` -/
def structUnpack (format : List Nat) (bytes : Bytes) : Guard (List Nat) := do
  faultIf (bytes.length ≠ calcSize format) .unpackSize
  pure (fields format bytes)

/-! ### Reading -/

/-- `READ_CHUNK` -/
def readChunk : Nat := 64 * 1024

/-- `os.pread` -/
def pread (file : Bytes) (count offset : Nat) : Guard Bytes := do
  record { offset := offset, size := count }
  pure ((file.drop offset).take count)

/-- The loop of `_Reader.read`. -/
def readChunks (file : Bytes) (label : String) : Nat → Nat → Nat → Bytes → Guard Bytes
  | turns, current, remaining, chunks =>
      if remaining = 0 then pure chunks
      else
        match turns with
        | 0 => throw (.fault .endless)
        | turns + 1 => do
            let chunk ← pread file (min remaining readChunk) current
            check (chunk = []) s!"truncated {label}"
            readChunks file label turns (current + chunk.length) (remaining - chunk.length) (chunks ++ chunk)

/-- `_Reader.read` -/
def read (file : Bytes) (offset size : Nat) (label : String) : Guard Bytes := do
  check (file.length < offset ∨ file.length - offset < size) s!"{label} escapes ELF"
  readChunks file label size offset size []

/-- `_Reader.unpack` -/
def unpack (file : Bytes) (format : List Nat) (offset : Nat) (label : String) : Guard (List Nat) := do
  let bytes ← read file offset (calcSize format) label
  structUnpack format bytes

/-- `_Reader.unpack` of one number. -/
def word (file : Bytes) (width offset : Nat) (label : String) : Guard Nat := do
  let values ← unpack file [width] offset label
  item values 0

/-- `_checked_end`, of which only the check is used. -/
def checkedEnd (start size limit : Nat) (label : String) : Guard Unit :=
  check (limit < start ∨ limit - start < size) s!"{label} range is invalid"

/-- `_mapped_offset`, kept together with the range it resolved. -/
def resolve (segments : List LoadSegment) (address size : Nat) (label : String) : Guard Resolved := do
  let offset ← ofExcept (mappedOffset segments address size label)
  pure { address := address, size := size, offset := offset }

/-- The loop of `_read_c_string`. -/
def readCStringFrom (file : Bytes) : Nat → Nat → Nat → Bytes → Guard Bytes
  | turns, cursor, remaining, value =>
      if remaining = 0 then throw (.message "dynamic symbol name is unterminated or oversized")
      else
        match turns with
        | 0 => throw (.fault .endless)
        | turns + 1 => do
            let chunk ← read file cursor (min 256 remaining) "dynamic symbol name"
            if 0 ∈ chunk then pure (value ++ chunk.takeWhile (· ≠ 0))
            else readCStringFrom file turns (cursor + chunk.length) (remaining - chunk.length) (value ++ chunk)

/-- `_read_c_string` -/
def readCString (file : Bytes) (strings : Resolved) (nameOffset : Nat) : Guard Bytes := do
  check (strings.size ≤ nameOffset) "dynamic symbol name escapes DT_STRTAB"
  let remaining := min (strings.size - nameOffset) (maxSymbolNameBytes + 1)
  let value ← readCStringFrom file remaining (strings.offset + nameOffset) remaining []
  check (¬ ValidUTF8 value) "dynamic symbol name is not valid UTF-8"
  pure value

/-! ### Hash tables -/

/-- `_sysv_hash_symbol_count` -/
def sysvHashSymbolCount (file : Bytes) (segments : List LoadSegment) (address : Nat) : Guard SysvHashTable := do
  let header ← resolve segments address 8 "DT_HASH header"
  let counts ← unpack file [4, 4] header.offset "DT_HASH header"
  let buckets ← item counts 0
  let chains ← item counts 1
  check (buckets = 0 ∨ maxHashBuckets < buckets ∨ chains = 0 ∨ maxDynamicSymbols < chains)
    "DT_HASH cardinality is invalid"
  let table ← resolve segments address (8 + 4 * (buckets + chains)) "DT_HASH table"
  let values ← (List.range (buckets + chains)).mapM fun index => do
    let value ← word file 4 (table.offset + (8 + index * 4)) "DT_HASH entry"
    check (chains ≤ value ∧ value ≠ 0) "DT_HASH entry escapes the dynamic symbol table"
    pure value
  pure { buckets := values.take buckets, chains := values.drop buckets }

/-- The word of the chain at `relative`. -/
def chainWord (file : Bytes) (chains : GnuChains) (relative : Nat) : Guard Nat := do
  let range ← resolve chains.segments (chains.address + relative * 4) 4 "DT_GNU_HASH chain"
  word file 4 range.offset "DT_GNU_HASH chain"

/-- The loop of `terminal`. -/
def terminalFrom (file : Bytes) (chains : GnuChains) (terminals : List (Nat × Nat)) :
    Nat → Nat → List Nat → Guard (Nat × List Nat)
  | turns, index, path =>
      match terminals.lookup index with
      | some result => pure (result, path)
      | none =>
          match turns with
          | 0 => throw (.fault .endless)
          | turns + 1 => do
              check (index < chains.symbolOffset ∨ chains.maximum ≤ index - chains.symbolOffset)
                "DT_GNU_HASH chain escapes PT_LOAD"
              let value ← chainWord file chains (index - chains.symbolOffset)
              if value % 2 = 1 then pure (index, index :: path)
              else do
                check (maxDynamicSymbols < index + 1) "DT_GNU_HASH chain exceeds symbol limit"
                terminalFrom file chains terminals turns (index + 1) (index :: path)

/-- `terminal`, with the memo it leaves. -/
def terminal (file : Bytes) (chains : GnuChains) (terminals : List (Nat × Nat)) (start : Nat) :
    Guard (Nat × List (Nat × Nat)) := do
  let found ← terminalFrom file chains terminals (chains.maximum + 1) start []
  pure (found.1, found.2.map (fun visited => (visited, found.1)) ++ terminals)

/-- The body of the loop over the buckets. -/
def scanBucket (file : Bytes) (chains : GnuChains) (buckets : Resolved) (scan : BucketScan) (index : Nat) :
    Guard BucketScan := do
  let value ← word file 4 (buckets.offset + index * 4) "DT_GNU_HASH bucket"
  if value = 0 then pure { scan with values := scan.values ++ [value] }
  else do
    check (value < chains.symbolOffset ∨ maxDynamicSymbols < value) "DT_GNU_HASH bucket is invalid"
    let found ← terminal file chains scan.terminals value
    pure
      { values := scan.values ++ [value]
        terminals := found.2
        count := max scan.count (found.1 + 1) }

/-- `_gnu_hash_symbol_count` -/
def gnuHashSymbolCount (file : Bytes) (segments : List LoadSegment) (address elfClass : Nat) :
    Guard GnuHashTable := do
  let header ← resolve segments address 16 "DT_GNU_HASH header"
  let values ← unpack file [4, 4, 4, 4] header.offset "DT_GNU_HASH header"
  let buckets ← item values 0
  let symbolOffset ← item values 1
  let bloomSize ← item values 2
  let bloomShift ← item values 3
  check
    (buckets = 0 ∨ maxHashBuckets < buckets ∨ bloomSize = 0 ∨ bloomSize &&& (bloomSize - 1) ≠ 0 ∨
      maxDynamicSymbols < symbolOffset ∨ 32 ≤ bloomShift)
    "DT_GNU_HASH header is invalid"
  let wordSize := if elfClass = 2 then 8 else 4
  let bloomRange ← resolve segments (address + 16) (bloomSize * wordSize) "DT_GNU_HASH bloom"
  let bloom ← (List.range bloomSize).mapM fun index =>
    word file wordSize (bloomRange.offset + index * wordSize) "DT_GNU_HASH bloom"
  let bucketAddress := address + 16 + bloomSize * wordSize
  let bucketRange ← resolve segments bucketAddress (buckets * 4) "DT_GNU_HASH buckets"
  let chainAddress := bucketAddress + buckets * 4
  let available ← ofExcept (mappedAvailable segments chainAddress "DT_GNU_HASH chains")
  let chains : GnuChains :=
    { segments := segments, symbolOffset := symbolOffset, address := chainAddress
      maximum := min (available / 4) maxDynamicSymbols }
  let scan ← (List.range buckets).foldlM (scanBucket file chains bucketRange)
    { values := [], terminals := [], count := symbolOffset }
  check (scan.count = 0 ∨ maxDynamicSymbols < scan.count) "DT_GNU_HASH cardinality is invalid"
  let chainValues ← (List.range (scan.count - symbolOffset)).mapM fun index => chainWord file chains index
  pure
    { symbolCount := scan.count
      symbolOffset := symbolOffset
      bloomShift := bloomShift
      wordBits := wordSize * 8
      bloom := bloom
      buckets := scan.values
      chains := chainValues }

/-- The loop of `_sysv_hash_reaches`. -/
def sysvWalkReaches (table : SysvHashTable) (target : Nat) : Nat → Nat → List Nat → Guard Bool
  | turns, index, visited =>
      if index = 0 then pure false
      else do
        check (table.symbolCount ≤ index ∨ index ∈ visited) "DT_HASH lookup chain is invalid"
        if index = target then pure true
        else do
          let next ← item table.chains index
          match turns with
          | 0 => throw (.fault .endless)
          | turns + 1 => sysvWalkReaches table target turns next (index :: visited)

/-- `_sysv_hash_reaches` -/
def sysvHashReaches (table : SysvHashTable) (name : Bytes) (target : Nat) : Guard Bool := do
  let bucket ← modulo (sysvHash name) table.buckets.length
  let index ← item table.buckets bucket
  sysvWalkReaches table target table.symbolCount index []

/-- The loop of `_gnu_hash_reaches`. -/
def gnuWalkReaches (table : GnuHashTable) (name : Bytes) (target : Nat) : Nat → Nat → Guard Bool
  | turns, index =>
      if table.symbolCount ≤ index then throw (.message "DT_GNU_HASH lookup chain escapes dynamic symbols")
      else
        match turns with
        | 0 => throw (.fault .endless)
        | turns + 1 => do
            let chainHash ← pick .indexRange table.chains ((index : Int) - table.symbolOffset)
            if chainHash ||| 1 = gnuHash name ||| 1 ∧ index = target then pure true
            else if chainHash % 2 = 1 then pure false
            else gnuWalkReaches table name target turns (index + 1)

/-- `_gnu_hash_reaches` -/
def gnuHashReaches (table : GnuHashTable) (name : Bytes) (target : Nat) : Guard Bool :=
  if target < table.symbolOffset then pure false
  else do
    let words ← quotient (gnuHash name) table.wordBits
    let position ← modulo words table.bloom.length
    let bloomWord ← item table.bloom position
    let low ← modulo (gnuHash name) table.wordBits
    let lowBit ← shiftLeft 1 low
    let shifted ← shiftRight (gnuHash name) table.bloomShift
    let high ← modulo shifted table.wordBits
    let highBit ← shiftLeft 1 high
    if bloomWord &&& (lowBit ||| highBit) ≠ lowBit ||| highBit then pure false
    else do
      let bucket ← modulo (gnuHash name) table.buckets.length
      let index ← item table.buckets bucket
      if index < table.symbolOffset then pure false
      else gnuWalkReaches table name target (table.symbolCount - index) index

/-! ### The inspection -/

/-- The identification bytes decide the layout. -/
def parseIdent (file : Bytes) : Guard Layout := do
  let ident ← read file 0 16 "ELF identification"
  check (ident.take 4 ≠ [0x7F, 0x45, 0x4C, 0x46]) "not an ELF file"
  let elfClass ← item ident 4
  check (elfClass.toNat ≠ 1 ∧ elfClass.toNat ≠ 2) s!"unsupported ELF class {elfClass.toNat}"
  let data ← item ident 5
  let version ← item ident 6
  let abi ← item ident 7
  let abiVersion ← item ident 8
  check (data ≠ 1 ∨ version ≠ 1 ∨ (abi ≠ 0 ∧ abi ≠ 3) ∨ abiVersion ≠ 0)
    "ELF identification is not Android-compatible"
  check ((ident.drop 9).any (· ≠ 0)) "ELF identification padding is nonzero"
  pure (if elfClass.toNat = 2 then layout64 else layout32)

/-- The ELF header. -/
def parseHeader (file : Bytes) (layout : Layout) : Guard Header := do
  let values ← unpack file layout.header 0 "ELF header"
  let elfType ← item values 1
  let machine ← item values 2
  let version ← item values 3
  let programOffset ← item values 5
  let sectionOffset ← item values 6
  let headerSize ← item values 8
  let programSize ← item values 9
  let programCount ← item values 10
  let sectionSize ← item values 11
  let sectionCount ← item values 12
  let sectionNameIndex ← item values 13
  check (elfType ≠ 3) "ELF must use ET_DYN"
  check (version ≠ 1 ∨ headerSize ≠ calcSize layout.header) "invalid ELF header version or size"
  check (programSize ≠ calcSize layout.program ∨ programCount = 0 ∨ maxProgramHeaders < programCount)
    "invalid ELF program table"
  checkedEnd programOffset (programSize * programCount) file.length "program table"
  pure { elfType, machine, version, programOffset, sectionOffset, headerSize, programSize, programCount, sectionSize,
         sectionCount, sectionNameIndex }

/-- The order of the fields of a program header differs between the classes. -/
def programHeaderOf (layout : Layout) (values : List Nat) : Guard ProgramHeader :=
  if layout.elfClass = 2 then do
    let type ← item values 0
    let flags ← item values 1
    let offset ← item values 2
    let virtualAddress ← item values 3
    let fileSize ← item values 5
    let memorySize ← item values 6
    let alignment ← item values 7
    pure { type, segment := { offset, virtualAddress, fileSize, memorySize, flags, alignment } }
  else do
    let type ← item values 0
    let offset ← item values 1
    let virtualAddress ← item values 2
    let fileSize ← item values 4
    let memorySize ← item values 5
    let flags ← item values 6
    let alignment ← item values 7
    pure { type, segment := { offset, virtualAddress, fileSize, memorySize, flags, alignment } }

/-- The checks on a PT_LOAD. -/
def checkAlignment (segment : LoadSegment) : Guard Unit := do
  check (segment.alignment = 0 ∨ segment.alignment &&& (segment.alignment - 1) ≠ 0) "invalid PT_LOAD alignment"
  let offset ← modulo segment.offset segment.alignment
  let address ← modulo segment.virtualAddress segment.alignment
  check (offset ≠ address) "incongruent PT_LOAD segment"

/-- The checks on one program header. -/
def parseProgramHeader (file : Bytes) (layout : Layout) (header : Header) (index : Nat) : Guard ProgramHeader := do
  let values ← unpack file layout.program (header.programOffset + index * header.programSize) "program header"
  let program ← programHeaderOf layout values
  check (program.segment.memorySize < program.segment.fileSize) "program segment file size exceeds memory size"
  checkedEnd program.segment.offset program.segment.fileSize file.length "program segment"
  if program.IsLoad then checkAlignment program.segment else pure ()
  pure program

/-- The program header table. -/
def parseProgramHeaders (file : Bytes) (layout : Layout) (header : Header) : Guard ProgramHeaders := do
  let programs ← (List.range header.programCount).mapM (parseProgramHeader file layout header)
  let load := (programs.filter fun program => program.IsLoad).map (·.segment)
  let dynamics := (programs.filter fun program => program.type = 2).map (·.segment)
  check (load = []) "ELF has no PT_LOAD segments"
  check (dynamics.length ≠ 1) "ELF must contain exactly one PT_DYNAMIC segment"
  let dynamic ← item dynamics 0
  pure { load := load, dynamic := dynamic }

/-- The body of the loop over PT_DYNAMIC. -/
def scanDynamic (file : Bytes) (layout : Layout) (range : Resolved) (scan : DynamicScan) (index : Nat) :
    Guard DynamicScan := do
  let entry ← unpack file [layout.wordSize, layout.wordSize] (range.offset + index * (2 * layout.wordSize))
    "PT_DYNAMIC entry"
  let unsignedTag ← item entry 0
  let value ← item entry 1
  let tag := signed layout.wordSize unsignedTag
  if scan.nullSeen then do
    check (tag ≠ 0 ∨ value ≠ 0) "nonzero PT_DYNAMIC entry follows DT_NULL"
    pure scan
  else if tag = 0 then pure { scan with nullSeen := true }
  else pure { scan with values := scan.values ++ [(tag, value)] }

/-- PT_DYNAMIC and the checks on its tags. -/
def parseDynamic (file : Bytes) (layout : Layout) (programs : ProgramHeaders) : Guard DynamicScan := do
  let size := programs.dynamic.fileSize
  let entrySize := 2 * layout.wordSize
  let excess ← modulo size entrySize
  let entries ← quotient size entrySize
  check (size < entrySize ∨ excess ≠ 0 ∨ maxDynamicEntries < entries) "PT_DYNAMIC has an invalid size"
  let range ← resolve programs.load programs.dynamic.virtualAddress size "PT_DYNAMIC"
  check (range.offset ≠ programs.dynamic.offset) "PT_DYNAMIC file and virtual mappings disagree"
  let scan ← (List.range entries).foldlM (scanDynamic file layout range) { values := [], nullSeen := false }
  check (scan.nullSeen = false) "PT_DYNAMIC is not terminated"
  [dtSymtab, dtStrtab, dtStrsz, dtSyment, dtHash, dtGnuHash].forM fun tag =>
    check (1 < (scan.valuesOf tag).length) s!"duplicate critical dynamic tag: {tag}"
  [dtSymtab, dtStrtab, dtStrsz, dtSyment].forM fun tag =>
    check ((scan.valuesOf tag).length ≠ 1) s!"required dynamic tag is missing: {tag}"
  check (scan.valuesOf dtHash = [] ∧ scan.valuesOf dtGnuHash = []) "ELF has no loader hash table"
  pure scan

/-- The string table, the hash tables and the extent of the symbol table. -/
def parseTables (file : Bytes) (layout : Layout) (segments : List LoadSegment) (scan : DynamicScan) :
    Guard DynamicTables := do
  let symbolAddress ← item (scan.valuesOf dtSymtab) 0
  let stringAddress ← item (scan.valuesOf dtStrtab) 0
  let stringSize ← item (scan.valuesOf dtStrsz) 0
  let entrySize ← item (scan.valuesOf dtSyment) 0
  check (entrySize ≠ calcSize layout.symbol) "DT_SYMENT does not match the ELF class"
  check (stringSize = 0) "DT_STRSZ is invalid"
  let strings ← resolve segments stringAddress stringSize "DT_STRTAB"
  let first ← read file strings.offset 1 "DT_STRTAB"
  check (first ≠ [0]) "DT_STRTAB does not start with NUL"
  let sysv ← optional (scan.valuesOf dtHash).head? fun address => sysvHashSymbolCount file segments address
  let gnu ← optional (scan.valuesOf dtGnuHash).head? fun address =>
    gnuHashSymbolCount file segments address layout.elfClass
  let counts := (sysv.map (·.symbolCount)).toList ++ (gnu.map (·.symbolCount)).toList
  check (counts.dedup.length ≠ 1) "loader hash tables disagree on symbol cardinality"
  let symbolCount ← item counts 0
  check (symbolCount = 0 ∨ maxDynamicSymbols < symbolCount) "dynamic symbol cardinality is invalid"
  let symbols ← resolve segments symbolAddress (symbolCount * calcSize layout.symbol) "DT_SYMTAB"
  pure { strings := strings, sysv := sysv, gnu := gnu, symbols := symbols, symbolCount := symbolCount }

/-- The header of one section. -/
def parseSection (file : Bytes) (layout : Layout) (header : Header) (index : Nat) : Guard Section := do
  let values ← unpack file layout.sectionHeader (header.sectionOffset + index * header.sectionSize) "section header"
  let sectionType ← item values 1
  let flags ← item values 2
  let address ← item values 3
  let offset ← item values 4
  let size ← item values 5
  let link ← item values 6
  let entrySize ← item values 9
  check (sectionType ≠ 8 ∧ (file.length < offset ∨ file.length - offset < size)) "section range is invalid"
  pure { sectionType, flags, address, offset, size, link, entrySize }

/-- `_parse_sections` -/
def parseSections (file : Bytes) (layout : Layout) (header : Header) : Guard (List Section) := do
  let nativeSize := calcSize layout.sectionHeader
  if header.sectionOffset = 0 then do
    check
      (header.sectionCount ≠ 0 ∨ header.sectionNameIndex ≠ 0 ∨
        (header.sectionSize ≠ 0 ∧ header.sectionSize ≠ nativeSize))
      "sectionless ELF header is inconsistent"
    pure []
  else do
    check (header.sectionCount = 0 ∨ header.sectionSize ≠ nativeSize) "invalid ELF section table"
    checkedEnd header.sectionOffset (header.sectionSize * header.sectionCount) file.length "section table"
    check (header.sectionNameIndex ≠ 0 ∧ header.sectionCount ≤ header.sectionNameIndex)
      "invalid section-name table index"
    let sections ← (List.range header.sectionCount).mapM (parseSection file layout header)
    let first ← item sections 0
    check (first.sectionType ≠ 0) "ELF section zero is not SHT_NULL"
    pure sections

/-- `_cross_check_dynamic_sections` -/
def crossCheckDynamicSections (layout : Layout) (segments : List LoadSegment) (sections : List Section)
    (tables : DynamicTables) : Guard Unit := do
  let dynamics := sections.filter fun parsed => parsed.sectionType = 11
  if dynamics = [] then pure ()
  else do
    check (dynamics.length ≠ 1) "ELF must not contain multiple SHT_DYNSYM sections"
    let symbols ← item dynamics 0
    check
      (symbols.flags &&& 2 = 0 ∨ symbols.address ≠ tables.symbols.address ∨ symbols.offset ≠ tables.symbols.offset ∨
        symbols.size ≠ tables.symbolCount * calcSize layout.symbol ∨ symbols.entrySize ≠ calcSize layout.symbol ∨
        sections.length ≤ symbols.link)
      "SHT_DYNSYM does not match PT_DYNAMIC"
    let strings ← item sections symbols.link
    check
      (strings.sectionType ≠ 3 ∨ strings.flags &&& 2 = 0 ∨ strings.address ≠ tables.strings.address ∨
        strings.offset ≠ tables.strings.offset ∨ strings.size ≠ tables.strings.size)
      "SHT_DYNSYM string table does not match PT_DYNAMIC"
    let symbolOffset ← ofExcept (mappedOffset segments symbols.address symbols.size "SHT_DYNSYM")
    check (symbolOffset ≠ symbols.offset) "SHT_DYNSYM is not loader-mapped consistently"
    let stringOffset ← ofExcept (mappedOffset segments strings.address strings.size "SHT_STRTAB")
    check (stringOffset ≠ strings.offset) "SHT_STRTAB is not loader-mapped consistently"

/-- The body of the loop over the symbols. -/
def parseSymbol (file : Bytes) (layout : Layout) (tables : DynamicTables) (index : Nat) : Guard DynamicSymbol := do
  let values ← unpack file layout.symbol (tables.symbols.offset + index * calcSize layout.symbol) "dynamic symbol"
  let nameOffset ← item values 0
  let info ← item values (if layout.elfClass = 2 then 1 else 3)
  let other ← item values (if layout.elfClass = 2 then 2 else 4)
  let sectionIndex ← item values (if layout.elfClass = 2 then 3 else 5)
  let value ← item values (if layout.elfClass = 2 then 4 else 1)
  if index = 0 then do
    check (values.any (· ≠ 0)) "dynamic symbol table has no null entry"
    pure nullSymbol
  else do
    check (other / 4 ≠ 0) "dynamic symbol st_other contains reserved bits"
    let name ← readCString file tables.strings nameOffset
    let binding ← shiftRight info 4
    let symbol : DynamicSymbol :=
      { name := name
        binding := binding
        symbolType := info &&& 15
        visibility := other &&& 3
        sectionIndex := sectionIndex
        value := value }
    check (symbol.ExternallyVisible ∧ name ∉ requiredExports)
      ("unexpected externally visible symbol: '" ++ nameText name ++ "'")
    pure symbol

/-- A required export is reached through a hash table, where the file has it. -/
def checkReached {Table : Type} (table : Option Table) (reaches : Table → Guard Bool) (message : String) :
    Guard Unit :=
  match table with
  | none => pure ()
  | some table => do
      let reached ← reaches table
      check (reached = false) message

/-- The checks on one required export. -/
def checkExport (segments : List LoadSegment) (tables : DynamicTables) (symbols : List DynamicSymbol) (name : Bytes) :
    Guard Unit := do
  let text := nameText name
  let found := occurrences symbols name
  check (found.length ≠ 1) s!"{text}: expected exactly one dynamic symbol, got {found.length}"
  let (index, symbol) ← item found 0
  check (symbol.binding ≠ 1) s!"{text}: dynamic symbol must use STB_GLOBAL"
  check (symbol.visibility ≠ 0) s!"{text}: dynamic symbol must use raw STV_DEFAULT"
  check (symbol.symbolType ≠ 2) s!"{text}: dynamic symbol must use STT_FUNC"
  check (symbol.sectionIndex = 0 ∨ 0xFF00 ≤ symbol.sectionIndex)
    s!"{text}: dynamic symbol is not regularly defined"
  check (¬ Executable segments symbol.value) s!"{text}: dynamic function is not in file-backed executable PT_LOAD"
  checkReached tables.sysv (fun table => sysvHashReaches table name index)
    s!"{text}: dynamic symbol is not reachable through DT_HASH"
  checkReached tables.gnu (fun table => gnuHashReaches table name index)
    s!"{text}: dynamic symbol is not reachable through DT_GNU_HASH"

/-- `_inspect_reader` behind the program headers. -/
def inspectSegments (file : Bytes) (digest : String) (layout : Layout) (header : Header) (programs : ProgramHeaders) :
    Guard Inspection := do
  let scan ← parseDynamic file layout programs
  let tables ← parseTables file layout programs.load scan
  let sections ← parseSections file layout header
  crossCheckDynamicSections layout programs.load sections tables
  let symbols ← (List.range tables.symbolCount).mapM (parseSymbol file layout tables)
  requiredExports.forM (checkExport programs.load tables symbols)
  check (∃ name ∈ requiredExports, name ∉ exportedNames symbols) "required dynamic export set is incomplete"
  let info : ElfInfo :=
    { elfClass := layout.elfClass
      machine := header.machine
      machineName := if header.machine = 183 then "EM_AARCH64" else s!"EM_{header.machine}"
      exports := exportedNames symbols
      loadAlignments := programs.load.map (·.alignment)
      size := file.length
      sha256 := digest }
  pure { segments := programs.load, tables := tables, symbols := symbols, info := info }

/-- `_inspect_reader` -/
def inspectReader (file : Bytes) (digest : String) : Guard Inspection := do
  let layout ← parseIdent file
  let header ← parseHeader file layout
  let programs ← parseProgramHeaders file layout header
  inspectSegments file digest layout header programs

end ExitfyCores.Elf.Domain
