/-
Module: ExitfyCores.Elf.Inspection
Layer: Elf
Purpose: `_inspect_reader` of `scripts/verify_artifacts.py`, stage by stage. The result keeps the segments, the
  symbols and the hash tables beside the record that the script returns.
Imports: ExitfyCores.Elf.HashTables, Mathlib.Algebra.Ring.Int.Defs
Trusted boundary: human-reviewed spec; the digest is computed by the caller
Main exports: Layout, ProgramHeaders, DynamicTables, DynamicSymbol, ElfInfo, Inspection, inspectReader, Accepts
Open obligations: none
-/
import ExitfyCores.Elf.HashTables
import Mathlib.Algebra.Ring.Int.Defs

namespace ExitfyCores.Elf

open Checked

/-- `MAX_PROGRAM_HEADERS` -/
def maxProgramHeaders : Nat := 1024

/-- `MAX_DYNAMIC_ENTRIES` -/
def maxDynamicEntries : Nat := 65536

/-- `REQUIRED_EXPORTS` -/
def requiredExports : List Bytes := [lit "StartCore", lit "StopCore"]

/-- What depends on the ELF class: the formats of the headers, of dynamic entries and of symbols, and the
order of the fields of a program header and of a symbol. -/
structure Layout where
  elfClass : Nat
  header : List Nat
  program : List Nat
  wordSize : Nat
  symbol : List Nat
  sectionHeader : List Nat

/-- The formats of ELF64. -/
def layout64 : Layout :=
  { elfClass := 2
    header := [16, 2, 2, 4, 8, 8, 8, 4, 2, 2, 2, 2, 2, 2]
    program := [4, 4, 8, 8, 8, 8, 8, 8]
    wordSize := 8
    symbol := [4, 1, 1, 2, 8, 8]
    sectionHeader := [4, 4, 8, 8, 8, 8, 4, 4, 8, 8] }

/-- The formats of ELF32. -/
def layout32 : Layout :=
  { elfClass := 1
    header := [16, 2, 2, 4, 4, 4, 4, 4, 2, 2, 2, 2, 2, 2]
    program := [4, 4, 4, 4, 4, 4, 4, 4]
    wordSize := 4
    symbol := [4, 4, 4, 1, 1, 2]
    sectionHeader := [4, 4, 4, 4, 4, 4, 4, 4, 4, 4] }

/-- The identification bytes decide the layout. -/
def parseIdent (file : Bytes) : Inspect Layout := do
  let ident ← read file 0 16 "ELF identification"
  reject (ident.take 4 ≠ [0x7F, 0x45, 0x4C, 0x46]) "not an ELF file"
  let elfClass := (ident.getD 4 0).toNat
  reject (elfClass ≠ 1 ∧ elfClass ≠ 2) s!"unsupported ELF class {elfClass}"
  reject
    (ident.getD 5 0 ≠ 1 ∨ ident.getD 6 0 ≠ 1 ∨ (ident.getD 7 0 ≠ 0 ∧ ident.getD 7 0 ≠ 3) ∨
      ident.getD 8 0 ≠ 0)
    "ELF identification is not Android-compatible"
  reject ((ident.drop 9).any (· ≠ 0)) "ELF identification padding is nonzero"
  pure (if elfClass = 2 then layout64 else layout32)

/-- The fields of the ELF header that are used. -/
structure Header where
  elfType : Nat
  machine : Nat
  version : Nat
  programOffset : Nat
  sectionOffset : Nat
  headerSize : Nat
  programSize : Nat
  programCount : Nat
  sectionSize : Nat
  sectionCount : Nat
  sectionNameIndex : Nat
deriving Repr, DecidableEq

/-- The ELF header. -/
def parseHeader (file : Bytes) (layout : Layout) : Inspect Header := do
  let values ← unpack file layout.header 0 "ELF header"
  let header : Header :=
    { elfType := values.getD 1 0
      machine := values.getD 2 0
      version := values.getD 3 0
      programOffset := values.getD 5 0
      sectionOffset := values.getD 6 0
      headerSize := values.getD 8 0
      programSize := values.getD 9 0
      programCount := values.getD 10 0
      sectionSize := values.getD 11 0
      sectionCount := values.getD 12 0
      sectionNameIndex := values.getD 13 0 }
  reject (header.elfType ≠ 3) "ELF must use ET_DYN"
  reject (header.version ≠ 1 ∨ header.headerSize ≠ calcSize layout.header)
    "invalid ELF header version or size"
  reject
    (header.programSize ≠ calcSize layout.program ∨ header.programCount = 0 ∨
      maxProgramHeaders < header.programCount)
    "invalid ELF program table"
  checkedEnd header.programOffset (header.programSize * header.programCount) file.length "program table"
  pure header

/-- A program header: its type and its segment. -/
structure ProgramHeader where
  type : Nat
  segment : LoadSegment
deriving Repr, DecidableEq

/-- The order of the fields of a program header differs between the classes. -/
def programHeaderOf (layout : Layout) (values : List Nat) : ProgramHeader :=
  if layout.elfClass = 2 then
    { type := values.getD 0 0
      segment :=
        { flags := values.getD 1 0
          offset := values.getD 2 0
          virtualAddress := values.getD 3 0
          fileSize := values.getD 5 0
          memorySize := values.getD 6 0
          alignment := values.getD 7 0 } }
  else
    { type := values.getD 0 0
      segment :=
        { offset := values.getD 1 0
          virtualAddress := values.getD 2 0
          fileSize := values.getD 4 0
          memorySize := values.getD 5 0
          flags := values.getD 6 0
          alignment := values.getD 7 0 } }

/-- `PT_LOAD` -/
def ProgramHeader.IsLoad (program : ProgramHeader) : Prop := program.type = 1

instance (program : ProgramHeader) : Decidable program.IsLoad := inferInstanceAs (Decidable (_ = _))

/-- The checks on one program header. -/
def parseProgramHeader (file : Bytes) (layout : Layout) (header : Header) (index : Nat) :
    Inspect ProgramHeader := do
  let values ← unpack file layout.program (header.programOffset + index * header.programSize)
    "program header"
  let program := programHeaderOf layout values
  let segment := program.segment
  reject (segment.memorySize < segment.fileSize) "program segment file size exceeds memory size"
  checkedEnd segment.offset segment.fileSize file.length "program segment"
  reject (program.IsLoad ∧ (segment.alignment = 0 ∨ segment.alignment &&& (segment.alignment - 1) ≠ 0))
    "invalid PT_LOAD alignment"
  reject
    (program.IsLoad ∧
      segment.offset % segment.alignment ≠ segment.virtualAddress % segment.alignment)
    "incongruent PT_LOAD segment"
  pure program

/-- The PT_LOAD segments in table order, and the one PT_DYNAMIC segment. -/
structure ProgramHeaders where
  load : List LoadSegment
  dynamic : LoadSegment
deriving Repr, DecidableEq

/-- The program header table. -/
def parseProgramHeaders (file : Bytes) (layout : Layout) (header : Header) : Inspect ProgramHeaders := do
  let programs ← (List.range header.programCount).mapM (parseProgramHeader file layout header)
  let load := (programs.filter fun program => program.IsLoad).map (·.segment)
  reject (load = []) "ELF has no PT_LOAD segments"
  match (programs.filter fun program => program.type = 2).map (·.segment) with
  | [dynamic] => pure { load := load, dynamic := dynamic }
  | _ => fail "ELF must contain exactly one PT_DYNAMIC segment"

/-- A dynamic tag is signed. -/
def signed (width value : Nat) : Int :=
  if value < 2 ^ (8 * width - 1) then value else value - 2 ^ (8 * width)

/-- The state of the loop over PT_DYNAMIC: what was found before DT_NULL, and whether it was seen. -/
structure DynamicScan where
  values : List (Int × Nat)
  nullSeen : Bool
deriving Repr, DecidableEq

/-- The body of the loop over PT_DYNAMIC. -/
def scanDynamic (file : Bytes) (layout : Layout) (range : Resolved) (scan : DynamicScan) (index : Nat) :
    Inspect DynamicScan := do
  let entry ← unpackIn file [layout.wordSize, layout.wordSize] range (index * (2 * layout.wordSize))
    "PT_DYNAMIC entry"
  let tag := signed layout.wordSize (entry.getD 0 0)
  let value := entry.getD 1 0
  if scan.nullSeen then
    reject (tag ≠ 0 ∨ value ≠ 0) "nonzero PT_DYNAMIC entry follows DT_NULL"
    pure scan
  else if tag = 0 then pure { scan with nullSeen := true }
  else pure { scan with values := scan.values ++ [(tag, value)] }

/-- `dynamic_values.get(tag, [])` -/
def DynamicScan.valuesOf (scan : DynamicScan) (tag : Int) : List Nat :=
  (scan.values.filter fun entry => entry.1 = tag).map (·.2)

/-- `DT_SYMTAB` -/
def dtSymtab : Int := 6
/-- `DT_STRTAB` -/
def dtStrtab : Int := 5
/-- `DT_STRSZ` -/
def dtStrsz : Int := 10
/-- `DT_SYMENT` -/
def dtSyment : Int := 11
/-- `DT_HASH` -/
def dtHash : Int := 4
/-- `DT_GNU_HASH` -/
def dtGnuHash : Int := 0x6FFFFEF5

/-- PT_DYNAMIC and the checks on its tags. -/
def parseDynamic (file : Bytes) (layout : Layout) (programs : ProgramHeaders) : Inspect DynamicScan := do
  let size := programs.dynamic.fileSize
  let entrySize := 2 * layout.wordSize
  reject (size < entrySize ∨ size % entrySize ≠ 0 ∨ maxDynamicEntries < size / entrySize)
    "PT_DYNAMIC has an invalid size"
  let range ← resolve programs.load programs.dynamic.virtualAddress size "PT_DYNAMIC"
  reject (range.offset ≠ programs.dynamic.offset) "PT_DYNAMIC file and virtual mappings disagree"
  let scan ← (List.range (size / entrySize)).foldlM (scanDynamic file layout range)
    { values := [], nullSeen := false }
  reject (scan.nullSeen = false) "PT_DYNAMIC is not terminated"
  [dtSymtab, dtStrtab, dtStrsz, dtSyment, dtHash, dtGnuHash].forM fun tag =>
    reject (1 < (scan.valuesOf tag).length) s!"duplicate critical dynamic tag: {tag}"
  [dtSymtab, dtStrtab, dtStrsz, dtSyment].forM fun tag =>
    reject ((scan.valuesOf tag).length ≠ 1) s!"required dynamic tag is missing: {tag}"
  reject (scan.valuesOf dtHash = [] ∧ scan.valuesOf dtGnuHash = []) "ELF has no loader hash table"
  pure scan

/-- The tables that the dynamic section names. -/
structure DynamicTables where
  strings : Resolved
  sysv : Option SysvHashTable
  gnu : Option GnuHashTable
  symbols : Resolved
  symbolCount : Nat
deriving Repr, DecidableEq

/-- The string table, the hash tables and the extent of the symbol table. -/
def parseTables (file : Bytes) (layout : Layout) (segments : List LoadSegment) (scan : DynamicScan) :
    Inspect DynamicTables := do
  let stringSize := (scan.valuesOf dtStrsz).getD 0 0
  reject ((scan.valuesOf dtSyment).getD 0 0 ≠ calcSize layout.symbol) "DT_SYMENT does not match the ELF class"
  reject (stringSize = 0) "DT_STRSZ is invalid"
  let strings ← resolve segments ((scan.valuesOf dtStrtab).getD 0 0) stringSize "DT_STRTAB"
  let first ← readIn file strings 0 1 "DT_STRTAB"
  reject (first ≠ [0]) "DT_STRTAB does not start with NUL"
  let sysv ← optional (scan.valuesOf dtHash).head? fun address =>
    sysvHashSymbolCount file segments address
  let gnu ← optional (scan.valuesOf dtGnuHash).head? fun address =>
    gnuHashSymbolCount file segments address layout.elfClass
  let counts := (sysv.map (·.symbolCount)).toList ++ (gnu.map (·.symbolCount)).toList
  reject (counts.dedup.length ≠ 1) "loader hash tables disagree on symbol cardinality"
  let symbolCount := counts.getD 0 0
  reject (symbolCount = 0 ∨ maxDynamicSymbols < symbolCount) "dynamic symbol cardinality is invalid"
  let symbols ← resolve segments ((scan.valuesOf dtSymtab).getD 0 0)
    (symbolCount * calcSize layout.symbol) "DT_SYMTAB"
  pure { strings := strings, sysv := sysv, gnu := gnu, symbols := symbols, symbolCount := symbolCount }

/-- `_Section` -/
structure Section where
  sectionType : Nat
  flags : Nat
  address : Nat
  offset : Nat
  size : Nat
  link : Nat
  entrySize : Nat
deriving Repr, DecidableEq

/-- `_parse_sections` -/
def parseSections (file : Bytes) (layout : Layout) (header : Header) : Inspect (List Section) := do
  let nativeSize := calcSize layout.sectionHeader
  if header.sectionOffset = 0 then
    reject
      (header.sectionCount ≠ 0 ∨ header.sectionNameIndex ≠ 0 ∨
        (header.sectionSize ≠ 0 ∧ header.sectionSize ≠ nativeSize))
      "sectionless ELF header is inconsistent"
    pure []
  else
    reject (header.sectionCount = 0 ∨ header.sectionSize ≠ nativeSize) "invalid ELF section table"
    checkedEnd header.sectionOffset (header.sectionSize * header.sectionCount) file.length "section table"
    reject (header.sectionNameIndex ≠ 0 ∧ header.sectionCount ≤ header.sectionNameIndex)
      "invalid section-name table index"
    let sections ← (List.range header.sectionCount).mapM fun index => do
      let values ← unpack file layout.sectionHeader (header.sectionOffset + index * header.sectionSize)
        "section header"
      let parsed : Section :=
        { sectionType := values.getD 1 0
          flags := values.getD 2 0
          address := values.getD 3 0
          offset := values.getD 4 0
          size := values.getD 5 0
          link := values.getD 6 0
          entrySize := values.getD 9 0 }
      reject
        (parsed.sectionType ≠ 8 ∧
          (file.length < parsed.offset ∨ file.length - parsed.offset < parsed.size))
        "section range is invalid"
      pure parsed
    reject (sections.head?.any fun first => first.sectionType ≠ 0) "ELF section zero is not SHT_NULL"
    pure sections

/-- `_cross_check_dynamic_sections` -/
def crossCheckDynamicSections (layout : Layout) (segments : List LoadSegment) (sections : List Section)
    (tables : DynamicTables) : Inspect Unit := do
  match sections.filter fun parsed => parsed.sectionType = 11 with
  | [] => pure ()
  | [symbols] =>
      reject
        (symbols.flags &&& 2 = 0 ∨ symbols.address ≠ tables.symbols.address ∨
          symbols.offset ≠ tables.symbols.offset ∨
          symbols.size ≠ tables.symbolCount * calcSize layout.symbol ∨
          symbols.entrySize ≠ calcSize layout.symbol ∨ sections.length ≤ symbols.link)
        "SHT_DYNSYM does not match PT_DYNAMIC"
      match sections[symbols.link]? with
      | none => fail "SHT_DYNSYM does not match PT_DYNAMIC"
      | some strings =>
          reject
            (strings.sectionType ≠ 3 ∨ strings.flags &&& 2 = 0 ∨
              strings.address ≠ tables.strings.address ∨ strings.offset ≠ tables.strings.offset ∨
              strings.size ≠ tables.strings.size)
            "SHT_DYNSYM string table does not match PT_DYNAMIC"
          let symbolOffset ← lift (mappedOffset segments symbols.address symbols.size "SHT_DYNSYM")
          reject (symbolOffset ≠ symbols.offset) "SHT_DYNSYM is not loader-mapped consistently"
          let stringOffset ← lift (mappedOffset segments strings.address strings.size "SHT_STRTAB")
          reject (stringOffset ≠ strings.offset) "SHT_STRTAB is not loader-mapped consistently"
  | _ => fail "ELF must not contain multiple SHT_DYNSYM sections"

/-- A parsed dynamic symbol. -/
structure DynamicSymbol where
  name : Bytes
  binding : Nat
  symbolType : Nat
  visibility : Nat
  sectionIndex : Nat
  value : Nat
deriving Repr, DecidableEq

/-- `externally_visible`: not `STB_LOCAL`, `STV_DEFAULT` or `STV_PROTECTED`, not `SHN_UNDEF`. -/
def DynamicSymbol.ExternallyVisible (symbol : DynamicSymbol) : Prop :=
  symbol.binding ≠ 0 ∧ (symbol.visibility = 0 ∨ symbol.visibility = 3) ∧ symbol.sectionIndex ≠ 0

instance (symbol : DynamicSymbol) : Decidable symbol.ExternallyVisible :=
  inferInstanceAs (Decidable (_ ∧ _))

/-- The null entry. -/
def nullSymbol : DynamicSymbol :=
  { name := [], binding := 0, symbolType := 0, visibility := 0, sectionIndex := 0, value := 0 }

/-- A name in a message. -/
def nameText (name : Bytes) : String := String.ofList (runes name)

/-- The body of the loop over the symbols. -/
def parseSymbol (file : Bytes) (layout : Layout) (tables : DynamicTables) (index : Nat) :
    Inspect DynamicSymbol := do
  let values ← unpackIn file layout.symbol tables.symbols (index * calcSize layout.symbol)
    "dynamic symbol"
  if index = 0 then
    reject (values.any (· ≠ 0)) "dynamic symbol table has no null entry"
    pure nullSymbol
  else
    let nameOffset := values.getD 0 0
    let info := values.getD (if layout.elfClass = 2 then 1 else 3) 0
    let other := values.getD (if layout.elfClass = 2 then 2 else 4) 0
    let sectionIndex := values.getD (if layout.elfClass = 2 then 3 else 5) 0
    let value := values.getD (if layout.elfClass = 2 then 4 else 1) 0
    reject (other / 4 ≠ 0) "dynamic symbol st_other contains reserved bits"
    let name ← readCString file tables.strings nameOffset
    let symbol : DynamicSymbol :=
      { name := name
        binding := info >>> 4
        symbolType := info &&& 15
        visibility := other &&& 3
        sectionIndex := sectionIndex
        value := value }
    reject (symbol.ExternallyVisible ∧ name ∉ requiredExports)
      ("unexpected externally visible symbol: '" ++ nameText name ++ "'")
    pure symbol

/-- The symbols named `name`, with their indices; the null entry does not count. -/
def occurrences (symbols : List DynamicSymbol) (name : Bytes) : List (Nat × DynamicSymbol) :=
  ((List.range symbols.length).zip symbols).filter fun entry => entry.1 ≠ 0 ∧ entry.2.name = name

/-- The address lies in the file bytes of an executable PT_LOAD. -/
def Executable (segments : List LoadSegment) (address : Nat) : Prop :=
  ∃ segment ∈ segments, segment.flags &&& 1 ≠ 0 ∧ segment.virtualAddress ≤ address ∧
    address < segment.virtualAddress + segment.fileSize

instance (segments : List LoadSegment) (address : Nat) : Decidable (Executable segments address) :=
  inferInstanceAs (Decidable (∃ segment ∈ segments, _))

/-- A required export is reached through a hash table, where the file has it. -/
def checkReached {Table : Type} (table : Option Table) (reaches : Table → Except String Bool)
    (message : String) : Inspect Unit :=
  match table with
  | none => pure ()
  | some table => do
      let reached ← lift (reaches table)
      reject (reached = false) message

/-- The checks on one required export. -/
def checkExport (segments : List LoadSegment) (tables : DynamicTables) (symbols : List DynamicSymbol)
    (name : Bytes) : Inspect Unit :=
  let text := nameText name
  match occurrences symbols name with
  | [(index, symbol)] => do
      reject (symbol.binding ≠ 1) s!"{text}: dynamic symbol must use STB_GLOBAL"
      reject (symbol.visibility ≠ 0) s!"{text}: dynamic symbol must use raw STV_DEFAULT"
      reject (symbol.symbolType ≠ 2) s!"{text}: dynamic symbol must use STT_FUNC"
      reject (symbol.sectionIndex = 0 ∨ 0xFF00 ≤ symbol.sectionIndex)
        s!"{text}: dynamic symbol is not regularly defined"
      reject (¬ Executable segments symbol.value)
        s!"{text}: dynamic function is not in file-backed executable PT_LOAD"
      checkReached tables.sysv (fun table => sysvHashReaches table name index)
        s!"{text}: dynamic symbol is not reachable through DT_HASH"
      checkReached tables.gnu (fun table => gnuHashReaches table name index)
        s!"{text}: dynamic symbol is not reachable through DT_GNU_HASH"
  | found => fail s!"{text}: expected exactly one dynamic symbol, got {found.length}"

/-- `ElfInfo` -/
structure ElfInfo where
  elfClass : Nat
  machine : Nat
  machineName : String
  exports : List Bytes
  loadAlignments : List Nat
  size : Nat
  sha256 : String
deriving Repr, DecidableEq

/-- What `_inspect_reader` found out on the way, with the record it returns. -/
structure Inspection where
  segments : List LoadSegment
  tables : DynamicTables
  symbols : List DynamicSymbol
  info : ElfInfo
deriving Repr, DecidableEq

/-- The names in `exports`. -/
def exportedNames (symbols : List DynamicSymbol) : List Bytes :=
  ((symbols.filter fun symbol => symbol.ExternallyVisible).map (·.name)).dedup

/-- `_inspect_reader` behind the program headers. -/
def inspectSegments (file : Bytes) (digest : String) (layout : Layout) (header : Header)
    (programs : ProgramHeaders) : Inspect Inspection := do
  let scan ← parseDynamic file layout programs
  let tables ← parseTables file layout programs.load scan
  let sections ← parseSections file layout header
  crossCheckDynamicSections layout programs.load sections tables
  let symbols ← (List.range tables.symbolCount).mapM (parseSymbol file layout tables)
  requiredExports.forM (checkExport programs.load tables symbols)
  reject (∃ name ∈ requiredExports, name ∉ exportedNames symbols)
    "required dynamic export set is incomplete"
  let info : ElfInfo :=
    { elfClass := layout.elfClass
      machine := header.machine
      machineName := if header.machine = 183 then "EM_AARCH64" else s!"EM_{header.machine}"
      exports := exportedNames symbols
      loadAlignments := programs.load.map (·.alignment)
      size := file.length
      sha256 := digest }
  pure { segments := programs.load, tables := tables, symbols := symbols, info := info }

/-- `_inspect_reader` -/
def inspectReader (file : Bytes) (digest : String) : Inspect Inspection := do
  let layout ← parseIdent file
  let header ← parseHeader file layout
  let programs ← parseProgramHeaders file layout header
  inspectSegments file digest layout header programs

/-- `_inspect_reader` accepts the file: what it found and the reads at resolved addresses it made. -/
def Accepts (file : Bytes) (digest : String) (found : Inspection) (accesses : List Access) : Prop :=
  inspectReader file digest [] = .ok (found, accesses)

end ExitfyCores.Elf
