/-
Module: ExitfyCores.Proofs.ElfInspection
Layer: Proofs
Purpose: One specification for each stage of the ELF verifier: which reads it makes at resolved addresses, and
  what its checks establish about the parsed tables.
Imports: ExitfyCores.Elf.Inspection
Trusted boundary: none
Main exports: ReadThrough, Consistent, inspectReader_ensures
Open obligations: none
-/
import ExitfyCores.Elf.Inspection

namespace ExitfyCores.Elf

open Checked

/-! ### Resolved ranges -/

/-- The offset is the one `_mapped_offset` gives for the range. -/
def Resolved.Mapped (segments : List LoadSegment) (range : Resolved) : Prop :=
  ∃ label, mappedOffset segments range.address range.size label = .ok range.offset

/-- A read inside a range that `_mapped_offset` resolved. -/
structure ReadThrough (segments : List LoadSegment) (access : Access) : Prop where
  mapped : access.range.Mapped segments
  inside : access.start + access.size ≤ access.range.size

variable {file : Bytes} {segments : List LoadSegment}

/-- The candidates of `_mapped_offset` agree on its result. -/
theorem mappedOffset_eq_ok {address size offset : Nat} {label : String}
    (mapped : mappedOffset segments address size label = .ok offset) :
    (∃ segment ∈ segments, segment.Backs address size) ∧
      ∀ segment ∈ segments, segment.Backs address size → segment.offsetOf address = offset := by
  unfold mappedOffset at mapped
  split at mapped
  · next only candidates =>
      cases mapped
      have member : ∀ candidate, candidate ∈ [offset] ↔
          ∃ segment ∈ segments, segment.Backs address size ∧ segment.offsetOf address = candidate := by
        intro candidate
        rw [← candidates, List.mem_dedup]
        simp [and_assoc]
      constructor
      · rcases (member offset).mp (List.mem_singleton_self offset) with ⟨segment, loaded, backs, _⟩
        exact ⟨segment, loaded, backs⟩
      · intro segment loaded backs
        exact List.mem_singleton.mp ((member _).mpr ⟨segment, loaded, backs, rfl⟩)
  · cases mapped

theorem resolve_ensures {good : Access → Prop} {address size : Nat} {label : String} :
    Ensures good
      (fun range => range.address = address ∧ range.size = size ∧ range.Mapped segments)
      (resolve segments address size label) := by
  apply Ensures.bind (ensures_lift (fun offset mapped => mapped))
  intro offset mapped
  exact ensures_pure ⟨rfl, rfl, label, mapped⟩

theorem read_ensures {good : Access → Prop} {offset size : Nat} {label : String} :
    Ensures good (fun bytes => bytes = (file.drop offset).take size ∧ offset + size ≤ file.length)
      (read file offset size label) := by
  apply Ensures.bind ensures_reject
  intro _ inside
  exact ensures_pure ⟨rfl, by omega⟩

theorem readIn_ensures {range : Resolved} {start size : Nat} {label : String}
    (mapped : range.Mapped segments) (inside : start + size ≤ range.size) :
    Ensures (ReadThrough segments) (fun bytes => bytes.length = size)
      (readIn file range start size label) := by
  apply Ensures.bind (ensures_note ⟨mapped, inside⟩)
  intro _ _
  apply read_ensures.weaken
  intro bytes parts
  rw [parts.1, List.length_take, List.length_drop]
  omega

theorem unpackIn_ensures {format : List Nat} {range : Resolved} {start : Nat} {label : String}
    (mapped : range.Mapped segments) (inside : start + calcSize format ≤ range.size) :
    Ensures (ReadThrough segments) (fun _ => True) (unpackIn file format range start label) := by
  apply Ensures.bind (readIn_ensures mapped inside)
  intro bytes _
  exact ensures_pure trivial

theorem wordIn_ensures {width : Nat} {range : Resolved} {start : Nat} {label : String}
    (mapped : range.Mapped segments) (inside : start + width ≤ range.size) :
    Ensures (ReadThrough segments) (fun _ => True) (wordIn file width range start label) := by
  apply Ensures.bind (readIn_ensures mapped inside)
  intro bytes _
  exact ensures_pure trivial

/-- The word at `index` of a table of `count` words is inside of it. -/
theorem word_inside {index count width : Nat} (bound : index < count) :
    index * width + width ≤ count * width := by
  calc index * width + width = (index + 1) * width := by rw [Nat.add_mul, Nat.one_mul]
    _ ≤ count * width := Nat.mul_le_mul_right width bound

theorem readCStringFrom_ensures {strings : Resolved} (mapped : strings.Mapped segments)
    (turns cursor remaining : Nat) (value : Bytes) (inside : cursor + remaining ≤ strings.size) :
    Ensures (ReadThrough segments) (fun _ => True)
      (readCStringFrom file strings turns cursor remaining value) := by
  induction turns generalizing cursor remaining value with
  | zero => exact ensures_fail _
  | succ turns ih =>
      apply Ensures.bind ensures_reject
      intro _ _
      apply Ensures.bind (readIn_ensures mapped (by omega))
      intro chunk length
      apply ensures_ite
      · intro _
        exact ensures_pure trivial
      · intro _
        apply ih
        omega

theorem readCString_ensures {strings : Resolved} {nameOffset : Nat} (mapped : strings.Mapped segments) :
    Ensures (ReadThrough segments) (fun _ => True) (readCString file strings nameOffset) := by
  apply Ensures.bind ensures_reject
  intro _ bound
  apply Ensures.bind (readCStringFrom_ensures mapped _ _ _ _ (by omega))
  intro value _
  apply Ensures.bind ensures_reject
  intro _ _
  exact ensures_pure trivial

/-! ### Hash tables -/

theorem sysvHashSymbolCount_ensures {address : Nat} :
    Ensures (ReadThrough segments) (fun _ => True) (sysvHashSymbolCount file segments address) := by
  apply Ensures.bind resolve_ensures
  intro header range
  apply Ensures.bind (unpackIn_ensures range.2.2 (by rw [range.2.1]; decide))
  intro counts _
  apply Ensures.bind ensures_reject
  intro _ _
  apply Ensures.bind resolve_ensures
  intro table tableRange
  apply Ensures.bind
  · apply ensures_mapM
    intro index member
    have bound := List.mem_range.mp member
    apply Ensures.bind (wordIn_ensures tableRange.2.2 (by rw [tableRange.2.1]; omega))
    intro value _
    apply Ensures.bind ensures_reject
    intro _ _
    exact ensures_pure trivial
  · intro values _
    exact ensures_pure trivial

theorem word_ensures {chains : GnuChains} {relative : Nat} :
    Ensures (ReadThrough chains.segments) (fun _ => True) (chains.word file relative) := by
  apply Ensures.bind resolve_ensures
  intro range resolved
  exact wordIn_ensures resolved.2.2 (by omega)

theorem terminalFrom_ensures {chains : GnuChains} {terminals : List (Nat × Nat)}
    (turns index : Nat) (path : List Nat) :
    Ensures (ReadThrough chains.segments) (fun _ => True)
      (terminalFrom file chains terminals turns index path) := by
  induction turns generalizing index path with
  | zero => exact ensures_fail _
  | succ turns ih =>
      unfold terminalFrom
      cases terminals.lookup index with
      | some result => exact ensures_pure trivial
      | none =>
          apply Ensures.bind ensures_reject
          intro _ _
          apply Ensures.bind word_ensures
          intro value _
          apply ensures_ite
          · intro _
            exact ensures_pure trivial
          · intro _
            apply Ensures.bind ensures_reject
            intro _ _
            exact ih (index + 1) (index :: path)

theorem terminal_ensures {chains : GnuChains} {terminals : List (Nat × Nat)} {start : Nat} :
    Ensures (ReadThrough chains.segments) (fun _ => True) (terminal file chains terminals start) := by
  apply Ensures.bind (terminalFrom_ensures _ _ _)
  intro found _
  exact ensures_pure trivial

/-- Scanning buckets never lowers the count. -/
theorem scanBucket_ensures {chains : GnuChains} {buckets : Resolved} {scan : BucketScan} {index : Nat}
    (mapped : buckets.Mapped chains.segments) (inside : index * 4 + 4 ≤ buckets.size)
    (offset : chains.symbolOffset ≤ scan.count) :
    Ensures (ReadThrough chains.segments) (fun next => chains.symbolOffset ≤ next.count)
      (scanBucket file chains buckets scan index) := by
  apply Ensures.bind (wordIn_ensures mapped inside)
  intro value _
  apply ensures_ite
  · intro _
    exact ensures_pure offset
  · intro _
    apply Ensures.bind ensures_reject
    intro _ _
    apply Ensures.bind terminal_ensures
    intro found _
    exact ensures_pure (Nat.le_trans offset (Nat.le_max_left _ _))

/-- The chain words of a parsed GNU table are those of the symbols from `symbolOffset` on. -/
def GnuHashTable.Chained (table : GnuHashTable) : Prop :=
  table.symbolOffset + table.chains.length = table.symbolCount

theorem gnuHashSymbolCount_ensures {address elfClass : Nat} :
    Ensures (ReadThrough segments) GnuHashTable.Chained
      (gnuHashSymbolCount file segments address elfClass) := by
  apply Ensures.bind resolve_ensures
  intro header range
  apply Ensures.bind (unpackIn_ensures range.2.2 (by rw [range.2.1]; decide))
  intro values _
  apply Ensures.bind ensures_reject
  intro _ _
  apply Ensures.bind resolve_ensures
  intro bloomRange bloomResolved
  apply Ensures.bind
  · apply ensures_mapM
    intro index member
    apply wordIn_ensures bloomResolved.2.2
    rw [bloomResolved.2.1]
    exact word_inside (List.mem_range.mp member)
  intro bloom _
  apply Ensures.bind resolve_ensures
  intro bucketRange bucketResolved
  apply Ensures.bind (ensures_lift (fun available _ => trivial))
  intro available _
  apply Ensures.bind
  · let invariant : List Nat → BucketScan → Prop := fun rest scan =>
      (∀ index ∈ rest, index < values.getD 0 0) ∧ values.getD 1 0 ≤ scan.count
    apply @ensures_foldlM _ _ _ _ invariant
    · intro index rest scan holds
      have bound := holds.1 index List.mem_cons_self
      apply (scanBucket_ensures bucketResolved.2.2 _ holds.2).weaken
      · intro next offset
        exact ⟨fun other member => holds.1 other (List.mem_cons_of_mem index member), offset⟩
      · rw [bucketResolved.2.1]
        exact word_inside bound
    · exact ⟨fun index member => List.mem_range.mp member, Nat.le_refl _⟩
  intro scan holds
  apply Ensures.bind ensures_reject
  intro _ _
  apply Ensures.bind (ensures_mapM (fun index _ => word_ensures))
  intro chainValues words
  apply ensures_pure
  have length := (forall₂_range words).1
  have offset : values.getD 1 0 ≤ scan.count := holds.2
  simp only [GnuHashTable.Chained, length]
  omega

/-! ### Program headers and the dynamic section -/

theorem unpack_ensures {good : Access → Prop} {format : List Nat} {offset : Nat} {label : String} :
    Ensures good (fun _ => True) (unpack file format offset label) := by
  apply Ensures.bind read_ensures
  intro bytes _
  exact ensures_pure trivial

/-- What the checks on a program header establish about its segment. -/
def LoadSegment.InFile (file : Bytes) (segment : LoadSegment) : Prop :=
  segment.fileSize ≤ segment.memorySize ∧ segment.offset + segment.fileSize ≤ file.length

theorem parseProgramHeader_ensures {good : Access → Prop} {layout : Layout} {header : Header}
    {index : Nat} :
    Ensures good (fun program => program.segment.InFile file)
      (parseProgramHeader file layout header index) := by
  apply Ensures.bind unpack_ensures
  intro values _
  apply Ensures.bind ensures_reject
  intro _ sizes
  apply Ensures.bind ensures_reject
  intro _ inside
  apply Ensures.bind ensures_reject
  intro _ _
  apply Ensures.bind ensures_reject
  intro _ _
  apply ensures_pure
  refine ⟨Nat.le_of_not_lt sizes, ?_⟩
  omega

theorem parseProgramHeaders_ensures {good : Access → Prop} {layout : Layout} {header : Header} :
    Ensures good (fun programs => ∀ segment ∈ programs.load, segment.InFile file)
      (parseProgramHeaders file layout header) := by
  apply Ensures.bind (ensures_mapM (fun index _ => parseProgramHeader_ensures))
  intro programs parsed
  have checked : ∀ program ∈ programs, program.segment.InFile file := by
    intro program member
    rcases List.getElem?_of_mem member with ⟨index, found⟩
    exact (forall₂_range parsed).2 index program found
  apply Ensures.bind ensures_reject
  intro _ _
  split
  · apply ensures_pure
    intro segment member
    rcases List.mem_map.mp member with ⟨program, loaded, same⟩
    exact same ▸ checked program (List.mem_of_mem_filter loaded)
  · exact ensures_fail _

theorem parseDynamic_ensures {layout : Layout} {programs : ProgramHeaders} :
    Ensures (ReadThrough programs.load) (fun _ => True) (parseDynamic file layout programs) := by
  apply Ensures.bind ensures_reject
  intro _ sizes
  apply Ensures.bind resolve_ensures
  intro range resolved
  apply Ensures.bind ensures_reject
  intro _ _
  apply Ensures.bind
  · let invariant : List Nat → DynamicScan → Prop := fun rest _ =>
      ∀ index ∈ rest, index < programs.dynamic.fileSize / (2 * layout.wordSize)
    apply @ensures_foldlM _ _ _ _ invariant
    · intro index rest scan bounds
      have bound := bounds index List.mem_cons_self
      have others : invariant rest scan := fun other member =>
        bounds other (List.mem_cons_of_mem index member)
      apply Ensures.bind
      · apply unpackIn_ensures resolved.2.2
        rw [resolved.2.1]
        have size : calcSize [layout.wordSize, layout.wordSize] = 2 * layout.wordSize := by
          simp [calcSize]
          omega
        rw [size]
        exact Nat.le_trans (word_inside bound) (Nat.div_mul_le_self _ _)
      · intro entry _
        apply ensures_ite
        · intro _
          apply Ensures.bind ensures_reject
          intro _ _
          exact ensures_pure others
        · intro _
          exact ensures_ite (fun _ => ensures_pure others) (fun _ => ensures_pure others)
    · exact fun index member => List.mem_range.mp member
  intro scan _
  apply Ensures.bind ensures_reject
  intro _ _
  apply Ensures.bind (ensures_forM (fun tag _ => ensures_reject))
  intro _ _
  apply Ensures.bind (ensures_forM (fun tag _ => ensures_reject))
  intro _ _
  apply Ensures.bind ensures_reject
  intro _ _
  exact ensures_pure trivial

/-- The parsed tables fit together: both hash tables speak of the same number of symbols. -/
structure DynamicTables.Consistent (segments : List LoadSegment) (tables : DynamicTables) : Prop where
  strings : tables.strings.Mapped segments
  symbols : tables.symbols.Mapped segments
  sysvCount : ∀ table, tables.sysv = some table → table.symbolCount = tables.symbolCount
  gnuCount : ∀ table, tables.gnu = some table → table.symbolCount = tables.symbolCount
  gnuChained : ∀ table, tables.gnu = some table → table.Chained

/-- A list whose members are all the same has its head for each of them. -/
theorem eq_head_of_dedup {counts : List Nat} (single : counts.dedup.length = 1) :
    ∀ count ∈ counts, count = counts.getD 0 0 := by
  rcases List.length_eq_one_iff.mp single with ⟨only, dedup⟩
  have all : ∀ count ∈ counts, count = only := by
    intro count member
    rw [← List.mem_dedup, dedup] at member
    exact List.mem_singleton.mp member
  cases counts with
  | nil => exact fun count member => absurd member List.not_mem_nil
  | cons head tail =>
      intro count member
      exact (all count member).trans (all head List.mem_cons_self).symm

theorem parseTables_ensures {layout : Layout} {scan : DynamicScan} :
    Ensures (ReadThrough segments)
      (fun tables => tables.Consistent segments ∧
        tables.symbols.size = tables.symbolCount * calcSize layout.symbol)
      (parseTables file layout segments scan) := by
  apply Ensures.bind ensures_reject
  intro _ _
  apply Ensures.bind ensures_reject
  intro _ nonempty
  apply Ensures.bind resolve_ensures
  intro strings stringsResolved
  apply Ensures.bind (readIn_ensures stringsResolved.2.2 (by omega))
  intro first _
  apply Ensures.bind ensures_reject
  intro _ _
  apply Ensures.bind (ensures_optional (fun address _ => sysvHashSymbolCount_ensures))
  intro sysv _
  apply Ensures.bind (ensures_optional (fun address _ => gnuHashSymbolCount_ensures))
  intro gnu gnuParsed
  apply Ensures.bind ensures_reject
  intro _ agree
  apply Ensures.bind ensures_reject
  intro _ _
  apply Ensures.bind resolve_ensures
  intro symbols symbolsResolved
  apply ensures_pure
  have same := eq_head_of_dedup (not_not.mp agree)
  refine ⟨⟨stringsResolved.2.2, symbolsResolved.2.2, ?_, ?_, ?_⟩, symbolsResolved.2.1⟩
  · intro table present
    exact same _ (by simp [show sysv = some table from present])
  · intro table present
    exact same _ (by simp [show gnu = some table from present])
  · intro table present
    rw [show gnu = some table from present] at gnuParsed
    generalize (scan.valuesOf dtGnuHash).head? = address at gnuParsed
    cases gnuParsed with
    | some chained => exact chained

/-! ### Sections and symbols -/

theorem parseSections_ensures {good : Access → Prop} {layout : Layout} {header : Header} :
    Ensures good (fun _ => True) (parseSections file layout header) := by
  apply ensures_ite
  · intro _
    apply Ensures.bind ensures_reject
    intro _ _
    exact ensures_pure trivial
  · intro _
    apply Ensures.bind ensures_reject
    intro _ _
    apply Ensures.bind ensures_reject
    intro _ _
    apply Ensures.bind ensures_reject
    intro _ _
    apply Ensures.bind
    · apply @ensures_mapM _ _ _ _ fun _ _ => True
      intro index _
      apply Ensures.bind unpack_ensures
      intro values _
      apply Ensures.bind ensures_reject
      intro _ _
      exact ensures_pure trivial
    · intro sections _
      apply Ensures.bind ensures_reject
      intro _ _
      exact ensures_pure trivial

theorem crossCheckDynamicSections_ensures {good : Access → Prop} {layout : Layout}
    {sections : List Section} {tables : DynamicTables} :
    Ensures good (fun _ => True) (crossCheckDynamicSections layout segments sections tables) := by
  unfold crossCheckDynamicSections
  split
  · exact ensures_pure trivial
  · apply Ensures.bind ensures_reject
    intro _ _
    split
    · exact ensures_fail _
    · apply Ensures.bind ensures_reject
      intro _ _
      apply Ensures.bind (ensures_lift (fun _ _ => trivial))
      intro symbolOffset _
      apply Ensures.bind ensures_reject
      intro _ _
      apply Ensures.bind (ensures_lift (fun _ _ => trivial))
      intro stringOffset _
      exact ensures_reject.weaken (fun _ _ => trivial)
  · exact ensures_fail _

/-- What the loop over the symbols establishes at an index: entry 0 is null, and a visible symbol carries a
required name. -/
def SymbolChecked (index : Nat) (symbol : DynamicSymbol) : Prop :=
  (index = 0 → symbol = nullSymbol) ∧
    (symbol.ExternallyVisible → index ≠ 0 ∧ symbol.name ∈ requiredExports)

theorem parseSymbol_ensures {layout : Layout} {tables : DynamicTables} {index : Nat}
    (consistent : tables.Consistent segments)
    (size : tables.symbols.size = tables.symbolCount * calcSize layout.symbol)
    (bound : index < tables.symbolCount) :
    Ensures (ReadThrough segments) (SymbolChecked index) (parseSymbol file layout tables index) := by
  apply Ensures.bind
  · apply unpackIn_ensures consistent.symbols
    rw [size]
    exact word_inside bound
  intro values _
  apply ensures_ite
  · intro zero
    apply Ensures.bind ensures_reject
    intro _ _
    apply ensures_pure
    refine ⟨fun _ => rfl, ?_⟩
    intro visible
    exact absurd rfl visible.1
  · intro nonzero
    apply Ensures.bind ensures_reject
    intro _ _
    apply Ensures.bind (readCString_ensures consistent.strings)
    intro name _
    apply Ensures.bind ensures_reject
    intro _ expected
    apply ensures_pure
    refine ⟨fun zero => absurd zero nonzero, ?_⟩
    intro visible
    refine ⟨nonzero, ?_⟩
    by_contra unknown
    exact expected ⟨visible, unknown⟩

/-! ### Exports -/

/-- The checks on a required export that passed. -/
structure ExportChecked (segments : List LoadSegment) (tables : DynamicTables)
    (symbols : List DynamicSymbol) (name : Bytes) (index : Nat) (symbol : DynamicSymbol) : Prop where
  only : occurrences symbols name = [(index, symbol)]
  global : symbol.binding = 1
  default : symbol.visibility = 0
  func : symbol.symbolType = 2
  defined : symbol.sectionIndex ≠ 0
  executable : Executable segments symbol.value
  sysv : ∀ table, tables.sysv = some table → sysvHashReaches table name index = .ok true
  gnu : ∀ table, tables.gnu = some table → gnuHashReaches table name index = .ok true

theorem checkReached_ensures {good : Access → Prop} {Table : Type} {table : Option Table}
    {reaches : Table → Except String Bool} {message : String} :
    Ensures good (fun _ => ∀ present, table = some present → reaches present = .ok true)
      (checkReached table reaches message) := by
  cases table with
  | none => exact ensures_pure (fun present same => by cases same)
  | some table =>
      apply Ensures.bind (ensures_lift (fun reached result => result))
      intro reached result
      apply ensures_reject.weaken
      intro _ passed present same
      cases same
      rw [result, Bool.not_eq_false _ |>.mp passed]

theorem checkExport_ensures {good : Access → Prop} {tables : DynamicTables}
    {symbols : List DynamicSymbol} {name : Bytes} :
    Ensures good
      (fun _ => ∃ index symbol, ExportChecked segments tables symbols name index symbol)
      (checkExport segments tables symbols name) := by
  unfold checkExport
  dsimp only
  split
  · next index symbol only =>
      apply Ensures.bind ensures_reject
      intro _ global
      apply Ensures.bind ensures_reject
      intro _ default
      apply Ensures.bind ensures_reject
      intro _ func
      apply Ensures.bind ensures_reject
      intro _ defined
      apply Ensures.bind ensures_reject
      intro _ executable
      apply Ensures.bind checkReached_ensures
      intro _ sysv
      apply checkReached_ensures.weaken
      intro _ gnu
      refine ⟨index, symbol, only, not_not.mp global, not_not.mp default, not_not.mp func, ?_,
        not_not.mp executable, sysv, gnu⟩
      exact fun undefined => defined (Or.inl undefined)
  · exact ensures_fail _

/-! ### The whole inspection -/

/-- What acceptance establishes about the parsed file. -/
structure Inspected (file : Bytes) (found : Inspection) : Prop where
  inFile : ∀ segment ∈ found.segments, segment.InFile file
  consistent : found.tables.Consistent found.segments
  symbolCount : found.symbols.length = found.tables.symbolCount
  symbols : ∀ index symbol, found.symbols[index]? = some symbol → SymbolChecked index symbol
  exports : ∀ name ∈ requiredExports, ∃ index symbol,
    ExportChecked found.segments found.tables found.symbols name index symbol

theorem inspectSegments_ensures {digest : String} {layout : Layout} {header : Header}
    {programs : ProgramHeaders} (inFile : ∀ segment ∈ programs.load, segment.InFile file) :
    Ensures (ReadThrough programs.load)
      (fun found => found.segments = programs.load ∧ Inspected file found)
      (inspectSegments file digest layout header programs) := by
  apply Ensures.bind parseDynamic_ensures
  intro scan _
  apply Ensures.bind parseTables_ensures
  intro tables parsed
  apply Ensures.bind parseSections_ensures
  intro sections _
  apply Ensures.bind crossCheckDynamicSections_ensures
  intro _ _
  apply Ensures.bind
  · apply ensures_mapM
    intro index member
    exact parseSymbol_ensures parsed.1 parsed.2 (List.mem_range.mp member)
  intro symbols checked
  apply Ensures.bind (ensures_forM (fun name _ => checkExport_ensures))
  intro _ exports
  apply Ensures.bind ensures_reject
  intro _ _
  apply ensures_pure
  have each := forall₂_range checked
  exact ⟨rfl, inFile, parsed.1, each.1, each.2, exports⟩

theorem parseIdent_ensures {good : Access → Prop} : Ensures good (fun _ => True) (parseIdent file) := by
  apply Ensures.bind read_ensures
  intro ident _
  apply Ensures.bind ensures_reject
  intro _ _
  apply Ensures.bind ensures_reject
  intro _ _
  apply Ensures.bind ensures_reject
  intro _ _
  apply Ensures.bind ensures_reject
  intro _ _
  exact ensures_pure trivial

theorem parseHeader_ensures {good : Access → Prop} {layout : Layout} :
    Ensures good (fun _ => True) (parseHeader file layout) := by
  apply Ensures.bind unpack_ensures
  intro values _
  apply Ensures.bind ensures_reject
  intro _ _
  apply Ensures.bind ensures_reject
  intro _ _
  apply Ensures.bind ensures_reject
  intro _ _
  apply Ensures.bind ensures_reject
  intro _ _
  exact ensures_pure trivial

/-- An accepted file: the checks hold, and every noted read goes through the accepted segments. -/
theorem Accepts.inspected {digest : String} {found : Inspection} {accesses : List Access}
    (accepted : Accepts file digest found accesses) :
    Inspected file found ∧ ∀ access ∈ accesses, ReadThrough found.segments access := by
  -- nothing is noted before the segments are known
  have quiet : ∀ {α : Type} {m : Inspect α} {entries : List Access} {result : α} {post : α → Prop},
      Ensures (fun _ => False) post m → m [] = .ok (result, entries) → post result ∧ entries = [] := by
    intro α m entries result post ensured run
    have parts := ensured [] result entries run
    refine ⟨parts.1, List.eq_nil_iff_forall_not_mem.mpr ?_⟩
    intro entry member
    rcases parts.2 entry member with old | noted
    · exact absurd old List.not_mem_nil
    · exact noted
  rcases bind_ok accepted with ⟨layout, entries, ident, rest⟩
  rw [(quiet parseIdent_ensures ident).2] at rest
  rcases bind_ok rest with ⟨header, entries, parsedHeader, rest⟩
  rw [(quiet parseHeader_ensures parsedHeader).2] at rest
  rcases bind_ok rest with ⟨programs, entries, parsedPrograms, rest⟩
  have loaded := quiet parseProgramHeaders_ensures parsedPrograms
  rw [loaded.2] at rest
  have ensured := inspectSegments_ensures loaded.1 [] found accesses rest
  refine ⟨ensured.1.2, ?_⟩
  intro access member
  rw [ensured.1.1]
  rcases ensured.2 access member with old | noted
  · exact absurd old List.not_mem_nil
  · exact noted

end ExitfyCores.Elf
