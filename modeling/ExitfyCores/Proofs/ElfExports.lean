/-
Module: ExitfyCores.Proofs.ElfExports
Layer: Proofs
Purpose: The verifier's walk of the hash tables against the loader's lookup: in an accepted file the loader
  sees exactly the two exports, unless a required name selects an empty bucket of DT_GNU_HASH, which the
  verifier walks where the symbol offset is 0.
Imports: ExitfyCores.Elf.Loader, ExitfyCores.Proofs.ElfInspection
Trusted boundary: none
Main exports: Inspected.uniqueExport, sysvWalkReaches_finds, gnuWalkReaches_finds, loaderExports_iff
Open obligations: none
-/
import ExitfyCores.Elf.Loader
import ExitfyCores.Proofs.ElfInspection

namespace ExitfyCores.Elf

/-! ### Occurrences of a name -/

theorem mem_occurrences {symbols : List DynamicSymbol} {name : Bytes} {index : Nat}
    {symbol : DynamicSymbol} :
    (index, symbol) ∈ occurrences symbols name ↔
      symbols[index]? = some symbol ∧ index ≠ 0 ∧ symbol.name = name := by
  have paired : (index, symbol) ∈ (List.range symbols.length).zip symbols ↔
      symbols[index]? = some symbol := by
    rw [List.mem_iff_getElem?]
    constructor
    · intro member
      rcases member with ⟨position, found⟩
      rcases List.getElem?_zip_eq_some.mp found with ⟨atPosition, value⟩
      rcases List.getElem?_eq_some_iff.mp atPosition with ⟨_, same⟩
      rw [List.getElem_range] at same
      rw [← show position = index from same]
      exact value
    · intro value
      refine ⟨index, List.getElem?_zip_eq_some.mpr ⟨?_, value⟩⟩
      rcases List.getElem?_eq_some_iff.mp value with ⟨bound, _⟩
      exact List.getElem?_range bound
  simp [occurrences, paired]

theorem ne_nil_of_mem_requiredExports {name : Bytes} (required : name ∈ requiredExports) :
    name ≠ [] := by
  intro empty
  rw [empty] at required
  revert required
  decide

variable {file : Bytes} {found : Inspection}

/-- The symbol that a required export was checked at is the only one of its name. -/
theorem Inspected.uniqueExport (inspected : Inspected file found) {name : Bytes}
    (required : name ∈ requiredExports) {index : Nat} {symbol : DynamicSymbol}
    (checked : ExportChecked found.segments found.tables found.symbols name index symbol) :
    found.symbols[index]? = some symbol ∧ index ≠ 0 ∧ UniqueExport found name index symbol := by
  have here := mem_occurrences.mp (checked.only ▸ List.mem_singleton_self (index, symbol))
  refine ⟨here.1, here.2.1, here.2.2, checked.global, checked.func, checked.default,
    checked.executable, ?_⟩
  intro other otherSymbol read named
  by_cases null : other = 0
  · have empty := (inspected.symbols other otherSymbol read).1 null
    rw [empty] at named
    exact absurd named.symm (ne_nil_of_mem_requiredExports required)
  · have member := mem_occurrences.mpr ⟨read, null, named⟩
    rw [checked.only] at member
    exact congrArg Prod.fst (List.mem_singleton.mp member)

/-! ### What a lookup can find -/

section Lookup

variable {symbols : List DynamicSymbol} {name : Bytes}

theorem SysvFinds.named {table : SysvHashTable} {start index : Nat}
    (finds : SysvFinds symbols name table start index) :
    ∃ symbol, symbols[index]? = some symbol ∧ symbol.name = name := by
  induction finds with
  | here live read same => exact ⟨_, read, same⟩
  | next live read other chain rest ih => exact ih

theorem GnuFinds.named {table : GnuHashTable} {start index : Nat}
    (finds : GnuFinds symbols name table start index) :
    ∃ symbol, symbols[index]? = some symbol ∧ symbol.name = name := by
  induction finds with
  | here chain hash read same => exact ⟨_, read, same⟩
  | next chain read other goesOn rest ih => exact ih

/-- Where the verifier's SysV walk reaches the only symbol of a name, the loader's walk finds it. -/
theorem sysvWalkReaches_finds {table : SysvHashTable} {target : Nat} {symbol : DynamicSymbol}
    (count : symbols.length = table.symbolCount) (read : symbols[target]? = some symbol)
    (named : symbol.name = name)
    (unique : ∀ other otherSymbol, symbols[other]? = some otherSymbol →
      otherSymbol.name = name → other = target)
    {turns index : Nat} {visited : List Nat}
    (reaches : sysvWalkReaches table target turns index visited = .ok true) :
    SysvFinds symbols name table index target := by
  induction turns generalizing index visited with
  | zero => cases reaches
  | succ turns ih =>
      unfold sysvWalkReaches at reaches
      split at reaches
      · cases reaches
      · next live =>
          split at reaches
          · cases reaches
          · next inside =>
              have bound : index < table.symbolCount :=
                Nat.lt_of_not_le fun outside => inside (Or.inl outside)
              split at reaches
              · next same =>
                  rw [same] at live ⊢
                  exact .here live read named
              · next other =>
                  have chain : table.chains[index]? = some (table.chains.getD index 0) := by
                    rw [List.getD_eq_getElem?_getD, List.getElem?_eq_getElem bound]
                    rfl
                  have here := List.getElem?_eq_getElem (count.symm ▸ bound : index < symbols.length)
                  apply SysvFinds.next live here _ chain (ih reaches)
                  intro same
                  exact other (unique index _ here same)

/-- Where the verifier's GNU walk reaches the only symbol of a name, the loader's walk finds it. -/
theorem gnuWalkReaches_finds {table : GnuHashTable} {target : Nat} {symbol : DynamicSymbol}
    (count : symbols.length = table.symbolCount) (chained : table.Chained)
    (read : symbols[target]? = some symbol) (named : symbol.name = name)
    (unique : ∀ other otherSymbol, symbols[other]? = some otherSymbol →
      otherSymbol.name = name → other = target)
    {turns index : Nat} (offset : table.symbolOffset ≤ index)
    (bounded : index + turns ≤ table.symbolCount)
    (reaches : gnuWalkReaches table name target turns index = .ok true) :
    GnuFinds symbols name table index target := by
  induction turns generalizing index with
  | zero => cases reaches
  | succ turns ih =>
      unfold gnuWalkReaches at reaches
      unfold GnuHashTable.Chained at chained
      have inChain : index - table.symbolOffset < table.chains.length := by omega
      have chain : table.chains[index - table.symbolOffset]? =
          some (table.chains.getD (index - table.symbolOffset) 0) := by
        rw [List.getD_eq_getElem?_getD, List.getElem?_eq_getElem inChain]
        rfl
      dsimp only at reaches
      split at reaches
      · next hit =>
          rcases hit with ⟨hash, same⟩
          rw [same] at chain hash ⊢
          exact .here chain hash read named
      · next miss =>
          split at reaches
          · cases reaches
          · next goesOn =>
              have here := List.getElem?_eq_getElem (show index < symbols.length by omega)
              apply GnuFinds.next chain here _ goesOn (ih (by omega) (by omega) reaches)
              intro same
              exact miss ⟨same.1, unique index _ here same.2⟩

end Lookup

/-! ### The loader's view of an accepted file -/

/-- A lookup that finds symbols of the looked up name, and finds the required ones, sees exactly the two
exports. -/
theorem Inspected.exportsExactly (inspected : Inspected file found) {lookup : Bytes → Nat → Prop}
    (named : ∀ name index, lookup name index →
      ∃ symbol, found.symbols[index]? = some symbol ∧ symbol.name = name)
    (finds : ∀ name ∈ requiredExports, ∀ index symbol,
      ExportChecked found.segments found.tables found.symbols name index symbol → lookup name index) :
    ExportsExactly found lookup := by
  have required : ∀ name index symbol, lookup name index → found.symbols[index]? = some symbol →
      symbol.ExternallyVisible → name ∈ requiredExports := by
    intro name index symbol hit read visible
    rcases named name index hit with ⟨other, readOther, same⟩
    cases read.symm.trans readOther
    exact same ▸ ((inspected.symbols index symbol read).2 visible).2
  intro name
  refine ⟨⟨?_, ?_⟩, ?_⟩
  · intro hit
    rcases hit with ⟨index, symbol, hit, read, visible⟩
    exact required name index symbol hit read visible
  · intro member
    rcases inspected.exports name member with ⟨index, symbol, checked⟩
    have unique := inspected.uniqueExport member checked
    refine ⟨index, symbol, finds name member index symbol checked, unique.1, ?_⟩
    refine ⟨?_, Or.inl checked.default, checked.defined⟩
    rw [checked.global]
    decide
  · intro index symbol hit read visible
    have member := required name index symbol hit read visible
    rcases inspected.exports name member with ⟨target, targetSymbol, checked⟩
    have unique := (inspected.uniqueExport member checked).2.2
    rcases named name index hit with ⟨other, readOther, same⟩
    cases read.symm.trans readOther
    have sameIndex := unique.unique index symbol read same
    rw [sameIndex] at read ⊢
    cases read.symm.trans (inspected.uniqueExport member checked).1
    exact unique

/-- DT_HASH always gives the loader the two exports. -/
theorem Inspected.sysvExports (inspected : Inspected file found) {table : SysvHashTable}
    (present : found.tables.sysv = some table) :
    ExportsExactly found fun name => SysvLookup found.symbols name table := by
  apply inspected.exportsExactly
  · intro name index hit
    exact SysvFinds.named hit
  · intro name member index symbol checked
    have unique := inspected.uniqueExport member checked
    have count := inspected.symbolCount.trans (inspected.consistent.sysvCount table present).symm
    exact sysvWalkReaches_finds count unique.1 unique.2.2.named unique.2.2.unique
      (checked.sysv table present)

/-- DT_GNU_HASH gives the loader the two exports where neither selects an empty bucket. -/
theorem Inspected.gnuExports (inspected : Inspected file found) {table : GnuHashTable}
    (present : found.tables.gnu = some table)
    (occupied : ∀ name ∈ requiredExports, table.bucket name ≠ 0) :
    ExportsExactly found fun name => GnuLookup found.symbols name table := by
  apply inspected.exportsExactly
  · intro name index hit
    exact GnuFinds.named hit.2.2
  · intro name member index symbol checked
    have unique := inspected.uniqueExport member checked
    have count := inspected.symbolCount.trans (inspected.consistent.gnuCount table present).symm
    have reaches := checked.gnu table present
    unfold gnuHashReaches at reaches
    split at reaches
    · cases reaches
    split at reaches
    · cases reaches
    · next passes =>
        split at reaches
        · cases reaches
        · next offset =>
            refine ⟨not_not.mp passes, occupied name member, ?_⟩
            have chained := inspected.consistent.gnuChained table present
            have turns : table.bucket name + (table.symbolCount - table.bucket name) ≤
                table.symbolCount := by
              by_contra beyond
              -- a bucket behind the table leaves no turn
              rw [Nat.sub_eq_zero_of_le (by omega)] at reaches
              cases reaches
            exact gnuWalkReaches_finds count chained unique.1 unique.2.2.named unique.2.2.unique
              (Nat.le_of_not_lt offset) turns reaches

/-- A loader that sees the two exports never meets an empty bucket for them. -/
theorem LoaderExports.occupied (exports : LoaderExports found) {table : GnuHashTable}
    (present : found.tables.gnu = some table) {name : Bytes} (member : name ∈ requiredExports) :
    table.bucket name ≠ 0 := by
  rcases (exports.2 table present name).1.mpr member with ⟨index, symbol, hit, _⟩
  exact hit.2.1

/-- The loader sees exactly the two exports of an accepted file if and only if no required name selects an
empty bucket of DT_GNU_HASH. -/
theorem loaderExports_iff {digest : String} {accesses : List Access}
    (accepted : Accepts file digest found accesses) :
    LoaderExports found ↔
      ∀ table, found.tables.gnu = some table → ∀ name ∈ requiredExports, table.bucket name ≠ 0 := by
  have inspected := accepted.inspected.1
  constructor
  · intro exports table present name member
    exact exports.occupied present member
  · intro occupied
    exact ⟨fun table present => inspected.sysvExports present,
      fun table present => inspected.gnuExports present (occupied table present)⟩

/-! ### Two small files -/

/-- A little-endian field. -/
def encodeField : Nat → Nat → Bytes
  | 0, _ => []
  | width + 1, value => UInt8.ofNat (value % 256) :: encodeField width (value / 256)

/-- The fields of a `struct`, each with its width. -/
def encodeFields (values : List (Nat × Nat)) : Bytes :=
  values.flatMap fun value => encodeField value.1 value.2

/-- A program header of ELF64 with alignment 1. -/
def encodeProgram (type flags offset address fileSize memorySize : Nat) : Bytes :=
  encodeFields [(4, type), (4, flags), (8, offset), (8, address), (8, address), (8, fileSize),
    (8, memorySize), (8, 1)]

/-- The names of a symbol table with the two exports. -/
def exportNames : Bytes := [0] ++ lit "StartCore" ++ [0] ++ lit "StopCore" ++ [0]

/-- A sectionless ELF64 file in one executable segment: headers, PT_DYNAMIC, names, symbols, DT_GNU_HASH.
Further PT_LOAD headers may follow the first. -/
def encodeElf (further : List Bytes) (gnuHashTable : Bytes) : Bytes :=
  let programs := 2 + further.length
  let dynamic := 64 + 56 * programs
  let total := dynamic + 188 + gnuHashTable.length
  [0x7F, 0x45, 0x4C, 0x46, 2, 1, 1, 0, 0, 0, 0, 0, 0, 0, 0, 0] ++
    encodeFields [(2, 3), (2, 183), (4, 1), (8, 0), (8, 64), (8, 0), (4, 0), (2, 64), (2, 56),
      (2, programs), (2, 0), (2, 0), (2, 0)] ++
    encodeProgram 1 5 0 0 total total ++ further.flatten ++
    encodeProgram 2 4 dynamic dynamic 96 96 ++
    encodeFields [(8, 6), (8, dynamic + 116), (8, 5), (8, dynamic + 96), (8, 10), (8, 20), (8, 11), (8, 24),
      (8, 0x6FFFFEF5), (8, dynamic + 188), (8, 0), (8, 0)] ++
    exportNames ++
    encodeFields [(24, 0), (4, 1), (1, 18), (1, 0), (2, 1), (8, 0), (8, 0),
      (4, 11), (1, 18), (1, 0), (2, 1), (8, 0), (8, 0)] ++
    gnuHashTable

/-- A GNU table whose one bucket leads to the two exports. -/
def plainGnuTable : Bytes :=
  encodeFields [(4, 1), (4, 1), (4, 1), (4, 0), (8, 2 ^ 64 - 1), (4, 1),
    (4, gnuHash (lit "StartCore")), (4, gnuHash (lit "StopCore") ||| 1)]

/-- A GNU table of symbol offset 0: both exports select the bucket 0, which is empty for a loader, and the
other bucket keeps the symbols in the table. -/
def emptyBucketGnuTable : Bytes :=
  encodeFields [(4, 2), (4, 0), (4, 1), (4, 0), (8, 2 ^ 64 - 1), (4, 0), (4, 2), (4, 0),
    (4, gnuHash (lit "StartCore")), (4, gnuHash (lit "StopCore") ||| 1)]

/-- A run that can be evaluated gives an accepted file. -/
theorem accepts_of_check {digest : String} {check : Inspection → List Access → Bool}
    (passes : (match inspectReader file digest [] with
      | .ok result => check result.1 result.2
      | .error _ => false) = true) :
    ∃ found accesses, Accepts file digest found accesses ∧ check found accesses = true := by
  split at passes
  · next result ran => exact ⟨result.1, result.2, ran, passes⟩
  · cases passes

/-- The two exports of the plain file, through the general theorem. -/
theorem loaderExports_plainGnuTable :
    ∃ found accesses, Accepts (encodeElf [] plainGnuTable) "" found accesses ∧ LoaderExports found := by
  have run := @accepts_of_check (encodeElf [] plainGnuTable) ""
    (fun found _ => found.tables.gnu.all fun table =>
      requiredExports.all fun name => table.bucket name ≠ 0) (by decide +kernel)
  rcases run with ⟨found, accesses, accepted, occupied⟩
  refine ⟨found, accesses, accepted, (loaderExports_iff accepted).mpr ?_⟩
  intro table present name member
  rw [present, Option.all_some, List.all_eq_true] at occupied
  simpa using occupied name member

/-- An accepted file whose exports no loader finds. -/
theorem not_loaderExports_emptyBucket :
    ∃ found accesses, Accepts (encodeElf [] emptyBucketGnuTable) "" found accesses ∧
      ¬ LoaderExports found := by
  have run := @accepts_of_check (encodeElf [] emptyBucketGnuTable) ""
    (fun found _ => found.tables.gnu.any fun table => table.bucket (lit "StartCore") = 0)
    (by decide +kernel)
  rcases run with ⟨found, accesses, accepted, empty⟩
  refine ⟨found, accesses, accepted, ?_⟩
  intro exports
  cases present : found.tables.gnu with
  | none =>
      rw [present] at empty
      cases empty
  | some table =>
      rw [present] at empty
      have member : lit "StartCore" ∈ requiredExports := List.mem_cons_self
      exact exports.occupied present member (by simpa using empty)

end ExitfyCores.Elf
