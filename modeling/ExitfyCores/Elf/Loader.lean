/-
Module: ExitfyCores.Elf.Loader
Layer: Elf
Purpose: What the dynamic linker does with a file that passed: the lookup of a name through each hash table,
  symbol versions ignored, and the memory image that the PT_LOAD segments make. Stated on its own, to be
  compared with what the verifier computes.
Imports: ExitfyCores.Elf.Inspection
Trusted boundary: human-reviewed spec
Main exports: SysvLookup, GnuLookup, LoaderExports, imageByte, lastCover
Open obligations: none
-/
import ExitfyCores.Elf.Inspection

namespace ExitfyCores.Elf

/-! ### Lookup -/

section Lookup

variable (symbols : List DynamicSymbol) (name : Bytes)

/-- The SysV walk from `index` finds `found`: it follows the chain up to index 0 and compares names. -/
inductive SysvFinds (table : SysvHashTable) : Nat → Nat → Prop where
  | here {index : Nat} {symbol : DynamicSymbol} (live : index ≠ 0)
      (read : symbols[index]? = some symbol) (same : symbol.name = name) :
      SysvFinds table index index
  | next {index following found : Nat} {symbol : DynamicSymbol} (live : index ≠ 0)
      (read : symbols[index]? = some symbol) (other : symbol.name ≠ name)
      (chain : table.chains[index]? = some following) (rest : SysvFinds table following found) :
      SysvFinds table index found

/-- The lookup of a name through DT_HASH. -/
def SysvLookup (table : SysvHashTable) (found : Nat) : Prop :=
  SysvFinds symbols name table (table.bucket name) found

/-- The GNU walk from `index` finds `found`: names are compared where the chain word is the hash up to its
low bit, and a word with the low bit set is the last one. -/
inductive GnuFinds (table : GnuHashTable) : Nat → Nat → Prop where
  | here {index word : Nat} {symbol : DynamicSymbol}
      (chain : table.chains[index - table.symbolOffset]? = some word)
      (hash : word ||| 1 = gnuHash name ||| 1) (read : symbols[index]? = some symbol)
      (same : symbol.name = name) :
      GnuFinds table index index
  | next {index word found : Nat} {symbol : DynamicSymbol}
      (chain : table.chains[index - table.symbolOffset]? = some word)
      (read : symbols[index]? = some symbol)
      (other : ¬ (word ||| 1 = gnuHash name ||| 1 ∧ symbol.name = name)) (goesOn : word % 2 ≠ 1)
      (rest : GnuFinds table (index + 1) found) :
      GnuFinds table index found

/-- The lookup of a name through DT_GNU_HASH: the bloom filter, then the bucket, where 0 is an empty one. -/
def GnuLookup (table : GnuHashTable) (found : Nat) : Prop :=
  table.BloomPasses name ∧ table.bucket name ≠ 0 ∧
    GnuFinds symbols name table (table.bucket name) found

end Lookup

/-- `index` is the one symbol of that name, global, a function, of default visibility, and its value lies in
the file bytes of an executable PT_LOAD. -/
structure UniqueExport (found : Inspection) (name : Bytes) (index : Nat) (symbol : DynamicSymbol) :
    Prop where
  named : symbol.name = name
  global : symbol.binding = 1
  func : symbol.symbolType = 2
  default : symbol.visibility = 0
  executable : Executable found.segments symbol.value
  unique : ∀ other otherSymbol, found.symbols[other]? = some otherSymbol →
    otherSymbol.name = name → other = index

/-- A lookup finds a visible definition for the required names only, and there the unique export. -/
def ExportsExactly (found : Inspection) (lookup : Bytes → Nat → Prop) : Prop :=
  ∀ name,
    ((∃ index symbol, lookup name index ∧ found.symbols[index]? = some symbol ∧
      symbol.ExternallyVisible) ↔ name ∈ requiredExports) ∧
    ∀ index symbol, lookup name index → found.symbols[index]? = some symbol →
      symbol.ExternallyVisible → UniqueExport found name index symbol

/-- The loader sees exactly the two exports through every hash table of the file. -/
def LoaderExports (found : Inspection) : Prop :=
  (∀ table, found.tables.sysv = some table →
    ExportsExactly found fun name => SysvLookup found.symbols name table) ∧
  ∀ table, found.tables.gnu = some table →
    ExportsExactly found fun name => GnuLookup found.symbols name table

/-! ### Memory image -/

/-- The memory range of the segment contains the address. -/
def LoadSegment.Covers (segment : LoadSegment) (address : Nat) : Prop :=
  segment.virtualAddress ≤ address ∧ address < segment.virtualAddress + segment.memorySize

instance (segment : LoadSegment) (address : Nat) : Decidable (segment.Covers address) :=
  inferInstanceAs (Decidable (_ ∧ _))

/-- What the segment puts at an address it covers: its file byte, or zero behind its file bytes. -/
def LoadSegment.byteAt (segment : LoadSegment) (file : Bytes) (address : Nat) : Option UInt8 :=
  if address < segment.virtualAddress + segment.fileSize then file[segment.offsetOf address]?
  else some 0

/-- The last segment in table order that covers the address. -/
def lastCover (segments : List LoadSegment) (address : Nat) : Option LoadSegment :=
  segments.reverse.find? fun segment => segment.Covers address

/-- The memory image: the segments are laid down in table order, a later one over an earlier one. -/
def imageByte (segments : List LoadSegment) (file : Bytes) (address : Nat) : Option UInt8 :=
  segments.foldl
    (fun byte segment => if segment.Covers address then segment.byteAt file address else byte) none

end ExitfyCores.Elf
