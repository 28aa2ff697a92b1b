/-
Module: ExitfyCores.Elf.HashTables
Layer: Elf
Purpose: The two loader hash tables as `scripts/verify_artifacts.py` parses and walks them.
Imports: ExitfyCores.Elf.Reader
Trusted boundary: human-reviewed spec
Main exports: SysvHashTable, GnuHashTable, sysvHashSymbolCount, gnuHashSymbolCount, sysvHash, gnuHash,
  sysvHashReaches, gnuHashReaches
Open obligations: none
-/
import ExitfyCores.Elf.Reader

namespace ExitfyCores.Elf

open Checked

/-- `MAX_DYNAMIC_SYMBOLS` -/
def maxDynamicSymbols : Nat := 100000

/-- `MAX_HASH_BUCKETS` -/
def maxHashBuckets : Nat := 100000

/-- `_SysvHashTable` -/
structure SysvHashTable where
  buckets : List Nat
  chains : List Nat
deriving Repr, DecidableEq

/-- `_SysvHashTable.symbol_count` -/
def SysvHashTable.symbolCount (table : SysvHashTable) : Nat := table.chains.length

/-- `_GnuHashTable` -/
structure GnuHashTable where
  symbolCount : Nat
  symbolOffset : Nat
  bloomShift : Nat
  wordBits : Nat
  bloom : List Nat
  buckets : List Nat
  chains : List Nat
deriving Repr, DecidableEq

/-- `_sysv_hash_symbol_count` -/
def sysvHashSymbolCount (file : Bytes) (segments : List LoadSegment) (address : Nat) :
    Inspect SysvHashTable := do
  let header ← resolve segments address 8 "DT_HASH header"
  let counts ← unpackIn file [4, 4] header 0 "DT_HASH header"
  let buckets := counts.getD 0 0
  let chains := counts.getD 1 0
  reject (buckets = 0 ∨ maxHashBuckets < buckets ∨ chains = 0 ∨ maxDynamicSymbols < chains)
    "DT_HASH cardinality is invalid"
  let table ← resolve segments address (8 + 4 * (buckets + chains)) "DT_HASH table"
  let values ← (List.range (buckets + chains)).mapM fun index => do
    let value ← wordIn file 4 table (8 + index * 4) "DT_HASH entry"
    reject (chains ≤ value ∧ value ≠ 0) "DT_HASH entry escapes the dynamic symbol table"
    pure value
  pure { buckets := values.take buckets, chains := values.drop buckets }

/-- Where the chain words of a DT_GNU_HASH table lie. -/
structure GnuChains where
  segments : List LoadSegment
  symbolOffset : Nat
  address : Nat
  maximum : Nat

/-- The word of the chain at `relative`. -/
def GnuChains.word (file : Bytes) (chains : GnuChains) (relative : Nat) : Inspect Nat := do
  let range ← resolve chains.segments (chains.address + relative * 4) 4 "DT_GNU_HASH chain"
  wordIn file 4 range 0 "DT_GNU_HASH chain"

/-- The loop of `terminal`: the end of the chain and the indices on the way that were not known. Every turn
moves on by one index below `maximum`, which bounds the turns. -/
def terminalFrom (file : Bytes) (chains : GnuChains) (terminals : List (Nat × Nat)) :
    Nat → Nat → List Nat → Inspect (Nat × List Nat)
  | 0, _, _ => fail "DT_GNU_HASH chain escapes PT_LOAD"
  | turns + 1, index, path =>
      match terminals.lookup index with
      | some result => pure (result, path)
      | none => do
          reject (index < chains.symbolOffset ∨ chains.maximum ≤ index - chains.symbolOffset)
            "DT_GNU_HASH chain escapes PT_LOAD"
          let value ← chains.word file (index - chains.symbolOffset)
          if value % 2 = 1 then pure (index, index :: path)
          else
            reject (maxDynamicSymbols < index + 1) "DT_GNU_HASH chain exceeds symbol limit"
            terminalFrom file chains terminals turns (index + 1) (index :: path)

/-- `terminal`, with the memo it leaves. -/
def terminal (file : Bytes) (chains : GnuChains) (terminals : List (Nat × Nat)) (start : Nat) :
    Inspect (Nat × List (Nat × Nat)) := do
  let found ← terminalFrom file chains terminals (chains.maximum + 1) start []
  pure (found.1, found.2.map (fun visited => (visited, found.1)) ++ terminals)

/-- What the loop over the buckets carries; `count` is one more than `maximum_terminal`. -/
structure BucketScan where
  values : List Nat
  terminals : List (Nat × Nat)
  count : Nat

/-- The body of the loop over the buckets. -/
def scanBucket (file : Bytes) (chains : GnuChains) (buckets : Resolved) (scan : BucketScan)
    (index : Nat) : Inspect BucketScan := do
  let value ← wordIn file 4 buckets (index * 4) "DT_GNU_HASH bucket"
  if value = 0 then pure { scan with values := scan.values ++ [value] }
  else
    reject (value < chains.symbolOffset ∨ maxDynamicSymbols < value) "DT_GNU_HASH bucket is invalid"
    let found ← terminal file chains scan.terminals value
    pure
      { values := scan.values ++ [value]
        terminals := found.2
        count := max scan.count (found.1 + 1) }

/-- `_gnu_hash_symbol_count` -/
def gnuHashSymbolCount (file : Bytes) (segments : List LoadSegment) (address elfClass : Nat) :
    Inspect GnuHashTable := do
  let header ← resolve segments address 16 "DT_GNU_HASH header"
  let values ← unpackIn file [4, 4, 4, 4] header 0 "DT_GNU_HASH header"
  let buckets := values.getD 0 0
  let symbolOffset := values.getD 1 0
  let bloomSize := values.getD 2 0
  let bloomShift := values.getD 3 0
  reject
    (buckets = 0 ∨ maxHashBuckets < buckets ∨ bloomSize = 0 ∨ bloomSize &&& (bloomSize - 1) ≠ 0 ∨
      maxDynamicSymbols < symbolOffset ∨ 32 ≤ bloomShift)
    "DT_GNU_HASH header is invalid"
  let wordSize := if elfClass = 2 then 8 else 4
  let bloomRange ← resolve segments (address + 16) (bloomSize * wordSize) "DT_GNU_HASH bloom"
  let bloom ← (List.range bloomSize).mapM fun index =>
    wordIn file wordSize bloomRange (index * wordSize) "DT_GNU_HASH bloom"
  let bucketAddress := address + 16 + bloomSize * wordSize
  let bucketRange ← resolve segments bucketAddress (buckets * 4) "DT_GNU_HASH buckets"
  let chainAddress := bucketAddress + buckets * 4
  let available ← lift (mappedAvailable segments chainAddress "DT_GNU_HASH chains")
  let chains : GnuChains :=
    { segments := segments, symbolOffset := symbolOffset, address := chainAddress
      maximum := min (available / 4) maxDynamicSymbols }
  let scan ← (List.range buckets).foldlM (scanBucket file chains bucketRange)
    { values := [], terminals := [], count := symbolOffset }
  reject (scan.count = 0 ∨ maxDynamicSymbols < scan.count) "DT_GNU_HASH cardinality is invalid"
  let chainValues ← (List.range (scan.count - symbolOffset)).mapM fun index => chains.word file index
  pure
    { symbolCount := scan.count
      symbolOffset := symbolOffset
      bloomShift := bloomShift
      wordBits := wordSize * 8
      bloom := bloom
      buckets := scan.values
      chains := chainValues }

/-- One byte of `_sysv_hash`; the last step clears the bits of `high`. -/
def sysvHashStep (value : Nat) (byte : UInt8) : Nat :=
  let value := ((value <<< 4) + byte.toNat) &&& 0xFFFFFFFF
  let high := value &&& 0xF0000000
  if high ≠ 0 then
    let value := value ^^^ (high >>> 24)
    value ^^^ (value &&& high)
  else value

/-- `_sysv_hash` -/
def sysvHash (name : Bytes) : Nat := name.foldl sysvHashStep 0 &&& 0xFFFFFFFF

/-- `_gnu_hash` -/
def gnuHash (name : Bytes) : Nat :=
  name.foldl (fun value byte => (value * 33 + byte.toNat) &&& 0xFFFFFFFF) 5381

/-- The bucket that a name selects. -/
def SysvHashTable.bucket (table : SysvHashTable) (name : Bytes) : Nat :=
  table.buckets.getD (sysvHash name % table.buckets.length) 0

/-- The bucket that a name selects. -/
def GnuHashTable.bucket (table : GnuHashTable) (name : Bytes) : Nat :=
  table.buckets.getD (gnuHash name % table.buckets.length) 0

/-- The bloom filter lets the name through. -/
def GnuHashTable.BloomPasses (table : GnuHashTable) (name : Bytes) : Prop :=
  let word := table.bloom.getD (gnuHash name / table.wordBits % table.bloom.length) 0
  let mask := 1 <<< (gnuHash name % table.wordBits) |||
    1 <<< ((gnuHash name >>> table.bloomShift) % table.wordBits)
  word &&& mask = mask

instance (table : GnuHashTable) (name : Bytes) : Decidable (table.BloomPasses name) :=
  inferInstanceAs (Decidable (_ = _))

/-- The loop of `_sysv_hash_reaches`; the visited indices are distinct and in the table, which bounds the
turns. -/
def sysvWalkReaches (table : SysvHashTable) (target : Nat) : Nat → Nat → List Nat → Except String Bool
  | 0, _, _ => .error "DT_HASH lookup chain is invalid"
  | turns + 1, index, visited =>
      if index = 0 then .ok false
      else if table.symbolCount ≤ index ∨ index ∈ visited then .error "DT_HASH lookup chain is invalid"
      else if index = target then .ok true
      else sysvWalkReaches table target turns (table.chains.getD index 0) (index :: visited)

/-- `_sysv_hash_reaches` -/
def sysvHashReaches (table : SysvHashTable) (name : Bytes) (target : Nat) : Except String Bool :=
  sysvWalkReaches table target (table.symbolCount + 1) (table.bucket name) []

/-- The loop of `_gnu_hash_reaches`, with at most `symbolCount - index` turns. -/
def gnuWalkReaches (table : GnuHashTable) (name : Bytes) (target : Nat) : Nat → Nat → Except String Bool
  | 0, _ => .error "DT_GNU_HASH lookup chain escapes dynamic symbols"
  | turns + 1, index =>
      let chainHash := table.chains.getD (index - table.symbolOffset) 0
      if chainHash ||| 1 = gnuHash name ||| 1 ∧ index = target then .ok true
      else if chainHash % 2 = 1 then .ok false
      else gnuWalkReaches table name target turns (index + 1)

/-- `_gnu_hash_reaches` -/
def gnuHashReaches (table : GnuHashTable) (name : Bytes) (target : Nat) : Except String Bool :=
  if target < table.symbolOffset then .ok false
  else if ¬ table.BloomPasses name then .ok false
  else if table.bucket name < table.symbolOffset then .ok false
  else gnuWalkReaches table name target (table.symbolCount - table.bucket name) (table.bucket name)

end ExitfyCores.Elf
