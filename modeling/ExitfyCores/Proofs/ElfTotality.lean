/-
Module: ExitfyCores.Proofs.ElfTotality
Layer: Proofs
Purpose: `_inspect_reader` never leaves the domain of an operation: it returns or raises `ValueError`, and all its reads
  lie inside the file.
Imports: ExitfyCores.Elf.Domain, Mathlib.Data.List.Perm.Subperm
Trusted boundary: none
Main exports: FileRead.Inside, agrees_read, agrees_readCString, agrees_terminalFrom, agrees_sysvHashReaches,
  agrees_gnuHashReaches, agrees_inspectReader, inspectionTotal
Open obligations: none
-/
import ExitfyCores.Elf.Domain
import Mathlib.Data.List.Perm.Subperm

namespace ExitfyCores.Elf.Domain

open Guarded

/-- The read lies inside the file. -/
def FileRead.Inside (file : Bytes) (fileRead : FileRead) : Prop := fileRead.offset + fileRead.size ≤ file.length

variable {file : Bytes}

/-! ### Guarded operations within their domains -/

theorem item_eq {α : Type} {items : List α} {position : Nat} (inside : position < items.length) (default : α) :
    item items position = pure (items.getD position default) := pick_eq inside default

theorem item_number {items : List Nat} {position : Nat} (inside : position < items.length) :
    item items position = pure (items.getD position 0) := item_eq inside 0

theorem modulo_eq {value divisor : Nat} (nonzero : divisor ≠ 0) : modulo value divisor = pure (value % divisor) := by
  rw [modulo, faultIf_false nonzero, pure_bind]

theorem quotient_eq {value divisor : Nat} (nonzero : divisor ≠ 0) : quotient value divisor = pure (value / divisor) := by
  rw [quotient, faultIf_false nonzero, pure_bind]

theorem shiftLeft_eq (value count : Nat) : shiftLeft value count = pure (value <<< count) := by
  rw [shiftLeft, faultIf_false (by omega), pure_bind]
  rfl

theorem shiftRight_eq (value count : Nat) : shiftRight value count = pure (value >>> count) := by
  rw [shiftRight, faultIf_false (by omega), pure_bind]
  rfl

theorem length_fields (format : List Nat) (bytes : Bytes) : (fields format bytes).length = format.length := by
  induction format generalizing bytes with
  | nil => rfl
  | cons width widths ih => simp [fields, ih]

/-! ### Reads -/

/-- The loop of `read` inside the file: it ends, every turn reads inside the file, and the pieces are the range. -/
theorem run_readChunks (label : String) {turns current remaining : Nat} (chunks : Bytes) (enough : remaining ≤ turns)
    (inside : current + remaining ≤ file.length) (notes : List FileRead) :
    ∃ notes', run (readChunks file label turns current remaining chunks) notes =
        (.ok (chunks ++ (file.drop current).take remaining), notes') ∧
      ∀ note ∈ notes', note ∈ notes ∨ note.Inside file := by
  induction turns generalizing current remaining chunks notes with
  | zero =>
      have none : remaining = 0 := Nat.le_zero.mp enough
      subst none
      exact ⟨notes, by simp [readChunks], fun _ member => .inl member⟩
  | succ turns ih =>
      by_cases none : remaining = 0
      · subst none
        exact ⟨notes, by simp [readChunks], fun _ member => .inl member⟩
      · have size : ((file.drop current).take (min remaining readChunk)).length = min remaining readChunk := by
          rw [List.length_take, List.length_drop]
          omega
        have positive : 0 < min remaining readChunk := by
          have chunk : 0 < readChunk := by decide
          omega
        have nonempty : (file.drop current).take (min remaining readChunk) ≠ [] := by
          intro empty
          rw [empty] at size
          simp at size
          omega
        obtain ⟨notes', ran, noted⟩ := @ih (current + min remaining readChunk) (remaining - min remaining readChunk)
          (chunks ++ (file.drop current).take (min remaining readChunk)) (by omega) (by omega)
          ({ offset := current, size := min remaining readChunk } :: notes)
        refine ⟨notes', ?_, fun note member => ?_⟩
        · have pieces : chunks ++ (file.drop current).take (min remaining readChunk) ++
              (file.drop (current + min remaining readChunk)).take (remaining - min remaining readChunk) =
              chunks ++ (file.drop current).take remaining := by
            rw [List.append_assoc, ← List.drop_drop, ← List.take_add, Nat.add_sub_cancel' (Nat.min_le_left _ _)]
          rw [readChunks, if_neg none, pread, bind_assoc, run_bind, run_record]
          simp only [pure_bind, check, if_neg nonempty, size]
          rw [ran, pieces]
        · rcases noted note member with inNotes | inside'
          · rcases List.mem_cons.mp inNotes with same | earlier
            · subst same
              exact .inr (by unfold FileRead.Inside; simp only; omega)
            · exact .inl earlier
          · exact .inr inside'

theorem agrees_read {offset size : Nat} {label label' : String} :
    Agrees (FileRead.Inside file) (fun bytes => bytes.length = size) (read file offset size label)
      (Elf.read file offset size label') := by
  refine Agrees.bind (agrees_check Iff.rfl) fun _ inside => ?_
  rw [not_or, Nat.not_lt, Nat.not_lt] at inside
  intro notes entries
  obtain ⟨notes', ran, noted⟩ := @run_readChunks file label size offset size [] (Nat.le_refl _) (by omega) notes
  rw [ran]
  refine ⟨noted, rfl, ?_⟩
  simp only [List.length_take, List.length_drop]
  omega

theorem agrees_structUnpack {format : List Nat} {bytes : Bytes} (size : bytes.length = calcSize format) :
    Agrees (FileRead.Inside file) (fun values => values.length = format.length) (structUnpack format bytes)
      (pure (fields format bytes) : Inspect (List Nat)) := by
  rw [structUnpack, faultIf_false (not_not.mpr size), pure_bind]
  exact agrees_pure (length_fields format bytes)

theorem agrees_unpack {format : List Nat} {offset : Nat} {label label' : String} :
    Agrees (FileRead.Inside file) (fun values => values.length = format.length) (unpack file format offset label)
      (Elf.unpack file format offset label') :=
  agrees_read.bind fun _ size => agrees_structUnpack size

theorem agrees_readIn {range : Resolved} {start size : Nat} {label label' : String} :
    Agrees (FileRead.Inside file) (fun bytes => bytes.length = size) (read file (range.offset + start) size label)
      (readIn file range start size label') :=
  agrees_note agrees_read

theorem agrees_unpackIn {format : List Nat} {range : Resolved} {start : Nat} {label label' : String} :
    Agrees (FileRead.Inside file) (fun values => values.length = format.length)
      (unpack file format (range.offset + start) label) (unpackIn file format range start label') :=
  agrees_readIn.bind fun _ size => agrees_structUnpack size

theorem agrees_word {width : Nat} {range : Resolved} {start : Nat} {label label' : String} :
    Agrees (FileRead.Inside file) (fun _ => True) (word file width (range.offset + start) label)
      (wordIn file width range start label') := by
  rw [word, unpack, bind_assoc]
  refine agrees_readIn.bind fun bytes size => ?_
  have size' : bytes.length = calcSize [width] := size
  rw [structUnpack, faultIf_false (not_not.mpr size'), pure_bind, pure_bind, item_eq (by simp [length_fields]) 0]
  have whole : bytes.take width = bytes := List.take_of_length_le (by simp [size, calcSize])
  simp only [fields, whole]
  exact agrees_pure trivial

theorem agrees_resolve {segments : List LoadSegment} {address size : Nat} {label : String} :
    Agrees (FileRead.Inside file) (fun _ => True) (resolve segments address size label)
      (Elf.resolve segments address size label) :=
  (agrees_ofExcept fun _ _ => trivial).bind fun _ _ => agrees_pure trivial

theorem agrees_checkedEnd {start size limit : Nat} {label : String} :
    Agrees (FileRead.Inside file) (fun _ => True) (checkedEnd start size limit label)
      (Elf.checkedEnd start size limit label) :=
  (agrees_check Iff.rfl).weaken fun _ _ => trivial

/-! ### Names -/

/-- The loop over the pieces of a name ends, since every piece has a byte. -/
theorem agrees_readCStringFrom {strings : Resolved} {turns cursor remaining : Nat} (value : Bytes)
    (enough : remaining ≤ turns) :
    Agrees (FileRead.Inside file) (fun _ => True) (readCStringFrom file turns (strings.offset + cursor) remaining value)
      (Elf.readCStringFrom file strings (turns + 1) cursor remaining value) := by
  induction turns generalizing cursor remaining value with
  | zero =>
      have none : remaining = 0 := Nat.le_zero.mp enough
      subst none
      rw [readCStringFrom, if_pos rfl, Elf.readCStringFrom]
      exact agrees_stop rfl
  | succ turns ih =>
      rw [readCStringFrom, Elf.readCStringFrom]
      by_cases none : remaining = 0
      · rw [if_pos none]
        exact agrees_stop none
      · rw [if_neg none, reject_eq_pure none, pure_bind]
        refine agrees_readIn.bind fun chunk size => agrees_ite (fun _ => agrees_pure trivial) fun _ => ?_
        rw [Nat.add_assoc]
        exact ih (value ++ chunk) (by omega)

theorem agrees_readCString {strings : Resolved} {nameOffset : Nat} :
    Agrees (FileRead.Inside file) (fun _ => True) (readCString file strings nameOffset)
      (Elf.readCString file strings nameOffset) :=
  (agrees_check Iff.rfl).bind fun _ _ => (agrees_readCStringFrom [] (Nat.le_refl _)).bind fun _ _ =>
    (agrees_check Iff.rfl).bind fun _ _ => agrees_pure trivial

/-! ### The DT_HASH table -/

/-- A table with buckets. -/
def SysvSound (table : SysvHashTable) : Prop := table.buckets ≠ []

theorem agrees_sysvHashSymbolCount {segments : List LoadSegment} {address : Nat} :
    Agrees (FileRead.Inside file) SysvSound (sysvHashSymbolCount file segments address)
      (Elf.sysvHashSymbolCount file segments address) := by
  refine agrees_resolve.bind fun header _ => ?_
  refine (@agrees_unpackIn file [4, 4] header 0 _ _).bind fun counts length => ?_
  have two : counts.length = 2 := length
  rw [item_number (by omega : 0 < counts.length), pure_bind, item_number (by omega : 1 < counts.length), pure_bind]
  refine (agrees_check Iff.rfl).bind fun _ sizes => agrees_resolve.bind fun table _ => ?_
  have turn : ∀ index ∈ List.range (counts.getD 0 0 + counts.getD 1 0), Agrees (FileRead.Inside file)
      (fun _ => True)
      (do
        let value ← word file 4 (table.offset + (8 + index * 4)) "DT_HASH entry"
        check (counts.getD 1 0 ≤ value ∧ value ≠ 0) "DT_HASH entry escapes the dynamic symbol table"
        pure value)
      (do
        let value ← wordIn file 4 table (8 + index * 4) "DT_HASH entry"
        Checked.reject (counts.getD 1 0 ≤ value ∧ value ≠ 0) "DT_HASH entry escapes the dynamic symbol table"
        pure value) := fun index _ =>
    agrees_word.bind fun value _ => (agrees_check Iff.rfl).bind fun _ _ => agrees_pure trivial
  refine (agrees_mapM turn).bind fun values all => agrees_pure ?_
  have length := all.length_eq
  rw [List.length_range] at length
  intro empty
  have none := congrArg List.length empty
  simp only [List.length_take, List.length_nil] at none
  omega

theorem nodup_below {visited : List Nat} {bound : Nat} (distinct : visited.Nodup) (below : ∀ index ∈ visited, index < bound)
    (positive : ∀ index ∈ visited, index ≠ 0) (nonzero : 0 < bound) : visited.length < bound := by
  have all : (0 :: visited).Nodup := List.nodup_cons.mpr ⟨fun member => positive 0 member rfl, distinct⟩
  have inside : 0 :: visited ⊆ List.range bound := by
    intro index member
    rcases List.mem_cons.mp member with zero | later
    · exact List.mem_range.mpr (zero ▸ nonzero)
    · exact List.mem_range.mpr (below index later)
  have shorter := (all.subperm inside).length_le
  simp only [List.length_cons, List.length_range] at shorter
  exact shorter

/-- The walk through the chains ends: the indices that it visits are different symbols. -/
theorem agrees_sysvWalkReaches {table : SysvHashTable} {target turns index : Nat} {visited : List Nat}
    (distinct : visited.Nodup) (below : ∀ index ∈ visited, index < table.symbolCount)
    (positive : ∀ index ∈ visited, index ≠ 0) (left : table.symbolCount ≤ visited.length + turns) :
    Agrees (FileRead.Inside file) (fun _ => True) (sysvWalkReaches table target turns index visited)
      (Checked.lift (Elf.sysvWalkReaches table target (turns + 1) index visited) : Inspect Bool) := by
  induction turns generalizing index visited with
  | zero =>
      rw [sysvWalkReaches, Elf.sysvWalkReaches, lift_ite, lift_ite, lift_ite]
      refine agrees_ite (fun _ => agrees_pure trivial) fun nonzero => ?_
      by_cases invalid : table.symbolCount ≤ index ∨ index ∈ visited
      · rw [if_pos invalid, check, if_pos invalid]
        exact agrees_fail
      · have shorter := @nodup_below (index :: visited) table.symbolCount
          (List.nodup_cons.mpr ⟨fun member => invalid (.inr member), distinct⟩)
          (List.forall_mem_cons.mpr ⟨by omega, below⟩) (List.forall_mem_cons.mpr ⟨nonzero, positive⟩) (by omega)
        simp only [List.length_cons] at shorter
        omega
  | succ turns ih =>
      rw [sysvWalkReaches, Elf.sysvWalkReaches, lift_ite, lift_ite, lift_ite]
      refine agrees_ite (fun _ => agrees_pure trivial) fun nonzero => ?_
      by_cases invalid : table.symbolCount ≤ index ∨ index ∈ visited
      · rw [if_pos invalid, check, if_pos invalid]
        exact agrees_fail
      · rw [if_neg invalid, check, if_neg invalid, pure_bind]
        refine agrees_ite (fun _ => agrees_pure trivial) fun _ => ?_
        rw [not_or, Nat.not_le] at invalid
        rw [item_number invalid.1, pure_bind]
        exact ih (List.nodup_cons.mpr ⟨invalid.2, distinct⟩) (List.forall_mem_cons.mpr ⟨invalid.1, below⟩)
          (List.forall_mem_cons.mpr ⟨nonzero, positive⟩) (by simp only [List.length_cons]; omega)

theorem agrees_sysvHashReaches {table : SysvHashTable} {name : Bytes} {target : Nat} (sound : SysvSound table) :
    Agrees (FileRead.Inside file) (fun _ => True) (sysvHashReaches table name target)
      (Checked.lift (Elf.sysvHashReaches table name target) : Inspect Bool) := by
  have some : 0 < table.buckets.length := List.length_pos_iff.mpr sound
  unfold sysvHashReaches Elf.sysvHashReaches SysvHashTable.bucket
  rw [modulo_eq (by omega), pure_bind, item_number (Nat.mod_lt _ some), pure_bind]
  exact agrees_sysvWalkReaches List.nodup_nil (by simp) (by simp) (by simp)

/-! ### The DT_GNU_HASH table -/

theorem agrees_chainWord {chains : GnuChains} {relative : Nat} :
    Agrees (FileRead.Inside file) (fun _ => True) (chainWord file chains relative) (chains.word file relative) :=
  agrees_resolve.bind fun range _ => @agrees_word file 4 range 0 _ _

/-- The walk to the end of a chain ends below the greatest chain word. -/
theorem agrees_terminalFrom {chains : GnuChains} {terminals : List (Nat × Nat)} {turns index : Nat} {path : List Nat}
    (positive : 0 < turns) (left : chains.maximum + chains.symbolOffset < index + turns) :
    Agrees (FileRead.Inside file) (fun _ => True) (terminalFrom file chains terminals turns index path)
      (Elf.terminalFrom file chains terminals turns index path) := by
  induction turns generalizing index path with
  | zero => exact absurd positive (Nat.lt_irrefl 0)
  | succ turns ih =>
      rw [terminalFrom, Elf.terminalFrom]
      cases known : terminals.lookup index with
      | some result => exact agrees_pure trivial
      | none =>
        refine (agrees_check Iff.rfl).bind fun _ inside => agrees_chainWord.bind fun value _ => ?_
        refine agrees_ite (fun _ => agrees_pure trivial) fun _ => (agrees_check Iff.rfl).bind fun _ _ => ?_
        exact ih (by omega) (by omega)

theorem agrees_terminal {chains : GnuChains} {terminals : List (Nat × Nat)} {start : Nat}
    (behind : chains.symbolOffset ≤ start) :
    Agrees (FileRead.Inside file) (fun _ => True) (terminal file chains terminals start)
      (Elf.terminal file chains terminals start) :=
  (agrees_terminalFrom (Nat.succ_pos _) (by omega)).bind fun _ _ => agrees_pure trivial

theorem agrees_scanBucket {chains : GnuChains} {buckets : Resolved} {scan : BucketScan} {index : Nat} :
    Agrees (FileRead.Inside file)
      (fun next => next.values.length = scan.values.length + 1 ∧ scan.count ≤ next.count)
      (scanBucket file chains buckets scan index) (Elf.scanBucket file chains buckets scan index) := by
  refine agrees_word.bind fun value _ => ?_
  refine agrees_ite (fun _ => agrees_pure ⟨by simp, Nat.le_refl _⟩) fun _ => ?_
  refine (agrees_check Iff.rfl).bind fun _ valid => (agrees_terminal (by omega)).bind fun found _ => ?_
  exact agrees_pure ⟨by simp, Nat.le_max_left _ _⟩

/-- What the walk through the table relies on. -/
structure GnuSound (table : GnuHashTable) : Prop where
  wordBits : table.wordBits ≠ 0
  bloom : table.bloom ≠ []
  buckets : table.buckets ≠ []
  chains : table.symbolOffset + table.chains.length = table.symbolCount

theorem agrees_gnuHashSymbolCount {segments : List LoadSegment} {address elfClass : Nat} :
    Agrees (FileRead.Inside file) GnuSound (gnuHashSymbolCount file segments address elfClass)
      (Elf.gnuHashSymbolCount file segments address elfClass) := by
  refine agrees_resolve.bind fun header _ => ?_
  refine (@agrees_unpackIn file [4, 4, 4, 4] header 0 _ _).bind fun values length => ?_
  have four : values.length = 4 := length
  rw [item_number (by omega : 0 < values.length), pure_bind, item_number (by omega : 1 < values.length), pure_bind,
    item_number (by omega : 2 < values.length), pure_bind, item_number (by omega : 3 < values.length), pure_bind]
  refine (agrees_check Iff.rfl).bind fun _ sizes => agrees_resolve.bind fun bloomRange _ => ?_
  refine (agrees_mapM fun index _ => agrees_word).bind fun bloom bloomAll => ?_
  refine agrees_resolve.bind fun bucketRange _ => (agrees_ofExcept fun _ _ => trivial).bind fun available _ => ?_
  let keeps := fun (rest : List Nat) (scan : BucketScan) =>
    scan.values.length + rest.length = values.getD 0 0 ∧ values.getD 1 0 ≤ scan.count
  refine (@agrees_foldlM _ _ _ _ _ _ keeps _ _ ?_ _ _ ?_).bind fun scan held => ?_
  · intro index rest scan held
    refine agrees_scanBucket.weaken fun next kept => ?_
    simp only [keeps, List.length_cons] at held ⊢
    omega
  · simp [keeps]
  · simp only [keeps] at held
    refine (agrees_check Iff.rfl).bind fun _ _ => (agrees_mapM fun index _ => agrees_chainWord).bind fun words all => ?_
    have bloomLength := bloomAll.length_eq
    have wordsLength := all.length_eq
    rw [List.length_range] at bloomLength wordsLength
    refine agrees_pure ⟨?_, ?_, ?_, ?_⟩
    · simp only
      split <;> decide
    · intro empty
      simp only at empty
      rw [empty, List.length_nil] at bloomLength
      omega
    · intro empty
      simp only at empty
      rw [empty] at held
      simp only [List.length_nil] at held
      omega
    · simp only
      omega

theorem agrees_gnuWalkReaches {table : GnuHashTable} {name : Bytes} {target turns index : Nat} (sound : GnuSound table)
    (behind : table.symbolOffset ≤ index) (left : index + turns = table.symbolCount ∨ turns = 0 ∧ table.symbolCount ≤ index) :
    Agrees (FileRead.Inside file) (fun _ => True) (gnuWalkReaches table name target turns index)
      (Checked.lift (Elf.gnuWalkReaches table name target turns index) : Inspect Bool) := by
  induction turns generalizing index with
  | zero =>
      rw [gnuWalkReaches, Elf.gnuWalkReaches, if_pos (by omega)]
      exact agrees_fail
  | succ turns ih =>
      rw [gnuWalkReaches, Elf.gnuWalkReaches, if_neg (by omega)]
      have chains := sound.chains
      have position : (index : Int) - table.symbolOffset = ((index - table.symbolOffset : Nat) : Int) := by omega
      have inside : index - table.symbolOffset < table.chains.length := by omega
      simp only [position]
      rw [pick_eq inside 0, pure_bind, lift_ite, lift_ite]
      refine agrees_ite (fun _ => agrees_pure trivial) fun _ => agrees_ite (fun _ => agrees_pure trivial) fun _ => ?_
      exact ih (by omega) (by omega)

theorem agrees_gnuHashReaches {table : GnuHashTable} {name : Bytes} {target : Nat} (sound : GnuSound table) :
    Agrees (FileRead.Inside file) (fun _ => True) (gnuHashReaches table name target)
      (Checked.lift (Elf.gnuHashReaches table name target) : Inspect Bool) := by
  have bloom : 0 < table.bloom.length := List.length_pos_iff.mpr sound.bloom
  have buckets : 0 < table.buckets.length := List.length_pos_iff.mpr sound.buckets
  rw [gnuHashReaches, Elf.gnuHashReaches, lift_ite, lift_ite, lift_ite]
  refine agrees_ite (fun _ => agrees_pure trivial) fun _ => ?_
  rw [quotient_eq sound.wordBits, pure_bind, modulo_eq (by omega), pure_bind, item_number (Nat.mod_lt _ bloom), pure_bind,
    modulo_eq sound.wordBits, pure_bind, shiftLeft_eq, pure_bind, shiftRight_eq, pure_bind, modulo_eq sound.wordBits,
    pure_bind, shiftLeft_eq, pure_bind]
  refine agrees_ite (fun _ => agrees_pure trivial) fun _ => ?_
  rw [modulo_eq (by omega), pure_bind, item_number (Nat.mod_lt _ buckets), pure_bind]
  refine agrees_ite (fun _ => agrees_pure trivial) fun behind => ?_
  exact agrees_gnuWalkReaches sound (Nat.le_of_not_lt behind) (by omega)

/-! ### The headers -/

/-- The layout of one of the two classes. -/
def KnownLayout (layout : Layout) : Prop := layout = layout64 ∨ layout = layout32

/-- What the layouts have in common. -/
structure LayoutSizes (layout : Layout) : Prop where
  header : layout.header.length = 14
  program : layout.program.length = 8
  symbol : layout.symbol.length = 6
  sectionHeader : layout.sectionHeader.length = 10
  wordSize : layout.wordSize ≠ 0

theorem KnownLayout.sizes {layout : Layout} (known : KnownLayout layout) : LayoutSizes layout := by
  rcases known with same | same <;> subst same
  · exact ⟨rfl, rfl, rfl, rfl, by decide⟩
  · exact ⟨rfl, rfl, rfl, rfl, by decide⟩

theorem agrees_parseIdent :
    Agrees (FileRead.Inside file) KnownLayout (parseIdent file) (Elf.parseIdent file) := by
  refine agrees_read.bind fun ident length => (agrees_check Iff.rfl).bind fun _ _ => ?_
  rw [item_eq (by omega : 4 < ident.length) 0, pure_bind]
  refine (agrees_check Iff.rfl).bind fun _ _ => ?_
  rw [item_eq (by omega : 5 < ident.length) 0, pure_bind, item_eq (by omega : 6 < ident.length) 0, pure_bind,
    item_eq (by omega : 7 < ident.length) 0, pure_bind, item_eq (by omega : 8 < ident.length) 0, pure_bind]
  refine (agrees_check Iff.rfl).bind fun _ _ => (agrees_check Iff.rfl).bind fun _ _ => agrees_pure ?_
  unfold KnownLayout
  split
  · exact .inl rfl
  · exact .inr rfl

theorem agrees_parseHeader {layout : Layout} (sizes : LayoutSizes layout) :
    Agrees (FileRead.Inside file) (fun _ => True) (parseHeader file layout) (Elf.parseHeader file layout) := by
  refine agrees_unpack.bind fun values length => ?_
  rw [sizes.header] at length
  rw [item_number (by omega : 1 < values.length), pure_bind, item_number (by omega : 2 < values.length), pure_bind,
    item_number (by omega : 3 < values.length), pure_bind, item_number (by omega : 5 < values.length), pure_bind,
    item_number (by omega : 6 < values.length), pure_bind, item_number (by omega : 8 < values.length), pure_bind,
    item_number (by omega : 9 < values.length), pure_bind, item_number (by omega : 10 < values.length), pure_bind,
    item_number (by omega : 11 < values.length), pure_bind, item_number (by omega : 12 < values.length), pure_bind,
    item_number (by omega : 13 < values.length), pure_bind]
  exact (agrees_check Iff.rfl).bind fun _ _ => (agrees_check Iff.rfl).bind fun _ _ =>
    (agrees_check Iff.rfl).bind fun _ _ => agrees_checkedEnd.bind fun _ _ => agrees_pure trivial

theorem programHeaderOf_eq {layout : Layout} {values : List Nat} (length : values.length = 8) :
    programHeaderOf layout values = pure (Elf.programHeaderOf layout values) := by
  unfold programHeaderOf Elf.programHeaderOf
  split
  · rw [item_number (by omega : 0 < values.length), pure_bind, item_number (by omega : 1 < values.length), pure_bind,
      item_number (by omega : 2 < values.length), pure_bind, item_number (by omega : 3 < values.length), pure_bind,
      item_number (by omega : 5 < values.length), pure_bind, item_number (by omega : 6 < values.length), pure_bind,
      item_number (by omega : 7 < values.length), pure_bind]
  · rw [item_number (by omega : 0 < values.length), pure_bind, item_number (by omega : 1 < values.length), pure_bind,
      item_number (by omega : 2 < values.length), pure_bind, item_number (by omega : 4 < values.length), pure_bind,
      item_number (by omega : 5 < values.length), pure_bind, item_number (by omega : 6 < values.length), pure_bind,
      item_number (by omega : 7 < values.length), pure_bind]

theorem agrees_parseProgramHeader {layout : Layout} {header : Header} {index : Nat} (sizes : LayoutSizes layout) :
    Agrees (FileRead.Inside file) (fun _ => True) (parseProgramHeader file layout header index)
      (Elf.parseProgramHeader file layout header index) := by
  refine agrees_unpack.bind fun values length => ?_
  rw [sizes.program] at length
  rw [programHeaderOf_eq length, pure_bind]
  refine (agrees_check Iff.rfl).bind fun _ _ => agrees_checkedEnd.bind fun _ _ => ?_
  by_cases load : (Elf.programHeaderOf layout values).IsLoad
  · rw [if_pos load, checkAlignment, bind_assoc]
    refine (agrees_check (by simp [load])).bind fun _ aligned => ?_
    have nonzero : (Elf.programHeaderOf layout values).segment.alignment ≠ 0 := fun zero => aligned (.inl zero)
    rw [modulo_eq nonzero, pure_bind, modulo_eq nonzero, pure_bind]
    exact (agrees_check (by simp [load])).bind fun _ _ => agrees_pure trivial
  · rw [if_neg load, reject_eq_pure (by simp [load]), pure_bind, reject_eq_pure (by simp [load]), pure_bind]
    exact agrees_pure trivial

theorem agrees_parseProgramHeaders {layout : Layout} {header : Header} (sizes : LayoutSizes layout) :
    Agrees (FileRead.Inside file) (fun _ => True) (parseProgramHeaders file layout header)
      (Elf.parseProgramHeaders file layout header) := by
  refine (agrees_mapM fun index _ => agrees_parseProgramHeader sizes).bind fun programs _ => ?_
  refine (agrees_check Iff.rfl).bind fun _ _ => ?_
  cases found : (programs.filter fun program => program.type = 2).map (·.segment) with
  | nil => exact agrees_fail
  | cons dynamic rest =>
      cases rest with
      | nil => exact agrees_pure trivial
      | cons second rest =>
          have many : (dynamic :: second :: rest).length ≠ 1 := by simp
          rw [check, if_pos many]
          exact agrees_fail

/-! ### PT_DYNAMIC and the tables -/

theorem agrees_scanDynamic {layout : Layout} {range : Resolved} {scan : DynamicScan} {index : Nat} :
    Agrees (FileRead.Inside file) (fun _ => True) (scanDynamic file layout range scan index)
      (Elf.scanDynamic file layout range scan index) := by
  refine agrees_unpackIn.bind fun entry length => ?_
  have two : entry.length = 2 := length
  rw [item_number (by omega : 0 < entry.length), pure_bind, item_number (by omega : 1 < entry.length), pure_bind]
  refine agrees_ite (fun _ => (agrees_check Iff.rfl).bind fun _ _ => agrees_pure trivial) fun _ => ?_
  exact agrees_ite (fun _ => agrees_pure trivial) fun _ => agrees_pure trivial

/-- Every required tag is there once. -/
def RequiredTags (scan : DynamicScan) : Prop :=
  ∀ tag ∈ [dtSymtab, dtStrtab, dtStrsz, dtSyment], (scan.valuesOf tag).length = 1

theorem agrees_parseDynamic {layout : Layout} {programs : ProgramHeaders} (sizes : LayoutSizes layout) :
    Agrees (FileRead.Inside file) RequiredTags (parseDynamic file layout programs)
      (Elf.parseDynamic file layout programs) := by
  have nonzero : 2 * layout.wordSize ≠ 0 := by have := sizes.wordSize; omega
  simp only [parseDynamic, modulo_eq nonzero, quotient_eq nonzero, pure_bind]
  refine (agrees_check Iff.rfl).bind fun _ _ => agrees_resolve.bind fun range _ => (agrees_check Iff.rfl).bind fun _ _ => ?_
  refine (@agrees_foldlM _ _ _ _ _ _ (fun _ _ => True) _ _ (fun _ _ _ _ => agrees_scanDynamic) _ _ trivial).bind
    fun scan _ => (agrees_check Iff.rfl).bind fun _ _ => ?_
  refine (agrees_forM fun tag _ => agrees_check Iff.rfl).bind fun _ _ => ?_
  refine (agrees_forM fun tag _ => agrees_check Iff.rfl).bind fun _ once => (agrees_check Iff.rfl).bind fun _ _ => ?_
  exact agrees_pure fun tag member => not_not.mp (once tag member)

/-- The hash tables of the file are sound. -/
structure TablesSound (tables : DynamicTables) : Prop where
  sysv : ∀ table, tables.sysv = some table → SysvSound table
  gnu : ∀ table, tables.gnu = some table → GnuSound table

theorem agrees_parseTables {layout : Layout} {segments : List LoadSegment} {scan : DynamicScan}
    (required : RequiredTags scan) :
    Agrees (FileRead.Inside file) TablesSound (parseTables file layout segments scan)
      (Elf.parseTables file layout segments scan) := by
  have symtab : 0 < (scan.valuesOf dtSymtab).length := by rw [required dtSymtab (by simp)]; exact Nat.one_pos
  have strtab : 0 < (scan.valuesOf dtStrtab).length := by rw [required dtStrtab (by simp)]; exact Nat.one_pos
  have strsz : 0 < (scan.valuesOf dtStrsz).length := by rw [required dtStrsz (by simp)]; exact Nat.one_pos
  have syment : 0 < (scan.valuesOf dtSyment).length := by rw [required dtSyment (by simp)]; exact Nat.one_pos
  unfold parseTables
  rw [item_number symtab, pure_bind, item_number strtab, pure_bind, item_number strsz, pure_bind, item_number syment,
    pure_bind]
  refine (agrees_check Iff.rfl).bind fun _ _ => (agrees_check Iff.rfl).bind fun _ _ => agrees_resolve.bind
    fun strings _ => (@agrees_readIn file strings 0 1 _ _).bind fun first _ => (agrees_check Iff.rfl).bind fun _ _ => ?_
  refine (agrees_optional fun address => agrees_sysvHashSymbolCount).bind fun sysv sysvSound => ?_
  refine (agrees_optional fun address => agrees_gnuHashSymbolCount).bind fun gnu gnuSound => ?_
  refine (agrees_check Iff.rfl).bind fun _ one => ?_
  have some : 0 < ((sysv.map (·.symbolCount)).toList ++ (gnu.map (·.symbolCount)).toList).length := by
    rw [not_not] at one
    refine List.length_pos_iff.mpr fun empty => ?_
    rw [empty] at one
    simp at one
  rw [item_number some, pure_bind]
  exact (agrees_check Iff.rfl).bind fun _ _ => agrees_resolve.bind fun symbols _ => agrees_pure ⟨sysvSound, gnuSound⟩

/-! ### Sections and symbols -/

theorem agrees_parseSections {layout : Layout} {header : Header} (sizes : LayoutSizes layout) :
    Agrees (FileRead.Inside file) (fun _ => True) (parseSections file layout header)
      (Elf.parseSections file layout header) := by
  refine agrees_ite (fun _ => (agrees_check Iff.rfl).bind fun _ _ => agrees_pure trivial) fun _ => ?_
  refine (agrees_check Iff.rfl).bind fun _ counted => agrees_checkedEnd.bind fun _ _ =>
    (agrees_check Iff.rfl).bind fun _ _ => ?_
  refine (@agrees_mapM _ _ _ _ _ _ (fun _ _ => True) _ _ _ fun index _ => ?_).bind fun sections all => ?_
  · refine agrees_unpack.bind fun values length => ?_
    rw [sizes.sectionHeader] at length
    rw [item_number (by omega : 1 < values.length), pure_bind, item_number (by omega : 2 < values.length), pure_bind,
      item_number (by omega : 3 < values.length), pure_bind, item_number (by omega : 4 < values.length), pure_bind,
      item_number (by omega : 5 < values.length), pure_bind, item_number (by omega : 6 < values.length), pure_bind,
      item_number (by omega : 9 < values.length), pure_bind]
    exact (agrees_check Iff.rfl).bind fun _ _ => agrees_pure trivial
  · have length := all.length_eq
    rw [List.length_range] at length
    cases sections with
    | nil => exact absurd (.inl length) counted
    | cons first rest =>
        have picked : (item (first :: rest) 0 : Guard Section) = pure first := item_eq (by simp) first
        rw [picked, pure_bind]
        exact (agrees_check (by simp)).bind fun _ _ => agrees_pure trivial

theorem agrees_crossCheckDynamicSections {layout : Layout} {segments : List LoadSegment} {sections : List Section}
    {tables : DynamicTables} :
    Agrees (FileRead.Inside file) (fun _ => True) (crossCheckDynamicSections layout segments sections tables)
      (Elf.crossCheckDynamicSections layout segments sections tables) := by
  unfold crossCheckDynamicSections Elf.crossCheckDynamicSections
  simp only
  cases found : sections.filter fun parsed => parsed.sectionType = 11 with
  | nil => exact agrees_pure trivial
  | cons symbols rest =>
      cases rest with
      | cons second rest =>
          have many : (symbols :: second :: rest).length ≠ 1 := by simp
          rw [if_neg (by simp), check, if_pos many]
          exact agrees_fail
      | nil =>
          have picked : (item [symbols] 0 : Guard Section) = pure symbols := item_eq (by simp) symbols
          rw [if_neg (by simp), check, if_neg (by simp), pure_bind, picked, pure_bind]
          refine (agrees_check Iff.rfl).bind fun _ linked => ?_
          have inside : symbols.link < sections.length := by omega
          rw [item_eq inside symbols, pure_bind, List.getElem?_eq_getElem inside]
          have same : sections.getD symbols.link symbols = sections[symbols.link] := by
            rw [List.getD_eq_getElem?_getD, List.getElem?_eq_getElem inside]
            rfl
          rw [same]
          exact (agrees_check Iff.rfl).bind fun _ _ => (agrees_ofExcept fun _ _ => trivial).bind fun _ _ =>
            (agrees_check Iff.rfl).bind fun _ _ => (agrees_ofExcept fun _ _ => trivial).bind fun _ _ =>
              (agrees_check Iff.rfl).weaken fun _ _ => trivial

theorem agrees_parseSymbol {layout : Layout} {tables : DynamicTables} {index : Nat} (sizes : LayoutSizes layout) :
    Agrees (FileRead.Inside file) (fun _ => True) (parseSymbol file layout tables index)
      (Elf.parseSymbol file layout tables index) := by
  refine agrees_unpackIn.bind fun values length => ?_
  rw [sizes.symbol] at length
  rw [item_number (by omega : 0 < values.length), pure_bind, item_number (by split <;> omega), pure_bind,
    item_number (by split <;> omega), pure_bind, item_number (by split <;> omega), pure_bind,
    item_number (by split <;> omega), pure_bind]
  refine agrees_ite (fun _ => (agrees_check Iff.rfl).bind fun _ _ => agrees_pure trivial) fun _ => ?_
  refine (agrees_check Iff.rfl).bind fun _ _ => agrees_readCString.bind fun name _ => ?_
  have binding : shiftRight (values.getD (if layout.elfClass = 2 then 1 else 3) 0) 4 =
      pure (values.getD (if layout.elfClass = 2 then 1 else 3) 0 >>> 4) := shiftRight_eq _ 4
  rw [binding, pure_bind]
  exact (agrees_check Iff.rfl).bind fun _ _ => agrees_pure trivial

/-! ### The exports -/

theorem agrees_checkReached {Table : Type} {table : Option Table} {reaches : Table → Guard Bool}
    {plain : Table → Except String Bool} {message : String}
    (agrees : ∀ found, table = some found →
      Agrees (FileRead.Inside file) (fun _ => True) (reaches found) (Checked.lift (plain found) : Inspect Bool)) :
    Agrees (FileRead.Inside file) (fun _ => True) (checkReached table reaches message)
      (Elf.checkReached table plain message) := by
  cases table with
  | none => exact agrees_pure trivial
  | some found => exact (agrees found rfl).bind fun _ _ => (agrees_check Iff.rfl).weaken fun _ _ => trivial

theorem agrees_checkExport {segments : List LoadSegment} {tables : DynamicTables} {symbols : List DynamicSymbol}
    {name : Bytes} (sound : TablesSound tables) :
    Agrees (FileRead.Inside file) (fun _ => True) (checkExport segments tables symbols name)
      (Elf.checkExport segments tables symbols name) := by
  unfold checkExport Elf.checkExport
  simp only
  cases found : occurrences symbols name with
  | nil => exact agrees_fail
  | cons first rest =>
      cases rest with
      | cons second rest =>
          have many : (first :: second :: rest).length ≠ 1 := by simp
          rw [check, if_pos many]
          exact agrees_fail
      | nil =>
          have picked : (item [first] 0 : Guard (Nat × DynamicSymbol)) = pure first := item_eq (by simp) first
          rw [check, if_neg (by simp), pure_bind, picked, pure_bind]
          refine (agrees_check Iff.rfl).bind fun _ _ => (agrees_check Iff.rfl).bind fun _ _ =>
            (agrees_check Iff.rfl).bind fun _ _ => (agrees_check Iff.rfl).bind fun _ _ =>
              (agrees_check Iff.rfl).bind fun _ _ => ?_
          refine (agrees_checkReached fun table known => agrees_sysvHashReaches (sound.sysv table known)).bind fun _ _ => ?_
          exact agrees_checkReached fun table known => agrees_gnuHashReaches (sound.gnu table known)

/-! ### The whole inspection -/

theorem agrees_inspectReader {digest : String} :
    Agrees (FileRead.Inside file) (fun _ => True) (inspectReader file digest) (Elf.inspectReader file digest) := by
  refine agrees_parseIdent.bind fun layout known => (agrees_parseHeader known.sizes).bind fun header _ =>
    (agrees_parseProgramHeaders known.sizes).bind fun programs _ => ?_
  refine (agrees_parseDynamic known.sizes).bind fun scan required => (agrees_parseTables required).bind
    fun tables sound => (agrees_parseSections known.sizes).bind fun sections _ => ?_
  refine agrees_crossCheckDynamicSections.bind fun _ _ => (agrees_mapM fun index _ => agrees_parseSymbol known.sizes).bind
    fun symbols _ => (agrees_forM fun name _ => agrees_checkExport sound).bind fun _ _ => ?_
  exact (agrees_check Iff.rfl).bind fun _ _ => agrees_pure trivial

/-- The inspection of any bytes ends: it returns or raises `ValueError`, it never leaves the domain of an operation,
and every read lies inside the file. -/
theorem inspectionTotal (file : Bytes) (digest : String) :
    (∀ fileRead ∈ (run (inspectReader file digest) []).2, fileRead.offset + fileRead.size ≤ file.length) ∧
      ((∃ found, (run (inspectReader file digest) []).1 = .ok found) ∨
        ∃ message, (run (inspectReader file digest) []).1 = .error (.message message)) :=
  agrees_inspectReader.total

end ExitfyCores.Elf.Domain
