/-
Module: ExitfyCores.Proofs.GnuWalk
Layer: Proofs
Purpose: `_gnu_hash_symbol_count` with its memo gives what walking the chain of every bucket on its own gives.
Imports: ExitfyCores.Elf.HashTables, ExitfyCores.Lib.MarkedWalk, ExitfyCores.Lib.Raise, Mathlib.Order.Bounds.Basic
Trusted boundary: none
Main exports: GnuChains.verdict, terminalFrom_outcome, scan_outcome, GnuLayout, NaiveTable, gnuHashSymbolCount_naive
Open obligations: none
-/
import ExitfyCores.Elf.HashTables
import ExitfyCores.Lib.MarkedWalk
import ExitfyCores.Lib.Raise
import Mathlib.Order.Bounds.Basic

namespace ExitfyCores.Elf

open Checked

section

variable {file : Bytes} {segments : List LoadSegment} {chains : GnuChains}

/-! ### Reads alone -/

theorem uniform_resolve (address size : Nat) (label : String) : Uniform (resolve segments address size label) :=
  (uniform_lift _).bind fun _ => uniform_pure _

theorem uniform_readIn (range : Resolved) (start size : Nat) (label : String) :
    Uniform (readIn file range start size label) :=
  (uniform_note _).bind fun _ => uniform_reject.bind fun _ => uniform_pure _

theorem uniform_wordIn (width : Nat) (range : Resolved) (start : Nat) (label : String) :
    Uniform (wordIn file width range start label) :=
  (uniform_readIn range start width label).bind fun _ => uniform_pure _

theorem uniform_word (relative : Nat) : Uniform (chains.word file relative) :=
  (uniform_resolve _ _ _).bind fun _ => uniform_wordIn _ _ _ _

/-! ### One chain -/

/-- The chain word at an index that is within the bounds: whether its low bit is set. -/
def GnuChains.verdict (chains : GnuChains) (file : Bytes) (index : Nat) : Option Bool :=
  if chains.symbolOffset ≤ index ∧ index - chains.symbolOffset < chains.maximum ∧ index ≤ maxDynamicSymbols then
    (outcome (chains.word file (index - chains.symbolOffset))).map fun word => decide (word % 2 = 1)
  else none

theorem uniform_terminalFrom (terminals : List (Nat × Nat)) (turns index : Nat) (path : List Nat) :
    Uniform (terminalFrom file chains terminals turns index path) := by
  induction turns generalizing index path with
  | zero => exact uniform_fail _
  | succ turns ih =>
      unfold terminalFrom
      cases terminals.lookup index with
      | some result => exact uniform_pure _
      | none =>
          exact uniform_reject.bind fun _ => (uniform_word _).bind fun _ =>
            uniform_ite (uniform_pure _) (uniform_reject.bind fun _ => ih _ _)

/-- The walk of `terminal` ends where the naive walk ends, and what it visits walks there, too. -/
theorem terminalFrom_outcome {terminals : List (Nat × Nat)} (sound : MemoSound (chains.verdict file) terminals)
    {turns index : Nat} (small : index ≤ maxDynamicSymbols)
    (enough : chains.symbolOffset + chains.maximum < index + turns) (path : List Nat) :
    (∃ last visited, outcome (terminalFrom file chains terminals turns index path) = some (last, visited) ∧
        Walks (chains.verdict file) index last ∧
        ∀ other ∈ visited, other ∈ path ∨ Walks (chains.verdict file) other last) ∨
      (outcome (terminalFrom file chains terminals turns index path) = none ∧
        ∀ last, ¬ Walks (chains.verdict file) index last) := by
  induction turns generalizing index path with
  | zero =>
      refine .inr ⟨rfl, fun last walks => walks.readable (if_neg ?_)⟩
      omega
  | succ turns ih =>
      unfold terminalFrom
      cases known : terminals.lookup index with
      | some result =>
          exact .inl ⟨result, path, rfl, sound.lookup known, fun other member => .inl member⟩
      | none =>
          rw [outcome_bind fun _ => (uniform_word _).bind fun _ => uniform_ite (uniform_pure _)
            (uniform_reject.bind fun _ => uniform_terminalFrom _ _ _ _), outcome_reject]
          by_cases inside : index < chains.symbolOffset ∨ chains.maximum ≤ index - chains.symbolOffset
          · refine .inr ⟨by simp [inside], fun last walks => walks.readable (if_neg ?_)⟩
            omega
          · have admitted : chains.symbolOffset ≤ index ∧ index - chains.symbolOffset < chains.maximum ∧
                index ≤ maxDynamicSymbols := by omega
            rw [if_neg inside, Option.bind_some, outcome_bind fun _ => uniform_ite (uniform_pure _)
              (uniform_reject.bind fun _ => uniform_terminalFrom _ _ _ _)]
            have verdict : chains.verdict file index = (outcome (chains.word file (index - chains.symbolOffset))).map
                fun word => decide (word % 2 = 1) := if_pos admitted
            cases read : outcome (chains.word file (index - chains.symbolOffset)) with
            | none =>
                rw [read] at verdict
                exact .inr ⟨rfl, fun last walks => walks.readable verdict⟩
            | some word =>
                rw [read, Option.map_some] at verdict
                rw [Option.bind_some]
                split
                · next odd =>
                    rw [decide_eq_true odd] at verdict
                    refine .inl ⟨index, index :: path, rfl, .stop verdict, fun other member => ?_⟩
                    rcases List.mem_cons.mp member with rfl | earlier
                    · exact .inr (.stop verdict)
                    · exact .inl earlier
                · next even =>
                    rw [decide_eq_false even] at verdict
                    rw [outcome_bind fun _ => uniform_terminalFrom _ _ _ _, outcome_reject]
                    by_cases far : maxDynamicSymbols < index + 1
                    · refine .inr ⟨by simp [far], fun last walks => ?_⟩
                      cases walks with
                      | stop marked => cases marked.symm.trans verdict
                      | step _ rest =>
                          refine rest.readable (if_neg ?_)
                          omega
                    · rw [if_neg far, Option.bind_some]
                      rcases ih (Nat.le_of_not_lt far) (by omega) (index :: path) with
                        ⟨last, visited, found, walks, among⟩ | ⟨failed, none⟩
                      · refine .inl ⟨last, visited, found, .step verdict walks, fun other member => ?_⟩
                        rcases among other member with onPath | walksOther
                        · rcases List.mem_cons.mp onPath with rfl | earlier
                          · exact .inr (.step verdict walks)
                          · exact .inl earlier
                        · exact .inr walksOther
                      · refine .inr ⟨failed, fun last walks => ?_⟩
                        cases walks with
                        | stop marked => cases marked.symm.trans verdict
                        | step _ rest => exact none last rest

theorem uniform_terminal (terminals : List (Nat × Nat)) (start : Nat) :
    Uniform (terminal file chains terminals start) :=
  (uniform_terminalFrom _ _ _ _).bind fun _ => uniform_pure _

/-- `terminal` gives the end of the naive walk, and its memo stays a memo of ends. -/
theorem terminal_outcome {terminals : List (Nat × Nat)} (sound : MemoSound (chains.verdict file) terminals) {start : Nat}
    (low : chains.symbolOffset ≤ start) (small : start ≤ maxDynamicSymbols) :
    (∃ last memo, outcome (terminal file chains terminals start) = some (last, memo) ∧
        Walks (chains.verdict file) start last ∧ MemoSound (chains.verdict file) memo) ∨
      (outcome (terminal file chains terminals start) = none ∧ ∀ last, ¬ Walks (chains.verdict file) start last) := by
  have enough : chains.symbolOffset + chains.maximum < start + (chains.maximum + 1) := by omega
  have walked := terminalFrom_outcome sound small enough []
  have unfolded : outcome (terminal file chains terminals start) =
      (outcome (terminalFrom file chains terminals (chains.maximum + 1) start [])).bind fun found =>
        some (found.1, found.2.map (fun visited => (visited, found.1)) ++ terminals) :=
    outcome_bind fun _ => uniform_pure _
  rcases walked with ⟨last, visited, found, walks, among⟩ | ⟨failed, none⟩
  · refine .inl ⟨last, visited.map (fun index => (index, last)) ++ terminals, ?_, walks, sound.extend ?_⟩
    · rw [unfolded, found, Option.bind_some]
    · intro index member
      rcases among index member with onPath | walksIndex
      · cases onPath
      · exact walksIndex
  · refine .inr ⟨?_, none⟩
    rw [unfolded, failed, Option.bind_none]

/-! ### The loop over the buckets -/

/-- The chain of a bucket on its own: where it starts is within the bounds, and `last` is where walking it ends. -/
def GnuChains.EndsAt (chains : GnuChains) (file : Bytes) (start last : Nat) : Prop :=
  chains.symbolOffset ≤ start ∧ start ≤ maxDynamicSymbols ∧ Walks (chains.verdict file) start last

/-- One more than the greatest end, and at least the first symbol. -/
def countOf (start : Nat) (ends : List Nat) : Nat := ends.foldl (fun count last => max count (last + 1)) start

theorem uniform_scanBucket (buckets : Resolved) (scan : BucketScan) (index : Nat) :
    Uniform (scanBucket file chains buckets scan index) :=
  (uniform_wordIn _ _ _ _).bind fun _ =>
    uniform_ite (uniform_pure _) (uniform_reject.bind fun _ => (uniform_terminal _ _).bind fun _ => uniform_pure _)

/-- One turn of the loop: an empty bucket changes nothing, and any other has its chain walked. -/
theorem scanBucket_outcome {buckets : Resolved} {scan : BucketScan} (sound : MemoSound (chains.verdict file) scan.terminals)
    {index value : Nat} (read : outcome (wordIn file 4 buckets (index * 4) "DT_GNU_HASH bucket") = some value) :
    (value = 0 ∧ outcome (scanBucket file chains buckets scan index) =
        some { scan with values := scan.values ++ [value] }) ∨
      (value ≠ 0 ∧ ∃ last memo, chains.EndsAt file value last ∧ MemoSound (chains.verdict file) memo ∧
        outcome (scanBucket file chains buckets scan index) =
          some ⟨scan.values ++ [value], memo, max scan.count (last + 1)⟩) ∨
      (value ≠ 0 ∧ outcome (scanBucket file chains buckets scan index) = none ∧
        ∀ last, ¬ chains.EndsAt file value last) := by
  have unfolded : outcome (scanBucket file chains buckets scan index) =
      outcome (if value = 0 then (pure { scan with values := scan.values ++ [value] } : Inspect BucketScan) else do
        reject (value < chains.symbolOffset ∨ maxDynamicSymbols < value) "DT_GNU_HASH bucket is invalid"
        let found ← terminal file chains scan.terminals value
        pure ⟨scan.values ++ [value], found.2, max scan.count (found.1 + 1)⟩) := by
    unfold scanBucket
    rw [outcome_bind fun _ => uniform_ite (uniform_pure _)
      (uniform_reject.bind fun _ => (uniform_terminal _ _).bind fun _ => uniform_pure _), read, Option.bind_some]
  rw [unfolded]
  by_cases empty : value = 0
  · rw [if_pos empty]
    exact .inl ⟨empty, rfl⟩
  · rw [if_neg empty, outcome_bind fun _ => (uniform_terminal _ _).bind fun _ => uniform_pure _, outcome_reject]
    by_cases outside : value < chains.symbolOffset ∨ maxDynamicSymbols < value
    · refine .inr (.inr ⟨empty, by rw [if_pos outside, Option.bind_none], fun last ends => ?_⟩)
      obtain ⟨low, small, _⟩ := ends
      omega
    · have low : chains.symbolOffset ≤ value := by omega
      have small : value ≤ maxDynamicSymbols := by omega
      rw [if_neg outside, Option.bind_some, outcome_bind fun _ => uniform_pure _]
      rcases terminal_outcome sound low small with ⟨last, memo, found, walks, soundAfter⟩ | ⟨failed, none⟩
      · refine .inr (.inl ⟨empty, last, memo, ⟨low, small, walks⟩, soundAfter, ?_⟩)
        rw [found, Option.bind_some, outcome_pure]
      · refine .inr (.inr ⟨empty, by rw [failed, Option.bind_none], fun last ends => none last ends.2.2⟩)

/-- The value of the bucket at an index. -/
def BucketReads (file : Bytes) (buckets : Resolved) (index value : Nat) : Prop :=
  outcome (wordIn file 4 buckets (index * 4) "DT_GNU_HASH bucket") = some value

/-- The loop succeeds with the values of the buckets exactly when the chain of each non-zero bucket ends on its own. -/
theorem scan_outcome {buckets : Resolved} (indices : List Nat) {scan : BucketScan}
    (sound : MemoSound (chains.verdict file) scan.terminals) (values : List Nat) (count : Nat) :
    (∃ memo, outcome (indices.foldlM (scanBucket file chains buckets) scan) = some ⟨values, memo, count⟩) ↔
      ∃ after, values = scan.values ++ after ∧ List.Forall₂ (BucketReads file buckets) indices after ∧
        ∃ ends, List.Forall₂ (chains.EndsAt file) (after.filter (· ≠ 0)) ends ∧ count = countOf scan.count ends := by
  induction indices generalizing scan with
  | nil =>
      constructor
      · intro ⟨memo, same⟩
        cases Option.some.inj same
        exact ⟨[], (List.append_nil _).symm, .nil, [], .nil, rfl⟩
      · intro ⟨after, same, read, ends, each, counts⟩
        cases read
        cases each
        rw [List.append_nil] at same
        subst same counts
        exact ⟨scan.terminals, rfl⟩
  | cons index rest ih =>
      have unfolded : outcome ((index :: rest).foldlM (scanBucket file chains buckets) scan) =
          (outcome (scanBucket file chains buckets scan index)).bind fun next =>
            outcome (rest.foldlM (scanBucket file chains buckets) next) := by
        rw [List.foldlM_cons, outcome_bind fun next => uniform_foldlM (uniform_scanBucket buckets) rest next]
      rw [unfolded]
      cases read : outcome (wordIn file 4 buckets (index * 4) "DT_GNU_HASH bucket") with
      | none =>
          have failed : outcome (scanBucket file chains buckets scan index) = none := by
            unfold scanBucket
            rw [outcome_bind fun _ => uniform_ite (uniform_pure _)
              (uniform_reject.bind fun _ => (uniform_terminal _ _).bind fun _ => uniform_pure _), read, Option.bind_none]
          constructor
          · intro ⟨memo, same⟩
            rw [failed] at same
            cases same
          · intro ⟨after, _, reads, _⟩
            cases reads with
            | cons first _ => cases read.symm.trans first
      | some value =>
          rcases scanBucket_outcome sound read with
            ⟨rfl, next⟩ | ⟨filled, last, memo, ends, soundAfter, next⟩ | ⟨filled, failed, unended⟩
          · rw [next, Option.bind_some, @ih ⟨scan.values ++ [0], scan.terminals, scan.count⟩ sound]
            constructor
            · intro ⟨after, same, reads, ends, each, counts⟩
              refine ⟨0 :: after, by rw [same, List.append_assoc]; rfl, .cons read reads, ends, ?_, counts⟩
              rw [List.filter_cons_of_neg (by simp)]
              exact each
            · intro ⟨after, same, reads, ends, each, counts⟩
              cases reads with
              | cons first others =>
                  cases Option.some.inj (read.symm.trans first)
                  rw [List.filter_cons_of_neg (by simp)] at each
                  exact ⟨_, by rw [same, List.append_assoc]; rfl, others, ends, each, counts⟩
          · rw [next, Option.bind_some, @ih ⟨scan.values ++ [value], memo, max scan.count (last + 1)⟩ soundAfter]
            constructor
            · intro ⟨after, same, reads, others, each, counts⟩
              refine ⟨value :: after, by rw [same, List.append_assoc]; rfl, .cons read reads, last :: others, ?_, counts⟩
              rw [List.filter_cons_of_pos (by simpa using filled)]
              exact .cons ends each
            · intro ⟨after, same, reads, others, each, counts⟩
              cases reads with
              | cons first later =>
                  cases Option.some.inj (read.symm.trans first)
                  rw [List.filter_cons_of_pos (by simpa using filled)] at each
                  cases each with
                  | cons endsOther each =>
                      cases ends.2.2.unique endsOther.2.2
                      exact ⟨_, by rw [same, List.append_assoc]; rfl, later, _, each, counts⟩
          · rw [failed, Option.bind_none]
            constructor
            · intro ⟨memo, same⟩
              cases same
            · intro ⟨after, _, reads, others, each, _⟩
              cases reads with
              | cons first later =>
                  cases Option.some.inj (read.symm.trans first)
                  rw [List.filter_cons_of_pos (by simpa using filled)] at each
                  cases each with
                  | cons endsOther _ => exact absurd endsOther (unended _)

/-! ### The least odd word -/

/-- The chain word of an index can be read and its low bit is set. -/
def GnuChains.OddWord (chains : GnuChains) (file : Bytes) (index : Nat) : Prop :=
  ∃ word, outcome (chains.word file (index - chains.symbolOffset)) = some word ∧ word % 2 = 1

theorem verdict_eq_some {index : Nat} {odd : Bool} (read : chains.verdict file index = some odd) :
    ∃ word, outcome (chains.word file (index - chains.symbolOffset)) = some word ∧ decide (word % 2 = 1) = odd := by
  unfold GnuChains.verdict at read
  split at read
  · exact Option.map_eq_some_iff.mp read
  · cases read

/-- A chain that ends does so at the least index whose word is odd. -/
theorem GnuChains.EndsAt.isLeast {start last : Nat} (ends : chains.EndsAt file start last) :
    IsLeast {index | start ≤ index ∧ chains.OddWord file index} last := by
  obtain ⟨later, marked, before⟩ := walks_iff.mp ends.2.2
  obtain ⟨word, read, odd⟩ := verdict_eq_some marked
  refine ⟨⟨later, word, read, of_decide_eq_true odd⟩, fun other ⟨low, otherWord, readOther, oddOther⟩ => ?_⟩
  by_contra earlier
  obtain ⟨evenWord, readEven, even⟩ := verdict_eq_some (before other low (Nat.lt_of_not_le earlier))
  rw [readEven] at readOther
  cases readOther
  exact of_decide_eq_false even oddOther

theorem isGreatest_countOf (start : Nat) (ends : List Nat) :
    IsGreatest (insert start {count | ∃ last ∈ ends, count = last + 1}) (countOf start ends) := by
  induction ends generalizing start with
  | nil =>
      refine ⟨.inl rfl, ?_⟩
      rintro count (rfl | ⟨last, member, _⟩)
      · exact Nat.le_refl _
      · cases member
  | cons first rest ih =>
      obtain ⟨among, greatest⟩ := ih (max start (first + 1))
      constructor
      · rcases among with same | ⟨last, member, same⟩
        · change countOf (max start (first + 1)) rest ∈ _
          rw [same]
          rcases Nat.le_total start (first + 1) with low | high
          · rw [Nat.max_eq_right low]
            exact .inr ⟨first, List.mem_cons_self, rfl⟩
          · rw [Nat.max_eq_left high]
            exact .inl rfl
        · exact .inr ⟨last, List.mem_cons_of_mem first member, same⟩
      · have base : max start (first + 1) ≤ countOf start (first :: rest) := greatest (.inl rfl)
        rintro count (rfl | ⟨last, member, rfl⟩)
        · exact Nat.le_trans (Nat.le_max_left _ _) base
        · rcases List.mem_cons.mp member with rfl | later
          · exact Nat.le_trans (Nat.le_max_right _ _) base
          · exact greatest (.inr ⟨last, later, rfl⟩)

/-- The ends of all chains and what they count to, read off the starts: every chain ends, and the count is the
greatest of what the least odd words give. -/
theorem ends_iff (starts : List Nat) (count : Nat) :
    (∃ ends, List.Forall₂ (chains.EndsAt file) starts ends ∧ count = countOf chains.symbolOffset ends) ↔
      (∀ start ∈ starts, ∃ last, chains.EndsAt file start last) ∧
        IsGreatest (insert chains.symbolOffset {count | ∃ start ∈ starts, ∃ last,
          IsLeast {index | start ≤ index ∧ chains.OddWord file index} last ∧ count = last + 1}) count := by
  have collected : ∀ ends, List.Forall₂ (chains.EndsAt file) starts ends →
      {count | ∃ last ∈ ends, count = last + 1} = {count | ∃ start ∈ starts, ∃ last,
        IsLeast {index | start ≤ index ∧ chains.OddWord file index} last ∧ count = last + 1} := by
    intro ends each
    ext other
    constructor
    · intro ⟨last, member, same⟩
      obtain ⟨start, among, endsAt⟩ := exists_of_forall₂ each last member
      exact ⟨start, among, last, endsAt.isLeast, same⟩
    · intro ⟨start, member, last, least, same⟩
      obtain ⟨reached, among, endsAt⟩ := exists_of_forall₂ each.flip start member
      exact ⟨last, (GnuChains.EndsAt.isLeast endsAt).unique least ▸ among, same⟩
  constructor
  · intro ⟨ends, each, counts⟩
    refine ⟨fun start member => ?_, ?_⟩
    · obtain ⟨last, _, endsAt⟩ := exists_of_forall₂ each.flip start member
      exact ⟨last, endsAt⟩
    · rw [← collected ends each, counts]
      exact isGreatest_countOf _ ends
  · intro ⟨each, greatest⟩
    obtain ⟨ends, every⟩ := forall₂_choose each
    refine ⟨ends, every, ?_⟩
    rw [← collected ends every] at greatest
    exact greatest.unique (isGreatest_countOf _ ends)

/-! ### The whole table -/

/-- What is read before any chain is walked. -/
structure GnuLayout where
  buckets : Nat
  bloomShift : Nat
  wordSize : Nat
  bloom : List Nat
  bucketRange : Resolved
  chains : GnuChains

/-- `_gnu_hash_symbol_count` up to the loop over the buckets -/
def gnuLayout (file : Bytes) (segments : List LoadSegment) (address elfClass : Nat) : Inspect GnuLayout := do
  let header ← resolve segments address 16 "DT_GNU_HASH header"
  let values ← unpackIn file [4, 4, 4, 4] header 0 "DT_GNU_HASH header"
  let buckets := values.getD 0 0
  let symbolOffset := values.getD 1 0
  let bloomSize := values.getD 2 0
  let bloomShift := values.getD 3 0
  reject
    (buckets = 0 ∨ maxHashBuckets < buckets ∨ bloomSize = 0 ∨ bloomSize &&& (bloomSize - 1) ≠ 0 ∨
      maxDynamicSymbols < symbolOffset ∨ 32 ≤ bloomShift)
    "DT_GNU_HASH header is invalid"
  let wordSize := if elfClass = 2 then 8 else 4
  let bloomRange ← resolve segments (address + 16) (bloomSize * wordSize) "DT_GNU_HASH bloom"
  let bloom ← (List.range bloomSize).mapM fun index =>
    wordIn file wordSize bloomRange (index * wordSize) "DT_GNU_HASH bloom"
  let bucketAddress := address + 16 + bloomSize * wordSize
  let bucketRange ← resolve segments bucketAddress (buckets * 4) "DT_GNU_HASH buckets"
  let chainAddress := bucketAddress + buckets * 4
  let available ← lift (mappedAvailable segments chainAddress "DT_GNU_HASH chains")
  pure
    { buckets := buckets
      bloomShift := bloomShift
      wordSize := wordSize
      bloom := bloom
      bucketRange := bucketRange
      chains :=
        { segments := segments, symbolOffset := symbolOffset, address := chainAddress
          maximum := min (available / 4) maxDynamicSymbols } }

/-- `_gnu_hash_symbol_count` from the loop over the buckets on -/
def gnuTable (file : Bytes) (layout : GnuLayout) : Inspect GnuHashTable := do
  let scan ← (List.range layout.buckets).foldlM (scanBucket file layout.chains layout.bucketRange)
    { values := [], terminals := [], count := layout.chains.symbolOffset }
  reject (scan.count = 0 ∨ maxDynamicSymbols < scan.count) "DT_GNU_HASH cardinality is invalid"
  let chainValues ← (List.range (scan.count - layout.chains.symbolOffset)).mapM fun index =>
    layout.chains.word file index
  pure
    { symbolCount := scan.count
      symbolOffset := layout.chains.symbolOffset
      bloomShift := layout.bloomShift
      wordBits := layout.wordSize * 8
      bloom := layout.bloom
      buckets := scan.values
      chains := chainValues }

theorem gnuHashSymbolCount_eq (address elfClass : Nat) :
    gnuHashSymbolCount file segments address elfClass = gnuLayout file segments address elfClass >>= gnuTable file := by
  simp only [gnuLayout, gnuTable, gnuHashSymbolCount, bind_assoc, pure_bind]

/-- A table that walking the chain of every non-zero bucket on its own gives. -/
structure NaiveTable (file : Bytes) (layout : GnuLayout) (table : GnuHashTable) : Prop where
  symbolOffset : table.symbolOffset = layout.chains.symbolOffset
  bloomShift : table.bloomShift = layout.bloomShift
  wordBits : table.wordBits = layout.wordSize * 8
  bloom : table.bloom = layout.bloom
  buckets : List.Forall₂ (BucketReads file layout.bucketRange) (List.range layout.buckets) table.buckets
  ends : ∀ start ∈ table.buckets, start ≠ 0 → ∃ last, layout.chains.EndsAt file start last
  count : IsGreatest (insert layout.chains.symbolOffset {count | ∃ start ∈ table.buckets, start ≠ 0 ∧ ∃ last,
    IsLeast {index | start ≤ index ∧ layout.chains.OddWord file index} last ∧ count = last + 1}) table.symbolCount
  bounded : 1 ≤ table.symbolCount ∧ table.symbolCount ≤ maxDynamicSymbols
  chains : List.Forall₂ (fun index word => outcome (layout.chains.word file index) = some word)
    (List.range (table.symbolCount - layout.chains.symbolOffset)) table.chains

theorem uniform_gnuTable (layout : GnuLayout) : Uniform (gnuTable file layout) :=
  (uniform_foldlM (uniform_scanBucket _) _ _).bind fun _ => uniform_reject.bind fun _ =>
    (uniform_mapM (fun _ => uniform_word _) _).bind fun _ => uniform_pure _

/-- The words that the last loop reads. -/
theorem outcome_words (indices words : List Nat) :
    outcome (indices.mapM fun index => chains.word file index) = some words ↔
      List.Forall₂ (fun index word => outcome (chains.word file index) = some word) indices words := by
  rw [outcome_mapM fun _ => uniform_word _]
  induction indices generalizing words with
  | nil =>
      rw [List.forall₂_nil_left_iff, List.mapM_nil]
      exact ⟨fun same => (Option.some.inj same).symm, fun same => same ▸ rfl⟩
  | cons index rest ih =>
      rw [List.forall₂_cons_left_iff, List.mapM_cons]
      simp only [bind, Option.bind_eq_some_iff, pure, Option.some.injEq, ih]
      exact ⟨fun ⟨word, first, others, later, same⟩ => ⟨word, others, first, later, same.symm⟩,
        fun ⟨word, others, first, later, same⟩ => ⟨word, first, others, later, same.symm⟩⟩

/-- The ends of the non-zero buckets, as the claims about all buckets. -/
theorem filled_ends_iff (values : List Nat) (count : Nat) :
    (∃ ends, List.Forall₂ (chains.EndsAt file) (values.filter (· ≠ 0)) ends ∧ count = countOf chains.symbolOffset ends) ↔
      (∀ start ∈ values, start ≠ 0 → ∃ last, chains.EndsAt file start last) ∧
        IsGreatest (insert chains.symbolOffset {count | ∃ start ∈ values, start ≠ 0 ∧ ∃ last,
          IsLeast {index | start ≤ index ∧ chains.OddWord file index} last ∧ count = last + 1}) count := by
  rw [ends_iff]
  simp only [List.mem_filter, decide_eq_true_eq, and_imp, and_assoc]

theorem gnuTable_iff {layout : GnuLayout} {table : GnuHashTable} :
    outcome (gnuTable file layout) = some table ↔ NaiveTable file layout table := by
  have nothing : MemoSound (layout.chains.verdict file) ([] : List (Nat × Nat)) := fun _ member => nomatch member
  have scanned := fun values count => @scan_outcome file layout.chains layout.bucketRange (List.range layout.buckets)
    ⟨[], [], layout.chains.symbolOffset⟩ nothing values count
  unfold gnuTable
  rw [outcome_bind fun _ => uniform_reject.bind fun _ =>
    (uniform_mapM (fun _ => uniform_word _) _).bind fun _ => uniform_pure _, Option.bind_eq_some_iff]
  constructor
  · intro ⟨scan, ran, rest⟩
    obtain ⟨after, same, reads, found⟩ := (scanned scan.values scan.count).mp ⟨scan.terminals, ran⟩
    rw [List.nil_append] at same
    subst same
    obtain ⟨ends, greatest⟩ := (filled_ends_iff scan.values scan.count).mp found
    rw [outcome_bind fun _ => (uniform_mapM (fun _ => uniform_word _) _).bind fun _ => uniform_pure _,
      outcome_reject] at rest
    split at rest
    · cases rest
    · next inside =>
        have bounded : 1 ≤ scan.count ∧ scan.count ≤ maxDynamicSymbols := by omega
        rw [Option.bind_some, outcome_bind fun _ => uniform_pure _, Option.bind_eq_some_iff] at rest
        obtain ⟨words, read, same⟩ := rest
        cases same
        exact ⟨rfl, rfl, rfl, rfl, reads, ends, greatest, bounded, (outcome_words _ _).mp read⟩
  · intro naive
    obtain ⟨memo, ran⟩ := (scanned table.buckets table.symbolCount).mpr
      ⟨table.buckets, rfl, naive.buckets, (filled_ends_iff _ _).mpr ⟨naive.ends, naive.count⟩⟩
    refine ⟨_, ran, ?_⟩
    have bounded := naive.bounded
    rw [outcome_bind fun _ => (uniform_mapM (fun _ => uniform_word _) _).bind fun _ => uniform_pure _, outcome_reject,
      if_neg (by simp only; omega), Option.bind_some, outcome_bind fun _ => uniform_pure _,
      (outcome_words _ _).mpr naive.chains, Option.bind_some, outcome_pure,
      ← naive.symbolOffset, ← naive.bloomShift, ← naive.wordBits, ← naive.bloom]

/-- The walk with the memo succeeds exactly when walking the chain of every non-zero bucket on its own does, and
its table is the one that gives. -/
theorem gnuHashSymbolCount_naive (file : Bytes) (segments : List LoadSegment) (address elfClass : Nat)
    (table : GnuHashTable) :
    outcome (gnuHashSymbolCount file segments address elfClass) = some table ↔
      ∃ layout, outcome (gnuLayout file segments address elfClass) = some layout ∧ NaiveTable file layout table := by
  rw [gnuHashSymbolCount_eq, outcome_bind uniform_gnuTable, Option.bind_eq_some_iff]
  simp only [gnuTable_iff]

end

end ExitfyCores.Elf
