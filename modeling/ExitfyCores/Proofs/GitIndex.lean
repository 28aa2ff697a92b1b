/-
Module: ExitfyCores.Proofs.GitIndex
Layer: Proofs
Purpose: The two readers of the Git index agree, and the builder reads back what `git ls-files` writes.
Imports: ExitfyCores.Bundle.GitIndex
Trusted boundary: none
Main exports: publicRelativePath_eq_ok, decodePaths_of_canonical, defaultEntryStep_of_builder, verifier_accepts,
  splitIndexHeader_header, gitIndexEntries_render, indexReadersExact
Open obligations: none
-/
import ExitfyCores.Bundle.GitIndex

namespace ExitfyCores.Bundle

open Py Records

/-! ### Paths -/

/-- `path.as_posix()` of a relative path -/
def asPosixText (relative : List Text) : Text := [47].intercalate relative

/-- What an admitted path is. -/
structure Admitted (raw : Bytes) (value : Text) : Prop where
  decoded : decodeUtf8 false raw = some value
  nonempty : value ≠ []
  relative : value.head? ≠ some 47
  parts : ∀ part ∈ value.splitOn 47, part ≠ [] ∧ part ≠ text "." ∧ part ≠ text ".."

theorem publicRelativePath_eq_ok {raw : Bytes} {parts : List Text} (admitted : publicRelativePath raw = .ok parts) :
    ∃ value, Admitted raw value ∧ parts = value.splitOn 47 := by
  unfold publicRelativePath at admitted
  split at admitted
  · cases admitted
  · split at admitted
    · cases admitted
    · rename_i value decoded
      simp only at admitted
      split at admitted
      · cases admitted
      · rename_i safe
        simp only [List.any_eq_true, decide_eq_true_eq, not_or, not_exists, not_and] at safe
        cases admitted
        exact ⟨value, ⟨decoded, safe.1, safe.2.1, fun part member => safe.2.2.1 part member⟩, rfl⟩

/-- No two byte strings are admitted as one path. -/
theorem publicRelativePath_injective {raw raw' : Bytes} {parts : List Text}
    (first : publicRelativePath raw = .ok parts) (second : publicRelativePath raw' = .ok parts) : raw = raw' := by
  obtain ⟨value, admitted, same⟩ := publicRelativePath_eq_ok first
  obtain ⟨value', admitted', same'⟩ := publicRelativePath_eq_ok second
  have equal : value = value' := by
    calc value = [47].intercalate (value.splitOn 47) := (List.intercalate_splitOn 47).symm
      _ = [47].intercalate (value'.splitOn 47) := by rw [← same, same']
      _ = value' := List.intercalate_splitOn 47
  exact decodeUtf8_injective admitted.decoded (equal ▸ admitted'.decoded)

theorem decodePaths_of_admitted {raw : Bytes} {value label : Text} (admitted : Admitted raw value) (noNul : 0 ∉ raw) :
    decodePaths (raw ++ [0]) label = .ok [value] := by
  have items : (raw ++ [0]).splitOn 0 = [raw, []] := by
    rw [List.splitOn_append_cons_self_of_not_mem noNul]
    rfl
  have nonempty : raw ≠ [] := by
    intro empty
    have decoded := admitted.decoded
    rw [empty] at decoded
    exact admitted.nonempty (Option.some.inj decoded).symm
  have single : value ≠ text "." := by
    intro dot
    have parts := admitted.parts
    rw [dot] at parts
    exact (parts (text ".") (by decide)).2.1 rfl
  have above : text ".." ∉ pathParts value := by
    intro member
    exact (admitted.parts _ (List.mem_filter.mp member).1).2.2 rfl
  have turn : decodePathStep label [] raw = .ok [value] := by
    simp [decodePathStep, nonempty, admitted.decoded, throwIf, admitted.relative, admitted.nonempty, single, above,
      ok_bind, pure, Except.pure]
  rw [decodePaths, items, List.foldlM_cons, turn, ok_bind, List.foldlM_cons]
  rfl

/-! ### One record -/

theorem nextIndexRecord_eq_ok {noEnd noMetadata : Text} {output rest : Bytes} {record : IndexRecord}
    (read : nextIndexRecord noEnd noMetadata output = .ok (record, rest)) : 0 ∉ record.header := by
  unfold nextIndexRecord at read
  split at read
  · cases read
  · split at read
    · cases read
      intro member
      simpa using List.all_eq_true.mp List.all_takeWhile 0 member
    · cases read

theorem nextIndexRecord_messages {noEnd noMetadata noEnd' noMetadata' : Text} {output : Bytes}
    {found : IndexRecord × Bytes} (read : nextIndexRecord noEnd noMetadata output = .ok found) :
    nextIndexRecord noEnd' noMetadata' output = .ok found := by
  unfold nextIndexRecord at read ⊢
  split at read
  · cases read
  · rename_i zero behind behindZero
    split at read
    · rename_i runs rest matched
      simpa [matched] using read
    · cases read

theorem splitIndexHeader_path {raw : Bytes} {header : IndexHeader} (split' : splitIndexHeader raw = some header) :
    header.path <:+ raw := by
  unfold splitIndexHeader at split'
  split at split'
  · cases split'
  · rename_i tab path behind
    split at split'
    · cases split'
      have inside := List.dropWhile_suffix (· ≠ byte '\t') (l := raw)
      rw [behind] at inside
      exact (List.suffix_cons tab path).trans inside
    · cases split'

/-- A header that the builder takes. -/
theorem checkIndexHeader_eq_ok {header : IndexHeader} {flags : Bytes}
    (passed : checkIndexHeader header flags = .ok ()) :
    header.tag = lit "H" ∧ parseHex flags = 0 ∧ header.stage = lit "0" ∧ isRegularMode header.mode = true ∧
      isObjectId header.objectId = true := by
  obtain ⟨_, tag, passed⟩ := bind_eq_ok passed
  obtain ⟨_, flags', passed⟩ := bind_eq_ok passed
  obtain ⟨_, stage, passed⟩ := bind_eq_ok passed
  obtain ⟨_, mode, passed⟩ := bind_eq_ok passed
  rw [throwIf_eq_ok, not_not] at tag flags' stage
  rw [throwIf_eq_ok, Bool.not_eq_false] at mode passed
  exact ⟨tag, flags', stage, mode, passed⟩

/-- A turn of the builder adds the entry of a new admitted path. -/
theorem indexEntryStep_eq_ok {scan next : IndexScan} {record : IndexRecord} (turn : indexEntryStep scan record = .ok next) :
    ∃ header relative, splitIndexHeader record.header = some header ∧ checkIndexHeader header record.flags = .ok () ∧
      publicRelativePath header.path = .ok relative ∧ relative ∉ scan.values.map Prod.fst ∧
      next.values = scan.values ++ [(relative, gitIndexEntry header.mode header.objectId)] := by
  unfold indexEntryStep at turn
  split at turn
  · cases turn
  · rename_i header split'
    obtain ⟨_, passed, turn⟩ := bind_eq_ok turn
    obtain ⟨relative, admitted, turn⟩ := bind_eq_ok turn
    obtain ⟨_, _, turn⟩ := bind_eq_ok turn
    obtain ⟨_, _, turn⟩ := bind_eq_ok turn
    obtain ⟨_, fresh, turn⟩ := bind_eq_ok turn
    cases turn
    exact ⟨header, relative, split', passed, admitted, throwIf_eq_ok.mp fresh, rfl⟩

/-! ### Agreement -/

/-- One entry as the two scripts have it. -/
structure SameEntry (value : List Text × GitIndexEntry) (entry : DefaultEntry) : Prop where
  path : value.1 = entry.path.splitOn 47
  mode : value.2.mode = parseOctal entry.mode
  objectId : value.2.objectId = entry.objectId

/-- The two loops after the same records. -/
structure SameScan (scan : IndexScan) (other : DefaultScan) : Prop where
  entries : List.Forall₂ SameEntry scan.values other.entries
  paths : ∀ path ∈ other.paths, ∃ entry ∈ other.entries, entry.path = path

/-- Where the builder takes a record, the verifier takes it. -/
theorem defaultEntryStep_of_builder {scan next : IndexScan} {other : DefaultScan} {record : IndexRecord}
    (noNul : 0 ∉ record.header) (same : SameScan scan other) (turn : indexEntryStep scan record = .ok next) :
    ∃ next', defaultEntryStep other record = .ok next' ∧ SameScan next next' := by
  obtain ⟨header, relative, split', passed, admitted, fresh, added⟩ := indexEntryStep_eq_ok turn
  obtain ⟨tag, flags, stage, mode, objectId⟩ := checkIndexHeader_eq_ok passed
  obtain ⟨value, shape, parts⟩ := publicRelativePath_eq_ok admitted
  have canonical := @decodePaths_of_admitted _ _ (text "Git index") shape
    fun member => noNul ((splitIndexHeader_path split').subset member)
  have unseen : value ∉ other.paths := by
    intro member
    obtain ⟨entry, inside, equal⟩ := same.paths value member
    obtain ⟨old, inValues, related⟩ := exists_of_forall₂ same.entries entry inside
    refine fresh ?_
    rw [parts, ← equal, ← related.path]
    exact List.mem_map_of_mem inValues
  refine ⟨{ paths := value :: other.paths, entries := other.entries ++ [defaultEntry header value] }, ?_, ?_, ?_⟩
  · simp [defaultEntryStep, split', shape.decoded, throwIf, tag, flags, stage, mode, objectId, canonical, unseen, ok_bind,
      pure, Except.pure]
  · rw [added]
    refine List.rel_append same.entries (List.Forall₂.cons ?_ List.Forall₂.nil)
    exact ⟨parts, rfl, rfl⟩
  · intro path member
    rcases List.mem_cons.mp member with equal | earlier
    · exact ⟨defaultEntry header value, by simp, equal.symm⟩
    · obtain ⟨entry, inside, equal⟩ := same.paths path earlier
      exact ⟨entry, List.mem_append_left _ inside, equal⟩

/-- What the builder accepts the verifier accepts, with the same entries. -/
theorem verifier_accepts {output : Bytes} {values : List (List Text × GitIndexEntry)}
    (accepted : gitIndexEntries output = .ok values) :
    ∃ entries, assertDefaultIndexEntries output = .ok entries ∧ ∀ path mode objectId,
      (∃ relative entry, (relative, entry) ∈ values ∧ asPosixText relative = path ∧ entry.mode = mode ∧
        entry.objectId = objectId) ↔
      ∃ entry ∈ entries, entry.path = path ∧ parseOctal entry.mode = mode ∧ entry.objectId = objectId := by
  obtain ⟨scan, run, done⟩ := bind_eq_ok accepted
  cases done
  have start : SameScan { values := [], retainedBytes := 0, records := 0 } { paths := [], entries := [] } :=
    ⟨List.Forall₂.nil, by simp⟩
  obtain ⟨final, run', same⟩ := @scan_simulates _ _ _ _ _ builderReader verifierReader indexEntryStep
    defaultEntryStep SameScan (fun text found read => nextIndexRecord_messages read)
    (fun text record rest state other next read held turn =>
      defaultEntryStep_of_builder (nextIndexRecord_eq_ok read) held turn)
    _ _ _ _ start run
  refine ⟨final.entries.mergeSort fun entry other => entry.path ≤ other.path, ?_, fun path mode objectId => ?_⟩
  · simp only [assertDefaultIndexEntries, run', ok_bind]
    rfl
  · constructor
    · intro ⟨relative, entry, member, equalPath, equalMode, equalId⟩
      obtain ⟨entry', member', related⟩ := exists_of_forall₂ same.entries.flip _ member
      refine ⟨entry', List.mem_mergeSort.mpr member', ?_, ?_, ?_⟩
      · have parts : relative = entry'.path.splitOn 47 := related.path
        rw [← equalPath, asPosixText, parts, List.intercalate_splitOn]
      · exact related.mode.symm.trans equalMode
      · exact related.objectId.symm.trans equalId
    · intro ⟨entry, member, equalPath, equalMode, equalId⟩
      obtain ⟨⟨relative, value⟩, member', related⟩ := exists_of_forall₂ same.entries _ (List.mem_mergeSort.mp member)
      refine ⟨relative, value, member', ?_, ?_, ?_⟩
      · have parts : relative = entry.path.splitOn 47 := related.path
        rw [asPosixText, parts, List.intercalate_splitOn, equalPath]
      · exact related.mode.trans equalMode
      · exact related.objectId.trans equalId

/-! ### Reading back what was written -/

theorem isHexDigit_of_isObjectId {raw : Bytes} (isId : isObjectId raw = true) : ∀ b ∈ raw, isHexDigit b.toNat = true := by
  have all : (asciiText raw).all isHexDigit = true := by
    simp only [isObjectId, isHexText, Bool.or_eq_true, Bool.and_eq_true] at isId
    rcases isId with short | long
    · exact short.2
    · exact long.2
  intro b member
  exact List.all_eq_true.mp all _ (List.mem_map_of_mem member)

/-- A hexadecimal digit is none of the separators. -/
theorem separator_of_isHexDigit {b : UInt8} (digit : isHexDigit b.toNat = true) :
    b ≠ 0 ∧ b ≠ byte '\t' ∧ b ≠ byte ' ' := by
  refine ⟨?_, ?_, ?_⟩ <;> intro same <;> rw [same] at digit <;> exact absurd digit (by decide)

/-- The bytes of a part of the metadata. -/
def Plain (part : Bytes) : Prop := ∀ b ∈ part, b ≠ 0 ∧ b ≠ byte '\t' ∧ b ≠ byte ' '

theorem ListedEntry.plain_parts (entry : ListedEntry) :
    ∀ part ∈ [lit "H", entry.mode, entry.objectId, lit "0"], Plain part := by
  have mode : Plain entry.mode := by
    unfold ListedEntry.mode Plain
    split <;> decide +kernel
  have objectId : Plain entry.objectId := fun b member =>
    separator_of_isHexDigit (isHexDigit_of_isObjectId entry.isId b member)
  have tag : Plain (lit "H") := by
    unfold Plain
    decide +kernel
  have stage : Plain (lit "0") := by
    unfold Plain
    decide +kernel
  intro part member
  simp only [List.mem_cons, List.not_mem_nil, or_false] at member
  rcases member with same | same | same | same <;> rw [same] <;> assumption

theorem ListedEntry.metadata_separators (entry : ListedEntry) :
    ∀ b ∈ [byte ' '].intercalate [lit "H", entry.mode, entry.objectId, lit "0"], b ≠ 0 ∧ b ≠ byte '\t' := by
  intro b member
  have inside : b = byte ' ' ∨ ∃ part ∈ [lit "H", entry.mode, entry.objectId, lit "0"], b ∈ part := by
    simp only [List.intercalate, List.intersperse, List.flatten_cons, List.flatten_nil, List.mem_append,
      List.mem_singleton, List.append_nil] at member
    simp only [List.mem_cons, List.not_mem_nil, or_false, exists_eq_or_imp, exists_eq_left]
    tauto
  rcases inside with space | ⟨part, isPart, inPart⟩
  · rw [space]
    decide
  · have plain := entry.plain_parts part isPart b inPart
    exact ⟨plain.1, plain.2.1⟩

/-- The header that was written is split into its parts. -/
theorem splitIndexHeader_header (entry : ListedEntry) :
    splitIndexHeader entry.header = some
      { tag := lit "H", mode := entry.mode, objectId := entry.objectId, stage := lit "0", path := entry.path } := by
  have plain : ([byte ' '].intercalate [lit "H", entry.mode, entry.objectId, lit "0"]).all (· ≠ byte '\t') = true :=
    List.all_eq_true.mpr fun b member => by simpa using (entry.metadata_separators b member).2
  obtain ⟨taken, dropped⟩ := takeWhile_stop plain (by decide : decide (byte '\t' ≠ byte '\t') = false) entry.path
  have parts := @List.splitOn_intercalate _ [lit "H", entry.mode, entry.objectId, lit "0"] _ _ (byte ' ')
    (fun part member space => (entry.plain_parts part member _ space).2.2 rfl) (by simp)
  unfold splitIndexHeader ListedEntry.header
  rw [dropped, taken, parts]

theorem decimalBytes_digits (value : Nat) : decimalBytes value ≠ [] ∧ (decimalBytes value).all isDecimalByte = true := by
  constructor
  · simp [decimalBytes]
  · rw [decimalBytes, List.all_map, List.all_eq_true]
    intro c member
    have digit := List.all_eq_true.mp (all_isDigit_decimal value) c member
    simp only [isDigit, Bool.and_eq_true, decide_eq_true_eq] at digit
    have code : (UInt8.ofNat c).toNat = c := toNat_ofNat_ascii (by omega)
    simp only [Function.comp, isDecimalByte, Bool.and_eq_true, decide_eq_true_eq, UInt8.le_iff_toNat_le, code]
    exact digit

/-- The flag of an entry with default flags. -/
theorem zero_flag : lit "0" ≠ [] ∧ (lit "0").all isHexByte = true := by decide

/-- Behind every number stands a symbol that is no digit. -/
theorem fits_runs (stat : DebugStat) : Fits indexDebugMetadata stat.runs := by
  have number := decimalBytes_digits
  simp only [indexDebugMetadata, DebugStat.runs, Fits]
  refine ⟨number _, ?_, number _, ?_, number _, ?_, number _, ?_, number _, ?_, number _, ?_, number _, ?_, number _, ?_,
    number _, ?_, zero_flag, ?_, trivial⟩ <;> decide

/-- The record of an entry is read back from the head of the output. -/
theorem next_render {noEnd noMetadata : Text} {entry : ListedEntry} (noNul : 0 ∉ entry.path) (rest : Bytes) :
    nextIndexRecord noEnd noMetadata (entry.render ++ rest) =
      .ok ({ header := entry.header, flags := lit "0" }, rest) := by
  have plain : entry.header.all (· ≠ 0) = true := by
    rw [List.all_eq_true]
    intro b member
    rcases List.mem_append.mp member with inMetadata | behind
    · simpa using (entry.metadata_separators b inMetadata).1
    · rcases List.mem_cons.mp behind with tab | inPath
      · rw [tab]
        decide
      · simpa using fun zero : b = 0 => noNul (zero ▸ inPath)
  obtain ⟨taken, dropped⟩ := takeWhile_stop plain (by simp : decide ((0 : UInt8) ≠ 0) = false)
    (renderPieces indexDebugMetadata entry.stat.runs ++ rest)
  have text : entry.render ++ rest = entry.header ++ 0 :: (renderPieces indexDebugMetadata entry.stat.runs ++ rest) := by
    simp [ListedEntry.render]
  unfold nextIndexRecord
  rw [text, dropped, taken]
  simp only [readPieces_render (fits_runs entry.stat)]
  rfl

/-- What the builder makes of an entry. -/
def ListedEntry.value (entry : ListedEntry) (relative : List Text) : List Text × GitIndexEntry :=
  (relative, gitIndexEntry entry.mode entry.objectId)

/-- The record of an entry. -/
def ListedEntry.record (entry : ListedEntry) : IndexRecord := { header := entry.header, flags := lit "0" }

/-- The turn of the builder at an entry. -/
theorem indexEntryStep_record {scan : IndexScan} {entry : ListedEntry} {relative : List Text}
    (admitted : publicRelativePath entry.path = .ok relative) (count : scan.records + 1 ≤ Builder.maxArchiveFiles)
    (bytes : scan.retainedBytes + entry.path.length ≤ Builder.maxRetainedPathBytes)
    (fresh : relative ∉ scan.values.map Prod.fst) :
    indexEntryStep scan entry.record = .ok
      { values := scan.values ++ [entry.value relative], retainedBytes := scan.retainedBytes + entry.path.length,
        records := scan.records + 1 } := by
  have mode : isRegularMode entry.mode = true := by
    unfold ListedEntry.mode
    split <;> decide
  have flags : parseHex (lit "0") = 0 := by decide
  have split' : splitIndexHeader entry.record.header = some
      { tag := lit "H", mode := entry.mode, objectId := entry.objectId, stage := lit "0", path := entry.path } :=
    splitIndexHeader_header entry
  have passed : checkIndexHeader
      { tag := lit "H", mode := entry.mode, objectId := entry.objectId, stage := lit "0", path := entry.path }
      entry.record.flags = .ok () := by
    simp [checkIndexHeader, ListedEntry.record, throwIf, flags, mode, entry.isId, ok_bind]
  simp only [indexEntryStep, split', passed, ok_bind, admitted, addIndexEntry,
    throwIf_eq_ok.mpr (Nat.not_lt.mpr count), throwIf_eq_ok.mpr (Nat.not_lt.mpr bytes), throwIf_eq_ok.mpr fresh]
  rfl

/-- The whole loop at the entries. -/
theorem foldlM_records {items : List ListedEntry} {relatives : List (List Text)}
    (admitted : List.Forall₂ (fun item relative => publicRelativePath item.path = .ok relative) items relatives)
    (scan : IndexScan) (distinct : (scan.values.map Prod.fst ++ relatives).Nodup)
    (count : scan.records + items.length ≤ Builder.maxArchiveFiles)
    (bytes : scan.retainedBytes + (items.map fun item => item.path.length).sum ≤ Builder.maxRetainedPathBytes) :
    ∃ final, items.foldlM (fun scan item => indexEntryStep scan item.record) scan = .ok final ∧
      final.values = scan.values ++ List.zipWith ListedEntry.value items relatives := by
  induction admitted generalizing scan with
  | nil => exact ⟨scan, rfl, by simp⟩
  | @cons item relative items relatives first _ ih =>
      simp only [List.length_cons, List.map_cons, List.sum_cons] at count bytes
      have fresh : relative ∉ scan.values.map Prod.fst := by
        intro member
        exact (List.nodup_append.mp distinct).2.2 relative member relative List.mem_cons_self rfl
      have turn := indexEntryStep_record first (by omega : scan.records + 1 ≤ _)
        (by omega : scan.retainedBytes + item.path.length ≤ _) fresh
      obtain ⟨final, run, values⟩ := ih
        { values := scan.values ++ [item.value relative], retainedBytes := scan.retainedBytes + item.path.length,
          records := scan.records + 1 }
        (by simpa [ListedEntry.value] using distinct) (by simp only; omega) (by simp only; omega)
      refine ⟨final, by rw [List.foldlM_cons, turn, ok_bind, run], ?_⟩
      rw [values]
      simp

theorem relatives_nodup {items : List ListedEntry} {relatives : List (List Text)}
    (admitted : List.Forall₂ (fun item relative => publicRelativePath item.path = .ok relative) items relatives)
    (distinct : (items.map ListedEntry.path).Nodup) : relatives.Nodup := by
  induction admitted with
  | nil => exact List.nodup_nil
  | cons first rest ih =>
      rw [List.map_cons, List.nodup_cons] at distinct
      refine List.nodup_cons.mpr ⟨fun member => distinct.1 ?_, ih distinct.2⟩
      obtain ⟨item, inside, same⟩ := exists_of_forall₂ rest _ member
      rw [publicRelativePath_injective first same]
      exact List.mem_map_of_mem inside

/-- The builder reads the entries back from what `git ls-files` writes of them. -/
theorem gitIndexEntries_render {items : List ListedEntry} {relatives : List (List Text)}
    (admitted : List.Forall₂ (fun item relative => publicRelativePath item.path = .ok relative) items relatives)
    (distinct : (items.map ListedEntry.path).Nodup) (noNul : ∀ item ∈ items, 0 ∉ item.path)
    (count : items.length ≤ Builder.maxArchiveFiles)
    (bytes : (items.map fun item => item.path.length).sum ≤ Builder.maxRetainedPathBytes) :
    gitIndexEntries (items.flatMap ListedEntry.render) = .ok (List.zipWith ListedEntry.value items relatives) := by
  obtain ⟨final, run, values⟩ := foldlM_records admitted { values := [], retainedBytes := 0, records := 0 }
    (by simpa using relatives_nodup admitted distinct) (by simpa using count) (by simpa using bytes)
  have read : builderReader.scan indexEntryStep { values := [], retainedBytes := 0, records := 0 }
      (items.flatMap ListedEntry.render) = .ok final := by
    rw [← run]
    exact scan_rendered (fun item member rest => next_render (noNul item member) rest) _
  have all : final.values = List.zipWith ListedEntry.value items relatives := by simpa using values
  rw [gitIndexEntries, read, ok_bind, all]
  rfl

/-! ### The two readers -/

/-- What the builder accepts the verifier accepts, with the same entries; and the builder gives back every list of
regular entries with distinct admitted paths without NUL, within its limits, from what Git writes of them. -/
theorem indexReadersExact :
    (∀ output values, gitIndexEntries output = .ok values →
      ∃ entries, assertDefaultIndexEntries output = .ok entries ∧ ∀ path mode objectId,
        (∃ relative entry, (relative, entry) ∈ values ∧ asPosixText relative = path ∧ entry.mode = mode ∧
          entry.objectId = objectId) ↔
        ∃ entry ∈ entries, entry.path = path ∧ parseOctal entry.mode = mode ∧ entry.objectId = objectId) ∧
    ∀ items : List ListedEntry, (items.map ListedEntry.path).Nodup →
      (∀ item ∈ items, ∃ relative, publicRelativePath item.path = .ok relative) → (∀ item ∈ items, 0 ∉ item.path) →
      items.length ≤ Builder.maxArchiveFiles →
      (items.map fun item => item.path.length).sum ≤ Builder.maxRetainedPathBytes →
      ∃ values, gitIndexEntries (items.flatMap ListedEntry.render) = .ok values ∧
        List.Forall₂ (fun item value => publicRelativePath item.path = .ok value.1 ∧
          value.2.mode = (if item.executable then 0o100755 else 0o100644) ∧ value.2.objectId = asciiText item.objectId ∧
          value.2.hashName = if item.objectId.length = 40 then text "sha1" else text "sha256") items values := by
  refine ⟨fun output values => verifier_accepts, fun items distinct admitted noNul count bytes => ?_⟩
  obtain ⟨relatives, all⟩ : ∃ relatives,
      List.Forall₂ (fun item relative => publicRelativePath item.path = .ok relative) items relatives := by
    clear distinct noNul count bytes
    induction items with
    | nil => exact ⟨[], List.Forall₂.nil⟩
    | cons item items ih =>
        obtain ⟨relative, first⟩ := admitted item List.mem_cons_self
        obtain ⟨relatives, rest⟩ := ih fun other member => admitted other (List.mem_cons_of_mem item member)
        exact ⟨relative :: relatives, List.Forall₂.cons first rest⟩
  refine ⟨_, gitIndexEntries_render all distinct noNul count bytes, ?_⟩
  clear distinct admitted noNul count bytes
  induction all with
  | nil => exact List.Forall₂.nil
  | @cons item relative items relatives first _ ih =>
      refine List.Forall₂.cons ⟨first, ?_, rfl, rfl⟩ ih
      simp only [ListedEntry.value, gitIndexEntry, ListedEntry.mode]
      split <;> decide

/-- An entry with some path. -/
def sampleEntry (path : Bytes) : ListedEntry where
  path := path
  executable := false
  objectId := List.replicate 40 48
  stat := { ctime := (0, 0), mtime := (0, 0), dev := 0, ino := 0, uid := 0, gid := 0, size := 0 }
  isId := by decide

/-- A path of all the separators is read back. -/
theorem indexReadersExact_separators :
    ∃ values, gitIndexEntries ([sampleEntry (lit "a\tb c\nd")].flatMap ListedEntry.render) = .ok values := by
  obtain ⟨values, read, _⟩ := indexReadersExact.2 [sampleEntry (lit "a\tb c\nd")] (by simp)
    (fun item member => ⟨[text "a\tb c\nd"], by rw [List.mem_singleton.mp member]; decide⟩)
    (fun item member => by rw [List.mem_singleton.mp member]; decide) (by decide) (by decide)
  exact ⟨values, read⟩

/-- A path with a NUL is admitted, and ends the header of its record too early. -/
theorem nulPath_lost : publicRelativePath (sampleEntry [97, 0, 98]).path = .ok [[97, 0, 98]] ∧
    gitIndexEntries ([sampleEntry [97, 0, 98]].flatMap ListedEntry.render) =
      .error (text "git returned malformed index debug metadata") := by
  constructor
  · decide
  · have raised : builderReader.next ([sampleEntry [97, 0, 98]].flatMap ListedEntry.render) =
        .error (text "git returned malformed index debug metadata") := by decide
    have nonempty : [sampleEntry [97, 0, 98]].flatMap ListedEntry.render ≠ [] := by decide
    rw [gitIndexEntries, scan_error _ nonempty raised]
    rfl

end ExitfyCores.Bundle
