/-
Module: ExitfyCores.Proofs.RawTarGrammar
Layer: Proofs
Purpose: The raw scan of a tar stream accepts a grammar: members, each with at most one PAX header in front of it, and
  zeros up to the end of the last record. The members are determined by the stream.
Imports: ExitfyCores.Bundle.RawTar
Trusted boundary: human-reviewed spec of `IsArchive`
Main exports: PaxRecord, RawMember, IsArchive, turn_iff, archive_unique, rawTarGrammar
Open obligations: none
-/
import ExitfyCores.Bundle.RawTar

namespace ExitfyCores.Bundle

/-! ### The grammar -/

/-- A header block with a valid checksum and a valid size field. -/
structure IsHeader (header : Bytes) (type : UInt8) (size : Nat) : Prop where
  length : header.length = blockSize
  checksum : validateRawTarChecksum header = .ok ()
  size : parseCanonicalTarSize header = .ok size
  type : header.getD 156 0 = type

/-- A PAX header with its payload and its padding. -/
structure PaxRecord where
  header : Bytes
  payload : Bytes
  padding : Bytes

/-- The bytes of a PAX header. -/
def PaxRecord.bytes (record : PaxRecord) : Bytes := record.header ++ (record.payload ++ record.padding)

/-- A PAX header that the scan accepts. -/
structure PaxRecord.Valid (containsLocalHostPath : Bytes → Bool) (record : PaxRecord) : Prop where
  header : IsHeader record.header xhdType record.payload.length
  nonempty : record.payload ≠ []
  bounded : record.payload.length ≤ maxPaxBytes
  payload : validateRawPaxPayload containsLocalHostPath record.payload = .ok ()
  padded : record.payload.length + record.padding.length = paddedSize record.payload.length
  zero : AllZero record.padding

/-- A member: the PAX header in front of it, its own header, and its payload with the padding. -/
structure RawMember where
  pax : Option PaxRecord
  header : Bytes
  size : Nat
  contents : Bytes

/-- The type of a member. -/
def RawMember.type (member : RawMember) : UInt8 := member.header.getD 156 0

/-- The bytes of a member. -/
def RawMember.bytes (member : RawMember) : Bytes :=
  (member.pax.map PaxRecord.bytes).getD [] ++ (member.header ++ member.contents)

/-- The name in a header. -/
def rawName (header : Bytes) : Bytes := (header.take lengthName).takeWhile (· ≠ 0)

/-- A member's own header and contents, as the scan accepts them behind a PAX header or without one. -/
structure IsBody (containsLocalHostPath : Bytes → Bool) (afterPax : Bool) (header : Bytes) (size : Nat)
    (contents : Bytes) : Prop where
  block : IsHeader header (header.getD 156 0) size
  allowed : header.getD 156 0 ∈ semanticTypes
  name : afterPax = false →
    validateRawMemberName containsLocalHostPath (rawName header) (header.getD 156 0 == dirType) = .ok ()
  bounded : size ≤ maxMemberBytes
  padded : contents.length = paddedSize size

/-- A member that the scan accepts. -/
structure RawMember.Valid (containsLocalHostPath : Bytes → Bool) (member : RawMember) : Prop where
  pax : ∀ record ∈ member.pax, record.Valid containsLocalHostPath
  body : IsBody containsLocalHostPath member.pax.isSome member.header member.size member.contents

/-- A directory. -/
def RawMember.isDirectory (member : RawMember) : Bool := member.type == dirType

/-- A file. -/
def RawMember.isFile (member : RawMember) : Bool := [regType, aregType, contType].contains member.type

/-- The layout of members. -/
def layoutOf (members : List RawMember) : RawTarLayout :=
  { archiveEnd := (members.flatMap RawMember.bytes).length
    memberCount := members.length
    fileCount := members.countP RawMember.isFile
    directoryCount := members.countP RawMember.isDirectory }

/-- A stream of accepted members within the limits, and of zeros up to the end of the last record. -/
structure IsArchive (containsLocalHostPath : Bytes → Bool) (stream : Bytes) (members : List RawMember) : Prop where
  valid : ∀ member ∈ members, member.Valid containsLocalHostPath
  expanded : (members.map RawMember.size).sum ≤ maxExpandedBytes
  count : members.length ≤ maxMembers
  directories : members.countP RawMember.isDirectory ≤ maxArchiveDirectories
  files : members.countP RawMember.isFile ≤ maxArchiveFiles
  bytes : ∃ zeros, stream = members.flatMap RawMember.bytes ++ zeros ∧ AllZero zeros
  records : stream.length = canonicalTarStreamSize (members.flatMap RawMember.bytes).length

/-! ### Reading -/

theorem readExactAt_iff {stream data : Bytes} {size offset : Nat} :
    readExactAt stream size offset = .ok data ↔
      ∃ rest, stream.drop offset = data ++ rest ∧ data.length = size := by
  rw [readExactAt]
  split
  case isTrue short =>
    constructor
    · intro read
      cases read
    · intro ⟨rest, split, length⟩
      have lengths := congrArg List.length split
      rw [List.length_drop, List.length_append] at lengths
      omega
  case isFalse inside =>
    constructor
    · intro read
      cases read
      refine ⟨(stream.drop offset).drop size, (List.take_append_drop size _).symm, ?_⟩
      rw [List.length_take, List.length_drop]
      omega
    · intro ⟨rest, split, length⟩
      rw [split, List.take_left' length]

theorem canonicalTarStreamSize_ge (archiveEnd : Nat) :
    archiveEnd + 2 * blockSize ≤ canonicalTarStreamSize archiveEnd := by
  unfold canonicalTarStreamSize recordSize blockSize
  omega

theorem le_padded (size : Nat) : size ≤ paddedSize size := by
  unfold paddedSize blockSize
  omega

/-- A block of zeros is no header. -/
theorem IsHeader.not_allZero {header : Bytes} {type : UInt8} {size : Nat} (isHeader : IsHeader header type size) :
    ¬ AllZero header := by
  intro zero
  obtain ⟨_, octals, -⟩ := bind_eq_ok isHeader.checksum
  rw [raiseIf_eq_ok] at octals
  have field : headerField header 148 156 = List.replicate 8 0 := by
    have length : (headerField header 148 156).length = 8 := by
      have := isHeader.length
      simp only [headerField, List.length_drop, List.length_take, blockSize] at this ⊢
      omega
    rw [List.eq_replicate_iff]
    exact ⟨length, fun b member => zero b (List.mem_of_mem_take (List.mem_of_mem_drop member))⟩
  rw [field] at octals
  exact octals (by decide)

/-! ### One turn -/

/-- The counts are within the limits. -/
structure RawScan.Within (scan : RawScan) : Prop where
  expanded : scan.payloadTotal ≤ maxExpandedBytes
  count : scan.memberCount ≤ maxMembers
  directories : scan.directoryCount ≤ maxArchiveDirectories
  files : scan.fileCount ≤ maxArchiveFiles

/-- The variables behind a PAX header. -/
def RawScan.afterPax (scan : RawScan) (size : Nat) : RawScan :=
  { scan with pendingPax := true, offset := scan.offset + blockSize + paddedSize size }

/-- The variables behind a member. -/
def RawScan.afterBody (scan : RawScan) (typeflag : UInt8) (size : Nat) : RawScan :=
  { offset := scan.offset + blockSize + paddedSize size
    memberCount := scan.memberCount + 1
    fileCount := if typeflag ∈ [regType, aregType, contType] then scan.fileCount + 1 else scan.fileCount
    directoryCount := if typeflag = dirType then scan.directoryCount + 1 else scan.directoryCount
    payloadTotal := scan.payloadTotal + size
    pendingPax := false }

/-- The layout that the scan returns. -/
def RawScan.layout (scan : RawScan) : RawTarLayout :=
  { archiveEnd := scan.offset
    memberCount := scan.memberCount
    fileCount := scan.fileCount
    directoryCount := scan.directoryCount }

theorem validateZeroRange_iff {stream : Bytes} {offset : Nat} {message : String} :
    validateZeroRange stream offset (stream.length - offset) message = .ok () ↔ AllZero (stream.drop offset) := by
  have read : readExactAt stream (stream.length - offset) offset = .ok (stream.drop offset) :=
    readExactAt_iff.mpr ⟨[], by simp⟩
  rw [validateZeroRange, read, ok_bind, raiseIf_eq_ok, not_not]

theorem finishRawScan_iff {stream : Bytes} {scan : RawScan} {layout : RawTarLayout} :
    finishRawScan stream stream.length scan = .ok layout ↔
      scan.pendingPax = false ∧ stream.length = canonicalTarStreamSize scan.offset ∧
        AllZero (stream.drop scan.offset) ∧ layout = scan.layout := by
  have room := canonicalTarStreamSize_ge scan.offset
  constructor
  · intro run
    obtain ⟨_, pending, run⟩ := bind_eq_ok run
    obtain ⟨_, canonical, run⟩ := bind_eq_ok run
    obtain ⟨_, _, run⟩ := bind_eq_ok run
    obtain ⟨_, zero, run⟩ := bind_eq_ok run
    rw [raiseIf_eq_ok] at pending canonical
    have exact := not_not.mp canonical
    cases run
    exact ⟨by simpa using pending, exact, validateZeroRange_iff.mp zero, rfl⟩
  · intro ⟨pending, exact, zero, same⟩
    have orphaned : ¬ scan.pendingPax = true := by simp [pending]
    rw [finishRawScan, raiseIf_eq_ok.mpr orphaned, ok_bind, raiseIf_eq_ok.mpr (not_not.mpr exact), ok_bind,
      raiseIf_eq_ok.mpr (by omega), ok_bind, validateZeroRange_iff.mpr zero, ok_bind, same]
    rfl

theorem scanRawPax_iff {containsLocalHostPath : Bytes → Bool} {stream : Bytes} {scan next : RawScan} {size : Nat} :
    scanRawPax containsLocalHostPath stream scan size = .ok next ↔
      scan.pendingPax = false ∧ next = scan.afterPax size ∧ size ≠ 0 ∧ size ≤ maxPaxBytes ∧
        ∃ payload padding rest, stream.drop (scan.offset + blockSize) = payload ++ (padding ++ rest) ∧
          payload.length = size ∧ padding.length = paddedSize size - size ∧
          validateRawPaxPayload containsLocalHostPath payload = .ok () ∧ AllZero padding := by
  constructor
  · intro run
    obtain ⟨_, stacked, run⟩ := bind_eq_ok run
    obtain ⟨_, limits, run⟩ := bind_eq_ok run
    obtain ⟨payload, readPayload, run⟩ := bind_eq_ok run
    obtain ⟨_, valid, run⟩ := bind_eq_ok run
    obtain ⟨padding, readPadding, run⟩ := bind_eq_ok run
    obtain ⟨_, zero, run⟩ := bind_eq_ok run
    rw [raiseIf_eq_ok] at stacked limits zero
    obtain ⟨rest, split, length⟩ := readExactAt_iff.mp readPayload
    obtain ⟨rest', split', length'⟩ := readExactAt_iff.mp readPadding
    have behind : rest = padding ++ rest' := by
      rw [← split', ← List.drop_drop, split, List.drop_left' length]
    cases run
    exact ⟨by simpa using stacked, rfl, by omega, by omega, payload, padding, rest', by rw [split, behind], length,
      length', valid, not_not.mp zero⟩
  · intro ⟨pending, same, nonempty, bounded, payload, padding, rest, split, length, length', valid, zero⟩
    have readPayload : readExactAt stream size (scan.offset + blockSize) = .ok payload :=
      readExactAt_iff.mpr ⟨padding ++ rest, split, length⟩
    have readPadding : readExactAt stream (paddedSize size - size) (scan.offset + blockSize + size) = .ok padding := by
      refine readExactAt_iff.mpr ⟨rest, ?_, length'⟩
      rw [← List.drop_drop, split, List.drop_left' length]
    have stacked : ¬ scan.pendingPax = true := by simp [pending]
    rw [scanRawPax, raiseIf_eq_ok.mpr stacked, ok_bind, raiseIf_eq_ok.mpr (by omega), ok_bind, readPayload, ok_bind,
      valid, ok_bind, readPadding, ok_bind, raiseIf_eq_ok.mpr (not_not.mpr zero), ok_bind, same]
    rfl

/-- The checks of the limits, at the end of a turn for a member. -/
def limitChecks (scan : RawScan) (typeflag : UInt8) (size : Nat) : Except String RawScan := do
  raiseIf (maxMemberBytes < size) s!"oversized raw archive member: {size} bytes"
  raiseIf (maxExpandedBytes < scan.payloadTotal + size) "expanded source bundle exceeds limit"
  raiseIf (maxMembers < scan.memberCount + 1) s!"source bundle exceeds the {maxMembers}-member limit"
  raiseIf (typeflag = dirType ∧ maxArchiveDirectories < (scan.afterBody typeflag size).directoryCount)
    s!"source bundle exceeds the {maxArchiveDirectories}-directory limit"
  raiseIf (typeflag ∈ [regType, aregType, contType] ∧ maxArchiveFiles < (scan.afterBody typeflag size).fileCount)
    s!"source bundle exceeds the {maxArchiveFiles}-file limit"
  pure (scan.afterBody typeflag size)

theorem limitChecks_iff {scan next : RawScan} (within : scan.Within) {typeflag : UInt8} {size : Nat} :
    limitChecks scan typeflag size = .ok next ↔
      next = scan.afterBody typeflag size ∧ size ≤ maxMemberBytes ∧ next.Within := by
  constructor
  · intro run
    obtain ⟨_, bounded, run⟩ := bind_eq_ok run
    obtain ⟨_, expanded, run⟩ := bind_eq_ok run
    obtain ⟨_, count, run⟩ := bind_eq_ok run
    obtain ⟨_, directories, run⟩ := bind_eq_ok run
    obtain ⟨_, files, run⟩ := bind_eq_ok run
    rw [raiseIf_eq_ok] at bounded expanded count directories files
    cases run
    refine ⟨rfl, Nat.not_lt.mp bounded, Nat.not_lt.mp expanded, Nat.not_lt.mp count, ?_, ?_⟩
    · by_cases directory : typeflag = dirType
      · exact Nat.not_lt.mp fun overrun => directories ⟨directory, overrun⟩
      · simpa [RawScan.afterBody, directory] using within.directories
    · by_cases file : typeflag ∈ [regType, aregType, contType]
      · exact Nat.not_lt.mp fun overrun => files ⟨file, overrun⟩
      · have same : (scan.afterBody typeflag size).fileCount = scan.fileCount := if_neg file
        rw [same]
        exact within.files
  · intro ⟨same, bounded, within'⟩
    subst same
    have expanded : scan.payloadTotal + size ≤ maxExpandedBytes := within'.expanded
    have count : scan.memberCount + 1 ≤ maxMembers := within'.count
    rw [limitChecks, raiseIf_eq_ok.mpr (Nat.not_lt.mpr bounded), ok_bind, raiseIf_eq_ok.mpr (Nat.not_lt.mpr expanded),
      ok_bind, raiseIf_eq_ok.mpr (Nat.not_lt.mpr count), ok_bind, raiseIf_eq_ok.mpr fun overrun => absurd within'.directories (Nat.not_le.mpr overrun.2), ok_bind,
      raiseIf_eq_ok.mpr fun overrun => absurd within'.files (Nat.not_le.mpr overrun.2), ok_bind]
    rfl

theorem scanRawMember_eq (containsLocalHostPath : Bytes → Bool) (scan : RawScan) (header : Bytes) (typeflag : UInt8)
    (size : Nat) :
    scanRawMember containsLocalHostPath scan header typeflag size =
      (raiseIf (typeflag ∈ unsafeExtensionTypes) "noncanonical archive PAX metadata or extension type" >>= fun _ =>
        raiseIf (typeflag ∉ semanticTypes) s!"unsupported archive member type: {escapedText (rawName header)}" >>=
          fun _ =>
            (if scan.pendingPax then pure ()
              else validateRawMemberName containsLocalHostPath (rawName header) (typeflag == dirType)) >>= fun _ =>
                limitChecks scan typeflag size) := by
  obtain ⟨offset, memberCount, fileCount, directoryCount, payloadTotal, pendingPax⟩ := scan
  cases pendingPax <;> rfl

theorem scanRawMember_iff {containsLocalHostPath : Bytes → Bool} {scan next : RawScan} (within : scan.Within)
    {header : Bytes} {typeflag : UInt8} {size : Nat} :
    scanRawMember containsLocalHostPath scan header typeflag size = .ok next ↔
      next = scan.afterBody typeflag size ∧ typeflag ∈ semanticTypes ∧
        (scan.pendingPax = false →
          validateRawMemberName containsLocalHostPath (rawName header) (typeflag == dirType) = .ok ()) ∧
        size ≤ maxMemberBytes ∧ next.Within := by
  rw [scanRawMember_eq]
  constructor
  · intro run
    obtain ⟨_, _, run⟩ := bind_eq_ok run
    obtain ⟨_, allowed, run⟩ := bind_eq_ok run
    obtain ⟨_, name, run⟩ := bind_eq_ok run
    obtain ⟨same, bounded, within'⟩ := (limitChecks_iff within).mp run
    rw [raiseIf_eq_ok] at allowed
    refine ⟨same, not_not.mp allowed, fun pending => ?_, bounded, within'⟩
    rw [pending, if_neg Bool.false_ne_true] at name
    exact name
  · intro ⟨same, allowed, name, bounded, within'⟩
    have safe : typeflag ∉ unsafeExtensionTypes := by
      have disjoint : ∀ type ∈ semanticTypes, type ∉ unsafeExtensionTypes := by decide +kernel
      exact disjoint typeflag allowed
    have named : (if scan.pendingPax = true then pure ()
        else validateRawMemberName containsLocalHostPath (rawName header) (typeflag == dirType)) =
        (.ok () : Except String Unit) := by
      cases pending : scan.pendingPax with
      | true => rfl
      | false => exact name pending
    rw [raiseIf_eq_ok.mpr safe, ok_bind, raiseIf_eq_ok.mpr (not_not.mpr allowed), ok_bind, named, ok_bind]
    exact (limitChecks_iff within).mpr ⟨same, bounded, within'⟩

/-- What one turn does: it ends at zeros, or it goes behind a PAX header or a member. -/
theorem turn_iff {containsLocalHostPath : Bytes → Bool} {stream : Bytes} {turns : Nat} {scan : RawScan}
    (within : scan.Within) {layout : RawTarLayout} :
    scanRawTarFrom containsLocalHostPath stream stream.length (turns + 1) scan = .ok layout ↔
      (scan.pendingPax = false ∧ stream.length = canonicalTarStreamSize scan.offset ∧
          AllZero (stream.drop scan.offset) ∧ layout = scan.layout) ∨
        (∃ (record : PaxRecord) (rest : Bytes), stream.drop scan.offset = record.bytes ++ rest ∧ record.Valid containsLocalHostPath ∧
            scan.pendingPax = false ∧
            scanRawTarFrom containsLocalHostPath stream stream.length turns
              (scan.afterPax record.payload.length) = .ok layout) ∨
          ∃ header size contents rest, stream.drop scan.offset = (header ++ contents) ++ rest ∧
            IsBody containsLocalHostPath scan.pendingPax header size contents ∧
            (scan.afterBody (header.getD 156 0) size).Within ∧
            scanRawTarFrom containsLocalHostPath stream stream.length turns
              (scan.afterBody (header.getD 156 0) size) = .ok layout := by
  have other : xhdType ∉ semanticTypes := by decide
  constructor
  · intro run
    obtain ⟨header, read, run⟩ := bind_eq_ok run
    obtain ⟨rest, split, length⟩ := readExactAt_iff.mp read
    by_cases zero : AllZero header
    case pos =>
      rw [if_pos zero] at run
      exact Or.inl (finishRawScan_iff.mp run)
    case neg =>
      rw [if_neg zero] at run
      obtain ⟨_, checksum, run⟩ := bind_eq_ok run
      obtain ⟨size, parsed, run⟩ := bind_eq_ok run
      obtain ⟨_, room, run⟩ := bind_eq_ok run
      dsimp only at run
      rw [raiseIf_eq_ok] at room
      have isHeader : IsHeader header (header.getD 156 0) size := ⟨length, checksum, parsed, rfl⟩
      have behind : stream.drop (scan.offset + blockSize) = rest := by
        rw [← List.drop_drop, split, List.drop_left' length]
      by_cases pax : header.getD 156 0 = xhdType
      case pos =>
        rw [if_pos pax] at run
        obtain ⟨next, step, run⟩ := bind_eq_ok run
        obtain ⟨pending, same, nonempty, bounded, payload, padding, rest', split', size', padded, valid, zero'⟩ :=
          scanRawPax_iff.mp step
        subst size'
        subst same
        refine Or.inr (Or.inl ⟨⟨header, payload, padding⟩, rest', ?_, ?_, pending, ?_⟩)
        · rw [split, ← behind, split']
          simp [PaxRecord.bytes]
        · refine ⟨⟨length, checksum, parsed, pax⟩, ?_, bounded, valid, ?_, zero'⟩
          · exact fun empty => nonempty (List.length_eq_zero_iff.mpr empty)
          · have fits := le_padded payload.length
            dsimp only
            omega
        · exact run
      case neg =>
        rw [if_neg pax] at run
        obtain ⟨next, step, run⟩ := bind_eq_ok run
        obtain ⟨same, allowed, name, bounded, within'⟩ := (scanRawMember_iff within).mp step
        refine Or.inr (Or.inr ⟨header, size, rest.take (paddedSize size), rest.drop (paddedSize size), ?_, ?_, ?_, ?_⟩)
        · rw [split, List.append_assoc, List.take_append_drop]
        · refine ⟨isHeader, allowed, name, bounded, ?_⟩
          rw [List.length_take, ← behind, List.length_drop]
          omega
        · rw [← same]
          exact within'
        · rw [← same]
          exact run
  · intro turn
    rcases turn with ⟨pending, exact, zero, same⟩ | ⟨record, rest, split, valid, pending, run⟩ |
      ⟨header, size, contents, rest, split, body, within', run⟩
    · have room := canonicalTarStreamSize_ge scan.offset
      have read : readExactAt stream blockSize scan.offset = .ok ((stream.drop scan.offset).take blockSize) := by
        refine readExactAt_iff.mpr ⟨(stream.drop scan.offset).drop blockSize, (List.take_append_drop _ _).symm, ?_⟩
        rw [List.length_take, List.length_drop]
        omega
      have zeroBlock : AllZero ((stream.drop scan.offset).take blockSize) :=
        fun b member => zero b (List.mem_of_mem_take member)
      rw [scanRawTarFrom, read, ok_bind, if_pos zeroBlock]
      exact finishRawScan_iff.mpr ⟨pending, exact, zero, same⟩
    · have read : readExactAt stream blockSize scan.offset = .ok record.header := by
        refine readExactAt_iff.mpr ⟨record.payload ++ record.padding ++ rest, ?_, valid.header.length⟩
        rw [split]
        simp [PaxRecord.bytes]
      have behind : stream.drop (scan.offset + blockSize) = record.payload ++ (record.padding ++ rest) := by
        rw [← List.drop_drop, split, PaxRecord.bytes, List.append_assoc, List.drop_left' valid.header.length,
          List.append_assoc]
      have room : ¬ stream.length < scan.offset + blockSize + paddedSize record.payload.length := by
        have lengths := congrArg List.length split
        have header := valid.header.length
        have padded := valid.padded
        simp only [List.length_drop, PaxRecord.bytes, List.length_append] at lengths
        have positive : 0 < blockSize := by decide
        omega
      have step : scanRawPax containsLocalHostPath stream scan record.payload.length =
          .ok (scan.afterPax record.payload.length) := by
        refine scanRawPax_iff.mpr ⟨pending, rfl, ?_, valid.bounded, record.payload, record.padding, rest, behind, rfl,
          ?_, valid.payload, valid.zero⟩
        · exact fun empty => valid.nonempty (List.length_eq_zero_iff.mp empty)
        · have padded := valid.padded
          omega
      rw [scanRawTarFrom, read, ok_bind, if_neg valid.header.not_allZero, valid.header.checksum, ok_bind,
        valid.header.size, ok_bind]
      dsimp only
      rw [raiseIf_eq_ok.mpr room, ok_bind, if_pos valid.header.type, step, ok_bind]
      exact run
    · have read : readExactAt stream blockSize scan.offset = .ok header := by
        refine readExactAt_iff.mpr ⟨contents ++ rest, ?_, body.block.length⟩
        rw [split, List.append_assoc]
      have room : ¬ stream.length < scan.offset + blockSize + paddedSize size := by
        have lengths := congrArg List.length split
        have length := body.block.length
        have padded := body.padded
        simp only [List.length_drop, List.length_append] at lengths
        have positive : 0 < blockSize := by decide
        omega
      have step : scanRawMember containsLocalHostPath scan header (header.getD 156 0) size =
          .ok (scan.afterBody (header.getD 156 0) size) :=
        (scanRawMember_iff within).mpr ⟨rfl, body.allowed, body.name, body.bounded, within'⟩
      have noPax : header.getD 156 0 ≠ xhdType := fun pax => other (pax ▸ body.allowed)
      rw [scanRawTarFrom, read, ok_bind, if_neg body.block.not_allZero, body.block.checksum, ok_bind,
        body.block.size, ok_bind]
      dsimp only
      rw [raiseIf_eq_ok.mpr room, ok_bind, if_neg noPax, step, ok_bind]
      exact run

/-! ### The whole scan -/

/-- The variables behind a member and the PAX header in front of it. -/
def RawScan.afterMember (scan : RawScan) (member : RawMember) : RawScan :=
  match member.pax with
  | none => scan.afterBody member.type member.size
  | some record => (scan.afterPax record.payload.length).afterBody member.type member.size

theorem PaxRecord.Valid.length_bytes {containsLocalHostPath : Bytes → Bool} {record : PaxRecord}
    (valid : record.Valid containsLocalHostPath) :
    record.bytes.length = blockSize + paddedSize record.payload.length := by
  have header := valid.header.length
  have padded := valid.padded
  simp only [PaxRecord.bytes, List.length_append]
  omega

theorem RawMember.Valid.offset_afterMember {containsLocalHostPath : Bytes → Bool} {member : RawMember}
    (valid : member.Valid containsLocalHostPath) (scan : RawScan) :
    (scan.afterMember member).offset = scan.offset + member.bytes.length := by
  obtain ⟨pax, header, size, contents⟩ := member
  have length : header.length = blockSize := valid.body.block.length
  have padded : contents.length = paddedSize size := valid.body.padded
  cases pax with
  | none =>
      simp only [RawScan.afterMember, RawScan.afterBody, RawMember.bytes, Option.map_none, Option.getD_none,
        List.nil_append, List.length_append]
      omega
  | some record =>
      have before := (valid.pax record rfl).length_bytes
      simp only [RawScan.afterMember, RawScan.afterBody, RawScan.afterPax, RawMember.bytes, Option.map_some,
        Option.getD_some, List.length_append]
      omega

/-- What a member adds to the counts. -/
theorem counts_afterMember (scan : RawScan) (member : RawMember) :
    (scan.afterMember member).payloadTotal = scan.payloadTotal + member.size ∧
      (scan.afterMember member).memberCount = scan.memberCount + 1 ∧
      (scan.afterMember member).fileCount = scan.fileCount + (if member.isFile then 1 else 0) ∧
      (scan.afterMember member).directoryCount = scan.directoryCount + (if member.isDirectory then 1 else 0) ∧
      (scan.afterMember member).pendingPax = false := by
  have counts : ∀ scan : RawScan,
      (scan.afterBody member.type member.size).fileCount = scan.fileCount + (if member.isFile then 1 else 0) ∧
        (scan.afterBody member.type member.size).directoryCount =
          scan.directoryCount + (if member.isDirectory then 1 else 0) := by
    intro scan
    simp only [RawScan.afterBody, RawMember.isFile, RawMember.isDirectory, List.contains_iff_mem, beq_iff_eq]
    constructor <;> split <;> rfl
  rw [RawScan.afterMember]
  split
  · exact ⟨rfl, rfl, (counts scan).1, (counts scan).2, rfl⟩
  · exact ⟨rfl, rfl, (counts _).1, (counts _).2, rfl⟩

/-- The counts behind some members. -/
theorem counts_foldl (scan : RawScan) (members : List RawMember) :
    (members.foldl RawScan.afterMember scan).payloadTotal = scan.payloadTotal + (members.map RawMember.size).sum ∧
      (members.foldl RawScan.afterMember scan).memberCount = scan.memberCount + members.length ∧
      (members.foldl RawScan.afterMember scan).fileCount = scan.fileCount + members.countP RawMember.isFile ∧
      (members.foldl RawScan.afterMember scan).directoryCount =
        scan.directoryCount + members.countP RawMember.isDirectory := by
  induction members generalizing scan with
  | nil => exact ⟨rfl, rfl, rfl, rfl⟩
  | cons member members ih =>
      obtain ⟨payload, count, files, directories, -⟩ := counts_afterMember scan member
      obtain ⟨payload', count', files', directories'⟩ := ih (scan.afterMember member)
      simp only [List.foldl_cons, List.map_cons, List.sum_cons, List.length_cons, List.countP_cons]
      omega

theorem offset_foldl {containsLocalHostPath : Bytes → Bool} {members : List RawMember}
    (valid : ∀ member ∈ members, member.Valid containsLocalHostPath) (scan : RawScan) :
    (members.foldl RawScan.afterMember scan).offset =
      scan.offset + (members.flatMap RawMember.bytes).length := by
  induction members generalizing scan with
  | nil => rfl
  | cons member members ih =>
      have first := (valid member List.mem_cons_self).offset_afterMember scan
      have rest := ih (fun other later => valid other (List.mem_cons_of_mem member later)) (scan.afterMember member)
      simp only [List.foldl_cons, List.flatMap_cons, List.length_append]
      omega

/-- The counts only grow. -/
theorem RawScan.Within.of_foldl {scan : RawScan} {members : List RawMember}
    (within : (members.foldl RawScan.afterMember scan).Within) : scan.Within := by
  obtain ⟨payload, count, files, directories⟩ := counts_foldl scan members
  obtain ⟨payloadEnd, countEnd, directoriesEnd, filesEnd⟩ := within
  exact ⟨by omega, by omega, by omega, by omega⟩

/-- The members that a scan has still to come past, and the zeros behind them. -/
structure Ahead (containsLocalHostPath : Bytes → Bool) (stream : Bytes) (scan : RawScan) (members : List RawMember) :
    Prop where
  valid : ∀ member ∈ members, member.Valid containsLocalHostPath
  within : (members.foldl RawScan.afterMember scan).Within
  bytes : ∃ zeros, stream.drop scan.offset = members.flatMap RawMember.bytes ++ zeros ∧ AllZero zeros
  records : stream.length = canonicalTarStreamSize (members.foldl RawScan.afterMember scan).offset

theorem turns_mono {containsLocalHostPath : Bytes → Bool} {stream : Bytes} {turns : Nat} {scan : RawScan}
    (within : scan.Within) {layout : RawTarLayout}
    (run : scanRawTarFrom containsLocalHostPath stream stream.length turns scan = .ok layout) :
    scanRawTarFrom containsLocalHostPath stream stream.length (turns + 1) scan = .ok layout := by
  induction turns generalizing scan with
  | zero => cases run
  | succ turns ih =>
      refine (turn_iff within).mpr ?_
      rcases (turn_iff within).mp run with ends | ⟨record, rest, split, valid, pending, run⟩ |
        ⟨header, size, contents, rest, split, body, within', run⟩
      · exact Or.inl ends
      · exact Or.inr (Or.inl ⟨record, rest, split, valid, pending, ih ⟨within.1, within.2, within.3, within.4⟩ run⟩)
      · exact Or.inr (Or.inr ⟨header, size, contents, rest, split, body, within', ih within' run⟩)

/-- A scan that succeeds has come past members and zeros. -/
theorem ahead_of_run {containsLocalHostPath : Bytes → Bool} {stream : Bytes} {turns : Nat} {scan : RawScan}
    (within : scan.Within) (pending : scan.pendingPax = false) {layout : RawTarLayout}
    (run : scanRawTarFrom containsLocalHostPath stream stream.length turns scan = .ok layout) :
    ∃ members, Ahead containsLocalHostPath stream scan members ∧
      layout = (members.foldl RawScan.afterMember scan).layout := by
  induction turns using Nat.strongRecOn generalizing scan with
  | _ turns ih =>
      -- A member, once its body has been found behind the PAX header or without one.
      have extend : ∀ (member : RawMember) (rest : Bytes) (fewer : Nat), fewer < turns →
          member.Valid containsLocalHostPath → stream.drop scan.offset = member.bytes ++ rest →
          (scan.afterMember member).Within →
          scanRawTarFrom containsLocalHostPath stream stream.length fewer (scan.afterMember member) = .ok layout →
          ∃ members, Ahead containsLocalHostPath stream scan members ∧
            layout = (members.foldl RawScan.afterMember scan).layout := by
        intro member rest fewer less valid split within' run'
        obtain ⟨members, ahead, same⟩ := ih fewer less within' (counts_afterMember scan member).2.2.2.2 run'
        refine ⟨member :: members, ⟨?_, ahead.within, ?_, ahead.records⟩, same⟩
        · exact List.forall_mem_cons.mpr ⟨valid, ahead.valid⟩
        · obtain ⟨zeros, behind, zero⟩ := ahead.bytes
          rw [valid.offset_afterMember, ← List.drop_drop, split, List.drop_left] at behind
          exact ⟨zeros, by rw [split, behind, List.flatMap_cons, List.append_assoc], zero⟩
      cases turns with
      | zero => cases run
      | succ turns =>
          rcases (turn_iff within).mp run with ⟨-, exact, zero, same⟩ | ⟨record, rest, split, valid, -, run⟩ |
            ⟨header, size, contents, rest, split, body, within', run⟩
          · exact ⟨[], ⟨by simp, within, ⟨_, by simp, zero⟩, exact⟩, same⟩
          · have withinPax : (scan.afterPax record.payload.length).Within :=
              ⟨within.1, within.2, within.3, within.4⟩
            cases turns with
            | zero => cases run
            | succ turns =>
                rcases (turn_iff withinPax).mp run with ⟨stacked, -⟩ | ⟨_, _, _, _, stacked, _⟩ |
                  ⟨header, size, contents, rest', split', body, within', run⟩
                · cases stacked
                · cases stacked
                · have behind : stream.drop (scan.afterPax record.payload.length).offset = rest := by
                    have place : (scan.afterPax record.payload.length).offset = scan.offset + record.bytes.length := by
                      rw [valid.length_bytes, ← Nat.add_assoc]
                      rfl
                    rw [place, ← List.drop_drop, split, List.drop_left]
                  refine extend ⟨some record, header, size, contents⟩ rest' turns (by omega) ⟨?_, body⟩ ?_ within' run
                  · intro other same
                    cases same
                    exact valid
                  · rw [split, ← behind, split']
                    simp [RawMember.bytes]
          · rw [pending] at body
            refine extend ⟨none, header, size, contents⟩ rest turns (by omega) ⟨by simp, body⟩ ?_ within' run
            rw [split]
            simp [RawMember.bytes]

/-- Members and zeros are come past. -/
theorem run_of_ahead {containsLocalHostPath : Bytes → Bool} {stream : Bytes} {scan : RawScan}
    {members : List RawMember} (ahead : Ahead containsLocalHostPath stream scan members)
    (pending : scan.pendingPax = false) :
    ∃ turns, scanRawTarFrom containsLocalHostPath stream stream.length turns scan =
      .ok (members.foldl RawScan.afterMember scan).layout := by
  induction members generalizing scan with
  | nil =>
      obtain ⟨zeros, split, zero⟩ := ahead.bytes
      refine ⟨1, (turn_iff ahead.within).mpr (Or.inl ⟨pending, ahead.records, ?_, rfl⟩)⟩
      rw [List.foldl_nil, split]
      exact zero
  | cons member members ih =>
      obtain ⟨zeros, split, zero⟩ := ahead.bytes
      have valid := ahead.valid member List.mem_cons_self
      have within' : (scan.afterMember member).Within :=
        @RawScan.Within.of_foldl (scan.afterMember member) members ahead.within
      have within : scan.Within := @RawScan.Within.of_foldl scan [member] within'
      have rest : stream.drop (scan.afterMember member).offset = members.flatMap RawMember.bytes ++ zeros := by
        rw [valid.offset_afterMember, ← List.drop_drop, split, List.flatMap_cons, List.append_assoc, List.drop_left]
      obtain ⟨turns, run⟩ := ih
        ⟨fun other later => ahead.valid other (List.mem_cons_of_mem member later), ahead.within, ⟨zeros, rest, zero⟩,
          ahead.records⟩
        (counts_afterMember scan member).2.2.2.2
      obtain ⟨pax, header, size, contents⟩ := member
      rw [List.flatMap_cons, RawMember.bytes] at split
      cases pax with
      | none =>
          refine ⟨turns + 1, (turn_iff within).mpr (Or.inr (Or.inr ⟨header, size, contents,
            members.flatMap RawMember.bytes ++ zeros, ?_, ?_, within', run⟩))⟩
          · simpa using split
          · rw [pending]
            exact valid.body
      | some record =>
          have validPax := valid.pax record rfl
          have withinPax : (scan.afterPax record.payload.length).Within := ⟨within.1, within.2, within.3, within.4⟩
          have first : stream.drop scan.offset =
              record.bytes ++ ((header ++ contents) ++ (members.flatMap RawMember.bytes ++ zeros)) := by
            simpa using split
          have behind : stream.drop (scan.afterPax record.payload.length).offset =
              (header ++ contents) ++ (members.flatMap RawMember.bytes ++ zeros) := by
            have place : (scan.afterPax record.payload.length).offset = scan.offset + record.bytes.length := by
              rw [validPax.length_bytes, ← Nat.add_assoc]
              rfl
            rw [place, ← List.drop_drop, first, List.drop_left]
          refine ⟨turns + 1 + 1, (turn_iff within).mpr (Or.inr (Or.inl ⟨record, _, first, validPax, pending, ?_⟩))⟩
          exact (turn_iff withinPax).mpr (Or.inr (Or.inr ⟨header, size, contents, _, behind, valid.body, within', run⟩))

/-! ### One decomposition -/

theorem IsHeader.unique {header : Bytes} {type type' : UInt8} {size size' : Nat} (one : IsHeader header type size)
    (two : IsHeader header type' size') : type = type' ∧ size = size' :=
  ⟨one.type.symm.trans two.type, Except.ok.inj (one.size.symm.trans two.size)⟩

theorem PaxRecord.Valid.unique {containsLocalHostPath : Bytes → Bool} {record record' : PaxRecord}
    (valid : record.Valid containsLocalHostPath) (valid' : record'.Valid containsLocalHostPath) {rest rest' : Bytes}
    (same : record.bytes ++ rest = record'.bytes ++ rest') : record = record' ∧ rest = rest' := by
  obtain ⟨header, payload, padding⟩ := record
  obtain ⟨header', payload', padding'⟩ := record'
  simp only [PaxRecord.bytes, List.append_assoc] at same
  obtain ⟨rfl, behind⟩ := List.append_inj same (valid.header.length.trans valid'.header.length.symm)
  have sizes : payload.length = payload'.length := (valid.header.unique valid'.header).2
  obtain ⟨rfl, behind'⟩ := List.append_inj behind sizes
  have paddings : padding.length = padding'.length := by
    have padded : payload.length + padding.length = paddedSize payload.length := valid.padded
    have padded' : payload.length + padding'.length = paddedSize payload.length := valid'.padded
    omega
  obtain ⟨rfl, rests⟩ := List.append_inj behind' paddings
  exact ⟨rfl, rests⟩

theorem IsBody.unique {containsLocalHostPath : Bytes → Bool} {afterPax afterPax' : Bool}
    {header header' contents contents' : Bytes} {size size' : Nat}
    (body : IsBody containsLocalHostPath afterPax header size contents)
    (body' : IsBody containsLocalHostPath afterPax' header' size' contents') {rest rest' : Bytes}
    (same : (header ++ contents) ++ rest = (header' ++ contents') ++ rest') :
    header = header' ∧ size = size' ∧ contents = contents' ∧ rest = rest' := by
  simp only [List.append_assoc] at same
  obtain ⟨rfl, behind⟩ := List.append_inj same (body.block.length.trans body'.block.length.symm)
  obtain ⟨-, rfl⟩ := body.block.unique body'.block
  obtain ⟨rfl, rests⟩ := List.append_inj behind (body.padded.trans body'.padded.symm)
  exact ⟨rfl, rfl, rfl, rests⟩

/-- A PAX header is no member's own header. -/
theorem PaxRecord.Valid.ne_body {containsLocalHostPath : Bytes → Bool} {afterPax : Bool} {record : PaxRecord}
    {header contents : Bytes} {size : Nat} (valid : record.Valid containsLocalHostPath)
    (body : IsBody containsLocalHostPath afterPax header size contents) {rest rest' : Bytes}
    (same : record.bytes ++ rest = (header ++ contents) ++ rest') : False := by
  simp only [PaxRecord.bytes, List.append_assoc] at same
  obtain ⟨blocks, -⟩ := List.append_inj same (valid.header.length.trans body.block.length.symm)
  have pax : header.getD 156 0 = xhdType := blocks ▸ valid.header.type
  have other : xhdType ∉ semanticTypes := by decide
  exact other (pax ▸ body.allowed)

theorem RawMember.Valid.unique {containsLocalHostPath : Bytes → Bool} {member member' : RawMember}
    (valid : member.Valid containsLocalHostPath) (valid' : member'.Valid containsLocalHostPath) {rest rest' : Bytes}
    (same : member.bytes ++ rest = member'.bytes ++ rest') : member = member' ∧ rest = rest' := by
  obtain ⟨pax, header, size, contents⟩ := member
  obtain ⟨pax', header', size', contents'⟩ := member'
  have body := valid.body
  have body' := valid'.body
  cases pax with
  | none =>
      cases pax' with
      | none =>
          obtain ⟨rfl, rfl, rfl, rest⟩ := body.unique body' (by simpa [RawMember.bytes] using same)
          exact ⟨rfl, rest⟩
      | some record' =>
          have first := valid'.pax record' rfl
          exact (first.ne_body body (by simpa [RawMember.bytes] using same.symm)).elim
  | some record =>
      have first := valid.pax record rfl
      cases pax' with
      | none =>
          exact (first.ne_body body' (by simpa [RawMember.bytes] using same)).elim
      | some record' =>
          have whole : record.bytes ++ ((header ++ contents) ++ rest) =
              record'.bytes ++ ((header' ++ contents') ++ rest') := by
            simpa [RawMember.bytes] using same
          obtain ⟨rfl, behind⟩ := first.unique (valid'.pax record' rfl) whole
          obtain ⟨rfl, rfl, rfl, rest⟩ := body.unique body' behind
          exact ⟨rfl, rest⟩

/-- Zeros begin no member. -/
theorem RawMember.Valid.not_allZero {containsLocalHostPath : Bytes → Bool} {member : RawMember}
    (valid : member.Valid containsLocalHostPath) {rest : Bytes} : ¬ AllZero (member.bytes ++ rest) := by
  intro zero
  obtain ⟨pax, header, size, contents⟩ := member
  cases pax with
  | none =>
      refine valid.body.block.not_allZero fun b member => zero b ?_
      simp [RawMember.bytes, member]
  | some record =>
      refine (valid.pax record rfl).header.not_allZero fun b member => zero b ?_
      simp [RawMember.bytes, PaxRecord.bytes, member]

/-- The members are determined by the stream. -/
theorem members_unique {containsLocalHostPath : Bytes → Bool} {members members' : List RawMember}
    (valid : ∀ member ∈ members, member.Valid containsLocalHostPath)
    (valid' : ∀ member ∈ members', member.Valid containsLocalHostPath) {zeros zeros' : Bytes} (zero : AllZero zeros)
    (zero' : AllZero zeros')
    (same : members.flatMap RawMember.bytes ++ zeros = members'.flatMap RawMember.bytes ++ zeros') :
    members = members' := by
  induction members generalizing members' with
  | nil =>
      cases members' with
      | nil => rfl
      | cons member' members' =>
          rw [List.flatMap_nil, List.nil_append, List.flatMap_cons, List.append_assoc] at same
          exact absurd (same ▸ zero) (valid' member' List.mem_cons_self).not_allZero
  | cons member members ih =>
      cases members' with
      | nil =>
          rw [List.flatMap_nil, List.nil_append, List.flatMap_cons, List.append_assoc] at same
          exact absurd (same ▸ zero') (valid member List.mem_cons_self).not_allZero
      | cons member' members' =>
          rw [List.flatMap_cons, List.append_assoc, List.flatMap_cons, List.append_assoc] at same
          obtain ⟨rfl, rest⟩ :=
            (valid member List.mem_cons_self).unique (valid' member' List.mem_cons_self) same
          rw [ih (fun other later => valid other (List.mem_cons_of_mem member later))
            (fun other later => valid' other (List.mem_cons_of_mem member later)) rest]

/-! ### Termination -/

theorem offset_scanRawMember {containsLocalHostPath : Bytes → Bool} {scan next : RawScan} {header : Bytes}
    {typeflag : UInt8} {size : Nat} (run : scanRawMember containsLocalHostPath scan header typeflag size = .ok next) :
    next.offset = scan.offset + blockSize + paddedSize size := by
  rw [scanRawMember_eq] at run
  obtain ⟨_, _, run⟩ := bind_eq_ok run
  obtain ⟨_, _, run⟩ := bind_eq_ok run
  obtain ⟨_, _, run⟩ := bind_eq_ok run
  obtain ⟨_, _, run⟩ := bind_eq_ok run
  obtain ⟨_, _, run⟩ := bind_eq_ok run
  obtain ⟨_, _, run⟩ := bind_eq_ok run
  obtain ⟨_, _, run⟩ := bind_eq_ok run
  obtain ⟨_, _, run⟩ := bind_eq_ok run
  cases run
  rfl

theorem bind_congr_ok {ε α β : Type} {first : Except ε α} {next next' : α → Except ε β}
    (same : ∀ a, first = .ok a → next a = next' a) : (first >>= next) = (first >>= next') := by
  cases first with
  | error e => rfl
  | ok a => exact same a rfl

/-- A turn that goes on has come past a block that is there. -/
theorem turn_congr {containsLocalHostPath : Bytes → Bool} {stream : Bytes} {turns turns' : Nat} {scan : RawScan}
    (same : ∀ next : RawScan, scan.offset + blockSize ≤ next.offset → scan.offset + blockSize ≤ stream.length →
      scanRawTarFrom containsLocalHostPath stream stream.length turns next =
        scanRawTarFrom containsLocalHostPath stream stream.length turns' next) :
    scanRawTarFrom containsLocalHostPath stream stream.length (turns + 1) scan =
      scanRawTarFrom containsLocalHostPath stream stream.length (turns' + 1) scan := by
  rw [scanRawTarFrom, scanRawTarFrom]
  refine bind_congr_ok fun header read => ?_
  obtain ⟨rest, split, length⟩ := readExactAt_iff.mp read
  have inside : scan.offset + blockSize ≤ stream.length := by
    have lengths := congrArg List.length split
    have positive : 0 < blockSize := by decide
    rw [List.length_drop, List.length_append] at lengths
    omega
  split
  case isTrue => rfl
  case isFalse =>
    refine bind_congr_ok fun _ _ => bind_congr_ok fun size _ => bind_congr_ok fun _ _ => ?_
    split
    case isTrue =>
      refine bind_congr_ok fun next step => same next ?_ inside
      obtain ⟨-, rfl, -⟩ := scanRawPax_iff.mp step
      exact Nat.le_add_right _ _
    case isFalse =>
      refine bind_congr_ok fun next step => same next ?_ inside
      rw [offset_scanRawMember step]
      exact Nat.le_add_right _ _

/-- The scan ends within a turn for each block of the stream and one more: further turns change nothing. -/
theorem turns_enough {containsLocalHostPath : Bytes → Bool} {stream : Bytes} {turns turns' : Nat} {scan : RawScan}
    (enough : (stream.length - scan.offset) / blockSize < turns)
    (enough' : (stream.length - scan.offset) / blockSize < turns') :
    scanRawTarFrom containsLocalHostPath stream stream.length turns scan =
      scanRawTarFrom containsLocalHostPath stream stream.length turns' scan := by
  induction turns generalizing turns' scan with
  | zero => exact absurd enough (Nat.not_lt_zero _)
  | succ turns ih =>
      cases turns' with
      | zero => exact absurd enough' (Nat.not_lt_zero _)
      | succ turns' =>
          refine turn_congr fun next further inside => ih ?_ ?_
          · unfold blockSize at *
            omega
          · unfold blockSize at *
            omega

/-! ### The grammar of the scan -/

/-- The variables before the loop. -/
def rawScanStart : RawScan :=
  { offset := 0, memberCount := 0, fileCount := 0, directoryCount := 0, payloadTotal := 0, pendingPax := false }

theorem layout_foldl {containsLocalHostPath : Bytes → Bool} {members : List RawMember}
    (valid : ∀ member ∈ members, member.Valid containsLocalHostPath) :
    (members.foldl RawScan.afterMember rawScanStart).layout = layoutOf members := by
  obtain ⟨-, count, files, directories⟩ := counts_foldl rawScanStart members
  have offset := offset_foldl valid rawScanStart
  rw [RawScan.layout, layoutOf, offset, count, files, directories]
  simp [rawScanStart]

/-- What lies ahead of the start of a scan is an archive. -/
theorem ahead_start_iff {containsLocalHostPath : Bytes → Bool} {stream : Bytes} {members : List RawMember} :
    Ahead containsLocalHostPath stream rawScanStart members ↔ IsArchive containsLocalHostPath stream members := by
  obtain ⟨payload, count, files, directories⟩ := counts_foldl rawScanStart members
  simp only [rawScanStart, Nat.zero_add] at payload count files directories
  constructor
  · intro ahead
    have offset := offset_foldl ahead.valid rawScanStart
    simp only [rawScanStart, Nat.zero_add] at offset
    exact
      { valid := ahead.valid
        expanded := payload ▸ ahead.within.expanded
        count := count ▸ ahead.within.count
        directories := directories ▸ ahead.within.directories
        files := files ▸ ahead.within.files
        bytes := ahead.bytes
        records := offset ▸ ahead.records }
  · intro archive
    have offset := offset_foldl archive.valid rawScanStart
    simp only [rawScanStart, Nat.zero_add] at offset
    exact
      { valid := archive.valid
        within := ⟨payload ▸ archive.expanded, count ▸ archive.count, directories ▸ archive.directories,
          files ▸ archive.files⟩
        bytes := archive.bytes
        records := offset ▸ archive.records }

/-- The raw scan accepts exactly the archives, with the layout of their members; a stream has one decomposition into
members; and the scan ends within a turn for each block of the stream and one more. -/
theorem rawTarGrammar (containsLocalHostPath : Bytes → Bool) (stream : Bytes) :
    (∀ layout, scanRawTarStream containsLocalHostPath stream stream.length = .ok layout ↔
        ∃ members, IsArchive containsLocalHostPath stream members ∧ layout = layoutOf members) ∧
      (∀ members members', IsArchive containsLocalHostPath stream members →
        IsArchive containsLocalHostPath stream members' → members = members') ∧
      ∀ turns, stream.length / blockSize + 1 ≤ turns →
        scanRawTarFrom containsLocalHostPath stream stream.length turns rawScanStart =
          scanRawTarStream containsLocalHostPath stream stream.length := by
  have within : rawScanStart.Within := ⟨Nat.zero_le _, Nat.zero_le _, Nat.zero_le _, Nat.zero_le _⟩
  have ends : ∀ turns, stream.length / blockSize + 1 ≤ turns →
      scanRawTarFrom containsLocalHostPath stream stream.length turns rawScanStart =
        scanRawTarStream containsLocalHostPath stream stream.length := by
    intro turns enough
    exact turns_enough enough (Nat.lt_succ_self _)
  refine ⟨fun layout => ⟨fun run => ?_, ?_⟩, ?_, ends⟩
  · obtain ⟨members, ahead, same⟩ := ahead_of_run within rfl run
    exact ⟨members, ahead_start_iff.mp ahead, same.trans (layout_foldl ahead.valid)⟩
  · intro ⟨members, archive, same⟩
    obtain ⟨turns, run⟩ := run_of_ahead (ahead_start_iff.mpr archive) rfl
    have more : ∀ extra, scanRawTarFrom containsLocalHostPath stream stream.length (turns + extra) rawScanStart =
        .ok (members.foldl RawScan.afterMember rawScanStart).layout := by
      intro extra
      induction extra with
      | zero => exact run
      | succ extra ih => exact turns_mono within ih
    rw [← ends (turns + (stream.length / blockSize + 1)) (Nat.le_add_left _ _), more, layout_foldl archive.valid, same]
  · intro members members' archive archive'
    obtain ⟨zeros, split, zero⟩ := archive.bytes
    obtain ⟨zeros', split', zero'⟩ := archive'.bytes
    exact members_unique archive.valid archive'.valid zero zero' (split.symm.trans split')

end ExitfyCores.Bundle
