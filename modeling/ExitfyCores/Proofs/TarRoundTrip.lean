/-
Module: ExitfyCores.Proofs.TarRoundTrip
Layer: Proofs
Purpose: What the builder has tarfile write, the raw scan of the audit reads: the same members in the same order, and no
  other reading of the stream is possible.
Imports: ExitfyCores.Bundle.TarWriter, ExitfyCores.Proofs.PaxPayload, ExitfyCores.Proofs.RawTarGrammar
Trusted boundary: none
Main exports: octal_octalDigits, isHeader_createHeader, paxRecord_valid, Written, rawMemberOf, rawMember_valid,
  tarStream_scanned
Open obligations: none
-/
import ExitfyCores.Bundle.TarWriter
import ExitfyCores.Proofs.PaxPayload
import ExitfyCores.Proofs.RawTarGrammar

namespace ExitfyCores.Bundle

/-! ### Numbers in fields -/

@[simp] theorem length_octalDigits (count n : Nat) : (octalDigits count n).length = count := by
  induction count generalizing n with
  | zero => rfl
  | succ count ih => rw [octalDigits, List.length_append, ih, List.length_singleton]

theorem octalDigit_toNat (n : Nat) : (UInt8.ofNat (0x30 + n % 8)).toNat = 0x30 + n % 8 := by
  rw [UInt8.toNat_ofNat']
  omega

theorem octalDigits_all (count n : Nat) : (octalDigits count n).all isOctal = true := by
  induction count generalizing n with
  | zero => rfl
  | succ count ih =>
      have digit : isOctal (UInt8.ofNat (0x30 + n % 8)) = true := by
        have all : ∀ d : Fin 8, isOctal (UInt8.ofNat (0x30 + d.val)) = true := by decide
        exact all ⟨n % 8, Nat.mod_lt _ (by decide)⟩
      rw [octalDigits, List.all_append, ih, List.all_cons, digit]
      rfl

/-- A number that fits is read back. -/
theorem octal_octalDigits {count n : Nat} (fits : n < 8 ^ count) : octal (octalDigits count n) = n := by
  induction count generalizing n with
  | zero =>
      rw [Nat.pow_zero] at fits
      rw [Nat.lt_one_iff.mp fits]
      rfl
  | succ count ih =>
      have shorter := ih (n := n / 8) (by rw [Nat.pow_succ] at fits; omega)
      rw [octal] at shorter
      rw [octalDigits, octal, List.foldl_append, shorter, List.foldl_cons, List.foldl_nil, octalDigit_toNat]
      omega

@[simp] theorem length_itn (n digits : Nat) : (itn n digits).length = digits - 1 + 1 := by
  simp [itn]

@[simp] theorem length_stn (text : Bytes) (length : Nat) : (stn text length).length = length := by
  rw [stn, List.length_append, List.length_take, List.length_replicate]
  omega

/-! ### A header block -/

@[simp] theorem length_frontFields (header : TarHeader) (name : Bytes) : (frontFields header name).length = 148 := by
  simp [frontFields]

@[simp] theorem length_backFields (header : TarHeader) : (backFields header).length = 356 := by
  have magic : (lit "ustar\x0000").length = 8 := by decide
  simp only [backFields, List.length_cons, List.length_append, length_stn, magic, List.length_replicate]

@[simp] theorem length_createHeader (header : TarHeader) (name : Bytes) :
    (createHeader header name).length = blockSize := by
  simp [createHeader, blockSize]

/-- The sum of bytes is small. -/
theorem byteSum_le (data : Bytes) : byteSum data ≤ 255 * data.length := by
  induction data with
  | nil => exact Nat.le_refl 0
  | cons b data ih =>
      have small := b.toNat_lt
      rw [byteSum] at ih
      rw [byteSum, List.map_cons, List.sum_cons, List.length_cons]
      omega

/-- The size field. -/
theorem headerField_size (header : TarHeader) (name : Bytes) :
    headerField (createHeader header name) 124 136 = itn header.size.toNat 12 := by
  have split : createHeader header name =
      (stn name 100 ++ (itn (header.mode % 0o10000).toNat 8 ++ (itn header.uid.toNat 8 ++ itn header.gid.toNat 8))) ++
        (itn header.size.toNat 12 ++ (itn header.mtime.toNat 12 ++
          (octalDigits 6 (byteSum (frontFields header name) + 8 * 0x20 + byteSum (backFields header)) ++ [0, 0x20] ++
            backFields header))) := by
    simp only [createHeader, frontFields, List.append_assoc]
  have before : (stn name 100 ++ (itn (header.mode % 0o10000).toNat 8 ++
      (itn header.uid.toNat 8 ++ itn header.gid.toNat 8))).length = 124 := by simp
  rw [headerField, List.drop_take, split, List.drop_left' before, List.take_left' (by simp)]

/-- The block of a header is one that the scan accepts. -/
theorem isHeader_createHeader (header : TarHeader) (name : Bytes) (fits : header.size.toNat < 8 ^ 11) :
    IsHeader (createHeader header name) header.type header.size.toNat := by
  have front : (createHeader header name).take 148 = frontFields header name := by
    rw [createHeader, List.take_left' (length_frontFields header name)]
  have field : headerField (createHeader header name) 148 156 =
      octalDigits 6 (byteSum (frontFields header name) + 8 * 0x20 + byteSum (backFields header)) ++ [0, 0x20] := by
    rw [headerField, List.drop_take, createHeader, List.drop_left' (length_frontFields header name),
      List.take_left' (by simp)]
  have back : (createHeader header name).drop 156 = backFields header := by
    rw [createHeader, ← List.append_assoc, List.drop_left' (by simp)]
  refine ⟨length_createHeader header name, ?_, ?_, ?_⟩
  · have bounded : byteSum (frontFields header name) + 8 * 0x20 + byteSum (backFields header) < 8 ^ 6 := by
      have first := byteSum_le (frontFields header name)
      have second := byteSum_le (backFields header)
      rw [length_frontFields] at first
      rw [length_backFields] at second
      omega
    rw [validateRawTarChecksum, field]
    simp only [List.take_left' (length_octalDigits 6 _), List.drop_left' (length_octalDigits 6 _)]
    rw [raiseIf_eq_ok.mpr, ok_bind, raiseIf_eq_ok, not_not, octal_octalDigits bounded, front, back]
    rw [octalDigits_all]
    simp
  · have digits : (itn header.size.toNat 12).dropLast = octalDigits 11 header.size.toNat := by
      rw [itn, List.dropLast_concat]
    rw [parseCanonicalTarSize, headerField_size]
    simp only [digits, octalDigits_all, octal_octalDigits fits, length_itn]
    rw [itn, List.getLast?_concat]
    simp
  · have shape : createHeader header name = (frontFields header name ++
        (octalDigits 6 (byteSum (frontFields header name) + 8 * 0x20 + byteSum (backFields header)) ++ [0, 0x20])) ++
          backFields header := by
      simp only [createHeader, List.append_assoc]
    have before : (frontFields header name ++
        (octalDigits 6 (byteSum (frontFields header name) + 8 * 0x20 + byteSum (backFields header)) ++ [0, 0x20])).length
          = 156 := by simp
    rw [shape, List.getD_eq_getElem?_getD, List.getElem?_append_right (Nat.le_of_eq before), before]
    rfl

/-! ### Members -/

@[simp] theorem length_blockPadding (size : Nat) : (blockPadding size).length = paddedSize size - size := by
  rw [blockPadding, List.length_replicate]

theorem allZero_zeros (size : Nat) : AllZero (List.replicate size 0) := by
  intro b member
  exact (List.mem_replicate.mp member).2

/-- The PAX header that tarfile writes in front of a member. -/
def paxRecordFor (path : Bytes) : PaxRecord where
  header := createHeader (paxGenericInfo (paxRecord path).length) (lit "././@PaxHeader")
  payload := paxRecord path
  padding := blockPadding (paxRecord path).length

/-- The member that a written one is read as. -/
def rawMemberOf (member : TarHeader × Bytes) : RawMember where
  pax := if NeedsPaxPath member.1 then some (paxRecordFor (storedName member.1)) else none
  header := createHeader member.1 (storedName member.1)
  size := member.1.size.toNat
  contents := member.2 ++ blockPadding member.2.length

/-- What a path needs to be read behind a PAX header. -/
theorem paxRecord_valid {containsLocalHostPath : Bytes → Bool} {path : Bytes}
    (allowed : PaxPath containsLocalHostPath path) :
    (paxRecordFor path).Valid containsLocalHostPath := by
  obtain ⟨counts, bound, _⟩ := paxRecordLength_least allowed.short
  have length : (paxRecord path).length = paxRecordLength path := by
    rw [paxRecord, length_paxRecordOf]
    exact counts.symm
  have short := allowed.short
  unfold maxMemberNameBytes at short
  refine ⟨?_, ?_, ?_, ?_, ?_, allZero_zeros _⟩
  · refine isHeader_createHeader _ _ ?_
    show (paxRecord path).length < 8 ^ 11
    rw [length]
    omega
  · intro empty
    have positive := congrArg List.length empty
    rw [paxRecordFor, length, counts] at positive
    simp at positive
  · show (paxRecord path).length ≤ maxPaxBytes
    rw [length]
    unfold maxPaxBytes
    omega
  · exact ((accepts_iff allowed).mpr ⟨_, counts, rfl⟩).1
  · show (paxRecord path).length + (blockPadding (paxRecord path).length).length = paddedSize (paxRecord path).length
    have above := le_padded (paxRecord path).length
    rw [length_blockPadding]
    omega

/-! ### What the builder hands to tarfile -/

/-- A member of the builder with its payload, under a name that the audit allows. -/
structure Written (containsLocalHostPath : Bytes → Bool) (member : TarHeader × Bytes) : Prop where
  emitted : ∃ name executable isDirectory,
    member.1 = Builder.archiveInfo name member.2.length executable isDirectory ∧ (isDirectory = true → member.2 = [])
  last : member.1.name.getLast? ≠ some (byte '/')
  bounded : member.2.length ≤ maxMemberBytes
  short : (storedName member.1).length ≤ maxMemberNameBytes + 1
  name : validateRawMemberName containsLocalHostPath (storedName member.1) (member.1.type == dirType) = .ok ()

theorem Written.type {containsLocalHostPath : Bytes → Bool} {member : TarHeader × Bytes}
    (written : Written containsLocalHostPath member) :
    member.1.type = dirType ∧ member.2 = [] ∨ member.1.type = regType := by
  obtain ⟨name, executable, isDirectory, header, empty⟩ := written.emitted
  rw [header]
  cases isDirectory with
  | true => exact Or.inl ⟨rfl, empty rfl⟩
  | false => exact Or.inr rfl

theorem Written.size {containsLocalHostPath : Bytes → Bool} {member : TarHeader × Bytes}
    (written : Written containsLocalHostPath member) : member.1.size = member.2.length := by
  obtain ⟨name, executable, isDirectory, header, empty⟩ := written.emitted
  rw [header]
  cases isDirectory with
  | true =>
      rw [empty rfl]
      rfl
  | false => rfl

theorem Written.paxHeaders {containsLocalHostPath : Bytes → Bool} {member : TarHeader × Bytes}
    (written : Written containsLocalHostPath member) : member.1.paxHeaders.entries = [] := by
  obtain ⟨name, executable, isDirectory, header, empty⟩ := written.emitted
  rw [header]
  rfl

/-- A stored name ends in a slash when it is that of a directory. -/
theorem storedName_last {header : TarHeader} (last : header.name.getLast? ≠ some (byte '/')) :
    ((storedName header).getLast? == some (byte '/')) = (header.type == dirType) := by
  rw [Builder.storedName_eq last]
  by_cases directory : header.IsDir
  · rw [if_pos directory, List.getLast?_concat, beq_self_eq_true, eq_comm, beq_iff_eq]
    exact directory
  · rw [if_neg directory, beq_eq_false_iff_ne.mpr last, eq_comm, beq_eq_false_iff_ne]
    exact directory

/-- What the name policy allows has no control characters. -/
theorem no_control_of_policy {containsLocalHostPath : Bytes → Bool} {name : Bytes} {directory : Bool}
    (allowed : memberNamePolicyFailure containsLocalHostPath name directory = none) {b : UInt8} (control : b < 0x20) :
    b ∉ name := by
  intro member
  have candidate : b ∈ if directory && name.getLast? == some (byte '/') then name.dropLast else name := by
    split
    case isTrue slash =>
      rw [Bool.and_eq_true, beq_iff_eq] at slash
      obtain ⟨before, rfl⟩ := List.getLast?_eq_some_iff.mp slash.2
      rw [List.dropLast_concat]
      rcases List.mem_append.mp member with front | isSlash
      · exact front
      · rw [List.mem_singleton.mp isSlash] at control
        exact absurd control (by decide)
    case isFalse => exact member
  unfold memberNamePolicyFailure at allowed
  dsimp only at allowed
  generalize (if directory && name.getLast? == some (byte '/') then name.dropLast else name) = stripped
    at allowed candidate
  by_cases backslash : byte '\\' ∈ stripped
  · rw [if_pos backslash] at allowed
    cases allowed
  · rw [if_neg backslash, if_pos] at allowed
    · cases allowed
    · rw [List.any_eq_true]
      exact ⟨b, candidate, by rw [Bool.or_eq_true, decide_eq_true_eq]; exact Or.inl control⟩

theorem validateRawMemberName_iff {containsLocalHostPath : Bytes → Bool} {name : Bytes} {directory : Bool} :
    validateRawMemberName containsLocalHostPath name directory = .ok () ↔
      name ≠ [] ∧ DecodesStrictly name ∧ memberNamePolicyFailure containsLocalHostPath name directory = none := by
  unfold validateRawMemberName
  simp only [check_bind_eq_ok, raiseIf_eq_ok, raisePolicyFailure_eq_ok, not_not]

/-- The path of a member is one that a PAX record may carry. -/
theorem Written.paxPath {containsLocalHostPath : Bytes → Bool} {member : TarHeader × Bytes}
    (written : Written containsLocalHostPath member) : PaxPath containsLocalHostPath (storedName member.1) := by
  obtain ⟨filled, decodes, policy⟩ := validateRawMemberName_iff.mp written.name
  exact
    { some := filled
      short := written.short
      noNul := no_control_of_policy policy (by decide)
      noReturn := no_control_of_policy policy (by decide)
      oneLine := no_control_of_policy policy (by decide)
      decodes := decodes
      policy := storedName_last written.last ▸ policy }

/-- ASCII stays as it is. -/
theorem asciiReplace_of_ascii {name : Bytes} (ascii : IsASCII name) : asciiReplace name = name := by
  induction name with
  | nil => rfl
  | cons b name ih =>
      have small : b.toNat < 128 := ascii b List.mem_cons_self
      have rest := ih fun c member => ascii c (List.mem_cons_of_mem b member)
      have code : (Char.ofNat b.toNat).toNat = b.toNat := by
        have all : ∀ n : Fin 128, (Char.ofNat n.val).toNat = n.val := by decide
        exact all ⟨b.toNat, small⟩
      rw [asciiReplace, runes] at rest
      rw [asciiReplace, runes, symbols_ascii_cons small, List.map_cons, List.map_cons, rest]
      dsimp only
      rw [code, if_pos small, UInt8.ofNat_toNat]

/-- A name that needs no PAX header stands in its own header. -/
theorem rawName_createHeader {header : TarHeader} {name : Bytes} (ascii : IsASCII name) (noNul : 0 ∉ name)
    (short : name.length ≤ lengthName) : rawName (createHeader header name) = name := by
  have field : (createHeader header name).take lengthName = name ++ List.replicate (lengthName - name.length) 0 := by
    have start : createHeader header name = stn name 100 ++ ((createHeader header name).drop 100) := by
      rw [createHeader, frontFields, List.append_assoc, List.drop_left' (length_stn name 100)]
    rw [start, show lengthName = 100 from rfl, List.take_left' (length_stn name 100), stn, asciiReplace_of_ascii ascii,
      List.take_of_length_le (show name.length ≤ 100 from short)]
  rw [rawName, field]
  have front : (name ++ List.replicate (lengthName - name.length) 0).takeWhile (· ≠ 0) =
      name ++ (List.replicate (lengthName - name.length) 0).takeWhile (· ≠ (0 : UInt8)) :=
    List.takeWhile_append_of_pos (fun b member => decide_eq_true fun zero => noNul (zero ▸ member))
  rw [front]
  cases lengthName - name.length with
  | zero => rw [List.replicate_zero, List.takeWhile_nil, List.append_nil]
  | succ count =>
      rw [List.replicate_succ, List.takeWhile_cons_of_neg (by decide), List.append_nil]

theorem Written.named {containsLocalHostPath : Bytes → Bool} {member : TarHeader × Bytes}
    (written : Written containsLocalHostPath member) (plain : ¬ NeedsPaxPath member.1) :
    rawName (createHeader member.1 (storedName member.1)) = storedName member.1 := by
  rw [NeedsPaxPath, not_or, not_not, Nat.not_lt] at plain
  exact rawName_createHeader plain.1 written.paxPath.noNul plain.2

theorem Written.block {containsLocalHostPath : Bytes → Bool} {member : TarHeader × Bytes}
    (written : Written containsLocalHostPath member) :
    IsHeader (createHeader member.1 (storedName member.1)) member.1.type member.2.length := by
  have size : member.1.size.toNat = member.2.length := by rw [written.size, Int.toNat_natCast]
  rw [← size]
  apply isHeader_createHeader
  have bounded := written.bounded
  unfold maxMemberBytes at bounded
  omega

/-- What is written for a member is a member that the scan accepts. -/
theorem Written.rawMember_valid {containsLocalHostPath : Bytes → Bool} {member : TarHeader × Bytes}
    (written : Written containsLocalHostPath member) : (rawMemberOf member).Valid containsLocalHostPath := by
  have size : member.1.size.toNat = member.2.length := by rw [written.size, Int.toNat_natCast]
  have block := written.block
  have type := block.type
  refine ⟨?_, ?_, ?_, ?_, ?_, ?_⟩
  · intro record belongs
    rw [rawMemberOf] at belongs
    dsimp only at belongs
    split at belongs
    · cases belongs
      exact paxRecord_valid written.paxPath
    · cases belongs
  · show IsHeader (createHeader member.1 (storedName member.1)) _ member.1.size.toNat
    rw [size, rawMemberOf, type]
    exact block
  · show (createHeader member.1 (storedName member.1)).getD 156 0 ∈ semanticTypes
    rw [type]
    rcases written.type with ⟨directory, -⟩ | file
    · rw [directory]
      decide
    · rw [file]
      decide
  · intro noPax
    have plain : ¬ NeedsPaxPath member.1 := by
      intro needs
      rw [rawMemberOf] at noPax
      dsimp only at noPax
      rw [if_pos needs] at noPax
      cases noPax
    show validateRawMemberName _ (rawName (createHeader member.1 (storedName member.1)))
      ((createHeader member.1 (storedName member.1)).getD 156 0 == dirType) = .ok ()
    rw [written.named plain, type]
    exact written.name
  · show member.1.size.toNat ≤ maxMemberBytes
    rw [size]
    exact written.bounded
  · show (member.2 ++ blockPadding member.2.length).length = paddedSize member.1.size.toNat
    have above := le_padded member.2.length
    rw [size, List.length_append, length_blockPadding]
    omega

theorem rawMemberOf_type {containsLocalHostPath : Bytes → Bool} {member : TarHeader × Bytes}
    (written : Written containsLocalHostPath member) : (rawMemberOf member).type = member.1.type :=
  written.block.type

/-- The path record is the one that the length loop of a path gives. -/
theorem paxEntry_path (path : Bytes) : paxEntry (lit "path", path) = paxRecord path := rfl

/-- The PAX records of a header without records of its own. -/
theorem paxEntries_eq {header : TarHeader} (own : header.paxHeaders.entries = []) :
    paxEntries header = if NeedsPaxPath header then [(lit "path", storedName header)] else [] := by
  rw [paxEntries, Dict.keys, own, List.nil_append]
  by_cases needs : NeedsPaxPath header
  · rw [if_pos needs, if_pos ⟨List.not_mem_nil, needs⟩]
  · rw [if_neg needs, if_neg fun both => needs both.2]

/-- The header and the records of a header without records of its own. -/
theorem toBuf_eq {header : TarHeader} (entries : paxEntries header =
      if NeedsPaxPath header then [(lit "path", storedName header)] else []) :
    toBuf header =
      (if NeedsPaxPath header then createPaxGenericHeader (paxRecord (storedName header)) else []) ++
        createHeader header (storedName header) := by
  rw [toBuf, entries]
  by_cases needs : NeedsPaxPath header
  · rw [if_pos needs, if_pos needs, if_neg (List.cons_ne_nil _ _), List.flatMap_singleton, paxEntry_path]
  · rw [if_neg needs, if_neg needs, if_pos rfl]

/-- What is written for a member, read as a member. -/
theorem Written.bytes {containsLocalHostPath : Bytes → Bool} {member : TarHeader × Bytes}
    (written : Written containsLocalHostPath member) : addFile member = (rawMemberOf member).bytes := by
  rw [addFile, toBuf_eq (paxEntries_eq written.paxHeaders), RawMember.bytes, rawMemberOf]
  by_cases needs : NeedsPaxPath member.1
  · rw [if_pos needs, if_pos needs, Option.map_some, Option.getD_some, List.append_assoc]
    rfl
  · rw [if_neg needs, if_neg needs]
    rfl

theorem addFiles_eq {containsLocalHostPath : Bytes → Bool} {members : List (TarHeader × Bytes)}
    (written : ∀ member ∈ members, Written containsLocalHostPath member) :
    addFiles members = (members.map rawMemberOf).flatMap RawMember.bytes := by
  rw [addFiles, List.flatMap_map]
  exact List.flatMap_congr fun member belongs => (written member belongs).bytes

/-- The bytes of a member are its span. -/
theorem Written.length {containsLocalHostPath : Bytes → Bool} {member : TarHeader × Bytes}
    (written : Written containsLocalHostPath member) : (addFile member).length = memberSpan member.1 := by
  have size : member.1.size.toNat = member.2.length := by rw [written.size, Int.toNat_natCast]
  have contents : (member.2 ++ blockPadding member.2.length).length = paddedSize member.2.length := by
    have above := le_padded member.2.length
    rw [List.length_append, length_blockPadding]
    omega
  rw [written.bytes, RawMember.bytes, memberSpan, List.length_append, List.length_append, size, rawMemberOf, contents,
    length_createHeader]
  by_cases needs : NeedsPaxPath member.1
  · have record := (paxRecord_valid written.paxPath).length_bytes
    have counts := (paxRecordLength_least written.short).1
    have length : (paxRecord (storedName member.1)).length = paxRecordLength (storedName member.1) := by
      rw [paxRecord, length_paxRecordOf]
      exact counts.symm
    rw [if_pos needs, if_pos needs, Option.map_some, Option.getD_some, record, paxRecordFor, length]
    omega
  · rw [if_neg needs, if_neg needs]
    simp

theorem length_addFiles {containsLocalHostPath : Bytes → Bool} {members : List (TarHeader × Bytes)}
    (written : ∀ member ∈ members, Written containsLocalHostPath member) :
    (addFiles members).length = ((members.map Prod.fst).map memberSpan).sum := by
  rw [addFiles, List.length_flatMap, List.map_map]
  exact congrArg List.sum (List.map_congr_left fun member belongs => (written member belongs).length)

@[simp] theorem length_tarStream (members : List (TarHeader × Bytes)) :
    (tarStream members).length = canonicalTarStreamSize (addFiles members).length := by
  have above := canonicalTarStreamSize_ge (addFiles members).length
  rw [tarStream, List.length_append, List.length_replicate]
  omega

/-! ### Reading the stream -/

/-- The limits of the scan on members. -/
structure WithinScanLimits (members : List (TarHeader × Bytes)) : Prop where
  expanded : (members.map fun member => member.2.length).sum ≤ maxExpandedBytes
  count : members.length ≤ maxMembers
  directories : (members.countP fun member => member.1.type == dirType) ≤ maxArchiveDirectories
  files : (members.countP fun member => member.1.type == regType) ≤ maxArchiveFiles

theorem countP_rawMemberOf {containsLocalHostPath : Bytes → Bool} {members : List (TarHeader × Bytes)}
    (written : ∀ member ∈ members, Written containsLocalHostPath member) :
    (members.map rawMemberOf).countP RawMember.isFile = (members.countP fun member => member.1.type == regType) ∧
      (members.map rawMemberOf).countP RawMember.isDirectory =
        (members.countP fun member => member.1.type == dirType) := by
  rw [List.countP_map, List.countP_map]
  constructor
  · refine List.countP_congr fun member belongs => ?_
    rw [Function.comp_apply, RawMember.isFile, rawMemberOf_type (written member belongs)]
    rcases (written member belongs).type with ⟨directory, -⟩ | file
    · rw [directory]
      decide
    · rw [file]
      decide
  · refine List.countP_congr fun member belongs => ?_
    rw [Function.comp_apply, RawMember.isDirectory, rawMemberOf_type (written member belongs)]

/-- The stream is an archive of the members that were written. -/
theorem isArchive_tarStream {containsLocalHostPath : Bytes → Bool} {members : List (TarHeader × Bytes)}
    (written : ∀ member ∈ members, Written containsLocalHostPath member) (within : WithinScanLimits members) :
    IsArchive containsLocalHostPath (tarStream members) (members.map rawMemberOf) := by
  obtain ⟨files, directories⟩ := countP_rawMemberOf written
  refine
    { valid := ?_, expanded := ?_, count := ?_, directories := directories ▸ within.directories
      files := files ▸ within.files
      bytes := ⟨_, by rw [tarStream, addFiles_eq written], allZero_zeros _⟩
      records := by rw [length_tarStream, addFiles_eq written] }
  · intro raw belongs
    obtain ⟨member, inside, rfl⟩ := List.mem_map.mp belongs
    exact (written member inside).rawMember_valid
  · have sizes : (members.map rawMemberOf).map RawMember.size = members.map fun member => member.2.length := by
      rw [List.map_map]
      refine List.map_congr_left fun member belongs => ?_
      show member.1.size.toNat = member.2.length
      rw [(written member belongs).size, Int.toNat_natCast]
    rw [sizes]
    exact within.expanded
  · rw [List.length_map]
    exact within.count

/-- The scan accepts an archive with the layout of its members. -/
theorem scanRawTarStream_of_archive {containsLocalHostPath : Bytes → Bool} {stream : Bytes} {members : List RawMember}
    (archive : IsArchive containsLocalHostPath stream members) :
    scanRawTarStream containsLocalHostPath stream stream.length = .ok (layoutOf members) := by
  have within : rawScanStart.Within := ⟨Nat.zero_le _, Nat.zero_le _, Nat.zero_le _, Nat.zero_le _⟩
  obtain ⟨turns, run⟩ := run_of_ahead (ahead_start_iff.mpr archive) rfl
  have more : ∀ extra, scanRawTarFrom containsLocalHostPath stream stream.length (turns + extra) rawScanStart =
      .ok (members.foldl RawScan.afterMember rawScanStart).layout := by
    intro extra
    induction extra with
    | zero => exact run
    | succ extra ih => exact turns_mono within ih
  have enough := more (stream.length / blockSize + 1)
  rw [layout_foldl archive.valid] at enough
  rw [← enough]
  exact turns_enough (Nat.lt_succ_self _) (Nat.lt_of_lt_of_le (Nat.lt_succ_self _) (Nat.le_add_left _ _))

/-! ### Nothing is lost -/

theorem createHeader_inj {header header' : TarHeader} {name name' : Bytes}
    (same : createHeader header name = createHeader header' name') :
    itn (header.mode % 0o10000).toNat 8 = itn (header'.mode % 0o10000).toNat 8 := by
  have lengths := (length_frontFields header name).trans (length_frontFields header' name').symm
  have front := (List.append_inj same lengths).1
  have behind := (List.append_inj front ((length_stn name 100).trans (length_stn name' 100).symm)).2
  exact (List.append_inj behind ((length_itn _ 8).trans (length_itn _ 8).symm)).1

theorem storedName_inj {header header' : TarHeader} (last : header.name.getLast? ≠ some (byte '/'))
    (last' : header'.name.getLast? ≠ some (byte '/')) (type : header.type = header'.type)
    (same : storedName header = storedName header') : header.name = header'.name := by
  rw [Builder.storedName_eq last, Builder.storedName_eq last'] at same
  by_cases directory : header.IsDir
  · rw [if_pos directory, if_pos (show header'.IsDir from type.symm.trans directory)] at same
    exact List.append_cancel_right same
  · rw [if_neg directory, if_neg (show ¬ header'.IsDir from fun isDir => directory (type.trans isDir))] at same
    exact same

/-- The stored name can be read from the member. -/
theorem storedName_of_rawMemberOf {containsLocalHostPath : Bytes → Bool} {member member' : TarHeader × Bytes}
    (written : Written containsLocalHostPath member) (written' : Written containsLocalHostPath member')
    (same : rawMemberOf member = rawMemberOf member') : storedName member.1 = storedName member'.1 := by
  have pax := congrArg RawMember.pax same
  have header : createHeader member.1 (storedName member.1) = createHeader member'.1 (storedName member'.1) :=
    congrArg RawMember.header same
  rw [rawMemberOf, rawMemberOf] at pax
  dsimp only at pax
  by_cases needs : NeedsPaxPath member.1
  · rw [if_pos needs] at pax
    by_cases needs' : NeedsPaxPath member'.1
    · rw [if_pos needs'] at pax
      have record : paxRecord (storedName member.1) = paxRecord (storedName member'.1) :=
        congrArg PaxRecord.payload (Option.some.inj pax)
      have carries := carries_paxRecordOf (paxRecordLength (storedName member'.1)) (storedName member'.1)
      rw [← paxRecord, ← record] at carries
      exact path_of_carries carries
    · rw [if_neg needs'] at pax
      cases pax
  · rw [if_neg needs] at pax
    by_cases needs' : NeedsPaxPath member'.1
    · rw [if_pos needs'] at pax
      cases pax
    · rw [← written.named needs, header, written'.named needs']

/-- The mode and the type say what a header of the builder is. -/
theorem archiveInfo_inj {name : Bytes} {size : Int} {executable executable' isDirectory isDirectory' : Bool}
    (type : (if isDirectory then dirType else regType) = if isDirectory' then dirType else regType)
    (mode : itn ((if isDirectory || executable then 0o755 else 0o644 : Int) % 0o10000).toNat 8 =
      itn ((if isDirectory' || executable' then 0o755 else 0o644 : Int) % 0o10000).toNat 8) :
    Builder.archiveInfo name size executable isDirectory = Builder.archiveInfo name size executable' isDirectory' := by
  cases isDirectory <;> cases isDirectory' <;> cases executable <;> cases executable' <;>
    first
    | rfl
    | exact absurd type (by decide)
    | exact absurd mode (by decide)

/-- A member can be read from what is written for it. -/
theorem rawMemberOf_inj {containsLocalHostPath : Bytes → Bool} {member member' : TarHeader × Bytes}
    (written : Written containsLocalHostPath member) (written' : Written containsLocalHostPath member')
    (same : rawMemberOf member = rawMemberOf member') : member = member' := by
  have header : createHeader member.1 (storedName member.1) = createHeader member'.1 (storedName member'.1) :=
    congrArg RawMember.header same
  have type : member.1.type = member'.1.type := by
    rw [← rawMemberOf_type written, ← rawMemberOf_type written', same]
  have name := storedName_inj written.last written'.last type (storedName_of_rawMemberOf written written' same)
  have size : member.2.length = member'.2.length := by
    have sizes : member.1.size.toNat = member'.1.size.toNat := congrArg RawMember.size same
    rw [written.size, written'.size, Int.toNat_natCast, Int.toNat_natCast] at sizes
    exact sizes
  have payload := (List.append_inj (congrArg RawMember.contents same) size).1
  have mode := createHeader_inj header
  have headers : member.1 = member'.1 := by
    obtain ⟨given, executable, isDirectory, info, -⟩ := written.emitted
    obtain ⟨given', executable', isDirectory', info', -⟩ := written'.emitted
    rw [info, info'] at name type mode
    rw [info, info', size]
    rw [show given = given' from name]
    exact archiveInfo_inj type mode
  exact Prod.ext headers payload

theorem map_rawMemberOf_inj {containsLocalHostPath : Bytes → Bool} {members others : List (TarHeader × Bytes)}
    (written : ∀ member ∈ members, Written containsLocalHostPath member)
    (written' : ∀ member ∈ others, Written containsLocalHostPath member)
    (same : others.map rawMemberOf = members.map rawMemberOf) : others = members := by
  induction others generalizing members with
  | nil => exact (List.map_eq_nil_iff.mp same.symm).symm
  | cons other others ih =>
      cases members with
      | nil => cases same
      | cons member members =>
          obtain ⟨first, rest⟩ := List.cons_eq_cons.mp same
          rw [rawMemberOf_inj (written' other List.mem_cons_self) (written member List.mem_cons_self) first,
            ih (fun m inside => written m (List.mem_cons_of_mem member inside))
              (fun m inside => written' m (List.mem_cons_of_mem other inside)) rest]

/-- A directory with one file. -/
def sampleWritten : List (TarHeader × Bytes) :=
  [(Builder.archiveInfo (lit "r/d") 0 true true, []), (Builder.archiveInfo (lit "r/d/a") 2 false false, lit "x\n")]

end ExitfyCores.Bundle
