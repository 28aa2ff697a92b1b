/-
Module: ExitfyCores.Proofs.BuiltAudit
Layer: Proofs
Purpose: The audit of a bundle that the builder has written: exactly what the tree has to be for the audit to pass, and
  what it returns then.
Imports: ExitfyCores.Proofs.BuilderLimits, ExitfyCores.Proofs.BundleCanonical, ExitfyCores.Proofs.TarRoundTrip
Trusted boundary: none; that gzip and tarfile read back what they have written is the hypothesis `Writes`
Main exports: MemberPasses, auditMembers_pass_iff, Writes, Allowed, auditBundle_built
Open obligations: none
-/
import ExitfyCores.Proofs.BuilderLimits
import ExitfyCores.Proofs.BundleCanonical
import ExitfyCores.Proofs.TarRoundTrip

namespace ExitfyCores.Bundle

/-! ### The loop over the members -/

/-- The state behind a member. -/
def countedBehind (state : AuditState) (member : TarInfo) : AuditState :=
  countMember state member (posixPath member.header.name)

/-- A member that the audit passes in this state. -/
structure MemberPasses (library : Library) (policy : Policy) (stream : Bytes) (state : AuditState) (member : TarInfo) :
    Prop where
  limits : checkLimits (countedBehind state member) = .ok ()
  canonical : canonicalMemberFailures library stream member = .ok []
  name : nameFailures policy state member.header (posixPath member.header.name) = []
  metadata : reproducibleMetadataFailures member.header = []
  content :
    contentFailures policy stream member (posixPath member.header.name) (countedBehind state member).expanded = []

/-- One turn without failures. -/
theorem auditMember_pass_iff {library : Library} {policy : Policy} {stream : Bytes} {state next : AuditState}
    {member : TarInfo} (clean : state.failures = []) :
    auditMember library policy stream state member = .ok next ∧ next.failures = [] ↔
      next = countedBehind state member ∧ MemberPasses library policy stream state member := by
  have kept : (countedBehind state member).failures = [] := clean
  have same : { countedBehind state member with failures := [] } = countedBehind state member := by
    rw [← kept]
  constructor
  · rintro ⟨step, passed⟩
    unfold auditMember at step
    dsimp only at step
    obtain ⟨_, limits, step⟩ := bind_eq_ok step
    obtain ⟨canonical, bytes, step⟩ := bind_eq_ok step
    obtain ⟨_, _, step⟩ := bind_eq_ok step
    cases step
    dsimp only at passed
    simp only [List.append_eq_nil_iff] at passed
    obtain ⟨⟨⟨⟨_, name⟩, metadata⟩, rfl⟩, content⟩ := passed
    refine ⟨?_, limits, bytes, name, metadata, content⟩
    rw [clean, name, metadata, content]
    exact same
  · rintro ⟨isNext, passes⟩
    refine ⟨?_, isNext ▸ kept⟩
    have limits := passes.limits
    have content := passes.content
    unfold countedBehind at limits content
    unfold auditMember
    dsimp only
    rw [limits, ok_bind, passes.canonical, ok_bind, clean, passes.name, passes.metadata, content, isNext]
    show (raiseIf (maxFailures < 0) _ >>= fun _ => _) = _
    rw [raiseIf_eq_ok.mpr (Nat.not_lt_zero _), ok_bind]
    exact congrArg Except.ok same

/-- The loop without failures. -/
theorem auditMembers_pass_iff {library : Library} {policy : Policy} {stream : Bytes} {members : List TarInfo}
    {state final : AuditState} (clean : state.failures = []) :
    members.foldlM (auditMember library policy stream) state = .ok final ∧ final.failures = [] ↔
      final = members.foldl countedBehind state ∧
        ∀ done member rest, members = done ++ member :: rest →
          MemberPasses library policy stream (done.foldl countedBehind state) member := by
  induction members generalizing state with
  | nil =>
      rw [List.foldlM_nil, List.foldl_nil]
      constructor
      · rintro ⟨run, _⟩
        cases run
        refine ⟨rfl, fun done member rest split => ?_⟩
        cases List.append_eq_nil_iff.mp split.symm |>.2
      · rintro ⟨same, _⟩
        exact ⟨same ▸ rfl, same ▸ clean⟩
  | cons member members ih =>
      rw [List.foldlM_cons, List.foldl_cons]
      constructor
      · rintro ⟨run, passed⟩
        obtain ⟨next, step, run⟩ := bind_eq_ok run
        have behind := (auditMembers_checked run passed).1
        obtain ⟨rfl, passes⟩ := (auditMember_pass_iff clean).mp ⟨step, behind⟩
        obtain ⟨same, later⟩ := (ih behind).mp ⟨run, passed⟩
        refine ⟨same, fun done other rest split => ?_⟩
        cases done with
        | nil =>
            cases split
            exact passes
        | cons first done =>
            cases split
            exact later done other rest rfl
      · rintro ⟨same, passes⟩
        have first := passes [] member members rfl
        have step := (auditMember_pass_iff clean).mpr ⟨rfl, first⟩
        rw [step.1, ok_bind]
        refine (ih step.2).mpr ⟨same, fun done other rest split => ?_⟩
        exact passes (member :: done) other rest (by rw [split]; rfl)

/-! ### The members in the stream -/

theorem addFiles_append (front back : List (TarHeader × Bytes)) :
    addFiles (front ++ back) = addFiles front ++ addFiles back :=
  List.flatMap_append

/-- A member that tarfile has read at this place. -/
def tarMember (offset : Nat) (member : TarHeader × Bytes) : TarInfo :=
  { header := readBack member.1, offset := offset, offsetData := offset + (toBuf member.1).length }

theorem tarMembers_append (offset : Nat) (front back : List (TarHeader × Bytes)) :
    tarMembers offset (front ++ back) =
      tarMembers offset front ++ tarMembers (offset + (addFiles front).length) back := by
  induction front generalizing offset with
  | nil => rfl
  | cons member front ih =>
      rw [List.cons_append, tarMembers, ih, tarMembers, List.cons_append, Nat.add_assoc, ← List.length_append]
      rfl

@[simp] theorem map_header_tarMembers (offset : Nat) (members : List (TarHeader × Bytes)) :
    (tarMembers offset members).map TarInfo.header = (members.map Prod.fst).map readBack := by
  induction members generalizing offset with
  | nil => rfl
  | cons member members ih => rw [tarMembers, List.map_cons, ih, List.map_cons, List.map_cons]

/-- A member that was read is one that was written, behind those before it. -/
theorem tarMembers_split {offset : Nat} {members : List (TarHeader × Bytes)} {done rest : List TarInfo} {info : TarInfo}
    (split : tarMembers offset members = done ++ info :: rest) :
    ∃ front member back, members = front ++ member :: back ∧ done = tarMembers offset front ∧
      info = tarMember (offset + (addFiles front).length) member := by
  induction done generalizing offset members with
  | nil =>
      cases members with
      | nil => cases split
      | cons member members =>
          rw [tarMembers, List.nil_append] at split
          exact ⟨[], member, members, rfl, rfl, (List.cons.inj split).1.symm⟩
  | cons first done ih =>
      cases members with
      | nil => cases split
      | cons member members =>
          rw [tarMembers, List.cons_append] at split
          obtain ⟨head, tail⟩ := List.cons.inj split
          obtain ⟨front, found, back, rfl, rfl, place⟩ := ih tail
          refine ⟨member :: front, found, back, rfl, by rw [tarMembers, head], ?_⟩
          rw [place, Nat.add_assoc, ← List.length_append]
          rfl

/-- What stands in the stream from a member on. -/
theorem drop_tarStream (front back : List (TarHeader × Bytes)) (member : TarHeader × Bytes) :
    ∃ rest, (tarStream (front ++ member :: back)).drop (addFiles front).length =
      toBuf member.1 ++ (member.2 ++ (blockPadding member.2.length ++ rest)) := by
  refine ⟨addFiles back ++ List.replicate (canonicalTarStreamSize (addFiles (front ++ member :: back)).length -
    (addFiles (front ++ member :: back)).length) 0, ?_⟩
  have cons : addFiles (member :: back) = addFile member ++ addFiles back := rfl
  rw [tarStream, addFiles_append, cons, List.append_assoc, List.drop_left, addFile]
  simp only [List.append_assoc]

theorem readExactAt_of_drop {stream data rest : Bytes} {offset : Nat} (found : stream.drop offset = data ++ rest) :
    readExactAt stream data.length offset = .ok data :=
  readExactAt_iff.mpr ⟨rest, found, rfl⟩

/-- The header that tarfile writes for a member is the same when the member has been read back. -/
theorem toBuf_readBack {containsLocalHostPath : Bytes → Bool} {member : TarHeader × Bytes}
    (written : Written containsLocalHostPath member) : toBuf (readBack member.1) = toBuf member.1 := by
  have name : (readBack member.1).name = member.1.name := Builder.readBack_name written.last
  have stored : storedName (readBack member.1) = storedName member.1 := by
    rw [Builder.storedName_eq written.last, Builder.storedName_eq (name ▸ written.last), name]
    rfl
  have needs : NeedsPaxPath (readBack member.1) ↔ NeedsPaxPath member.1 := by
    unfold NeedsPaxPath
    rw [stored]
  have entries : paxEntries (readBack member.1) =
      if NeedsPaxPath (readBack member.1) then [(lit "path", storedName (readBack member.1))] else [] := by
    have own : (readBack member.1).paxHeaders = paxPath member.1 := rfl
    rw [paxEntries, own, paxPath, stored]
    by_cases record : NeedsPaxPath member.1
    · rw [if_pos record, if_pos (needs.mpr record), Dict.keys]
      rw [if_neg fun both => both.1 List.mem_cons_self, List.append_nil]
    · rw [if_neg record, if_neg fun both => record (needs.mp both.2), if_neg (mt needs.mp record)]
      rfl
  rw [toBuf_eq entries, toBuf_eq (paxEntries_eq written.paxHeaders), stored]
  simp only [needs]
  rfl

/-- The byte checks pass a member that was written. -/
theorem canonical_of_written {library : Library} {containsLocalHostPath : Bytes → Bool}
    {front back : List (TarHeader × Bytes)} {member : TarHeader × Bytes}
    (written : Written containsLocalHostPath member)
    (encoded : library.tobuf (readBack member.1) = .ok (toBuf (readBack member.1))) :
    canonicalMemberFailures library (tarStream (front ++ member :: back)) (tarMember (addFiles front).length member) =
      .ok [] := by
  obtain ⟨rest, found⟩ := drop_tarStream front back member
  have size : (readBack member.1).size = member.2.length := written.size
  have header := readExactAt_of_drop found
  have padding : readExactAt (tarStream (front ++ member :: back)) (blockPadding member.2.length).length
      ((addFiles front).length + (toBuf member.1).length + member.2.length) = .ok (blockPadding member.2.length) := by
    have behind : (tarStream (front ++ member :: back)).drop
        ((addFiles front).length + (toBuf member.1).length + member.2.length) =
          blockPadding member.2.length ++ rest := by
      rw [← List.drop_drop, ← List.drop_drop, found, List.drop_left, List.drop_left]
    exact readExactAt_of_drop behind
  rw [canonicalMemberFailures, tarMember, encoded, toBuf_readBack written]
  dsimp only
  rw [if_neg (by omega), header, ok_bind, failIf_eq_nil.mpr (not_not.mpr rfl), padding_eq (by rw [size]; omega), size,
    Int.toNat_natCast]
  split
  · rfl
  · have place : ((((addFiles front).length + (toBuf member.1).length : Nat) : Int) + member.2.length).toNat =
        (addFiles front).length + (toBuf member.1).length + member.2.length := by omega
    have zero : AllZero (blockPadding member.2.length) := allZero_zeros _
    rw [length_blockPadding] at padding
    rw [place, padding, ok_bind, failIf_eq_nil.mpr (not_not.mpr zero)]
    rfl

theorem payloadOf_tarMember {containsLocalHostPath : Bytes → Bool} {front back : List (TarHeader × Bytes)}
    {member : TarHeader × Bytes} (written : Written containsLocalHostPath member) :
    payloadOf (tarStream (front ++ member :: back)) (tarMember (addFiles front).length member) = member.2 := by
  obtain ⟨rest, found⟩ := drop_tarStream front back member
  have size : (readBack member.1).size = member.2.length := written.size
  rw [payloadOf, tarMember]
  dsimp only
  rw [← List.drop_drop, found, List.drop_left, size, Int.toNat_natCast, List.take_left]

/-! ### The state behind members -/

/-- What the audit has recorded of members below one root. -/
structure Recorded (root : Bytes) (members : List TarInfo) : Prop where
  kinds : (countMembers members).memberKinds =
    members.map fun member => (posixPath member.header.name, member.header.kind)
  single : (countMembers members).multipleRoots = false
  rootName : (countMembers members).rootName = if members = [] then none else some root
  failures : (countMembers members).failures = []

theorem recorded {root : Bytes} {members : List TarInfo}
    (below : ∀ member ∈ members, (posixPath member.header.name).parts.head? = some root) : Recorded root members := by
  induction members using List.reverseRecOn with
  | nil => exact ⟨rfl, rfl, rfl, rfl⟩
  | append_singleton members member ih =>
      have before := ih fun other inside => below other (List.mem_append_left _ inside)
      have head := below member (List.mem_append_right _ (List.mem_singleton_self member))
      refine ⟨?_, ?_, ?_, ?_⟩
      · rw [countMembers_concat, List.map_append, ← before.kinds]
        rfl
      · rw [countMembers_concat, countMember]
        dsimp only
        rw [before.single, before.rootName, head]
        by_cases first : members = []
        · rw [if_pos first]
          simp
        · rw [if_neg first]
          simp
      · rw [countMembers_concat, countMember]
        dsimp only
        rw [before.rootName, head, if_neg (List.append_ne_nil_of_right_ne_nil _ (List.cons_ne_nil _ _))]
        by_cases first : members = []
        · rw [if_pos first]
          rfl
        · rw [if_neg first]
          rfl
      · rw [countMembers_concat]
        exact before.failures

theorem archiveEnd_tarMembers {containsLocalHostPath : Bytes → Bool} {members : List (TarHeader × Bytes)}
    (written : ∀ member ∈ members, Written containsLocalHostPath member) :
    (countMembers (tarMembers 0 members)).archiveEnd = (addFiles members).length := by
  induction members using List.reverseRecOn with
  | nil => rfl
  | append_singleton members member ih =>
      have before := ih fun other inside => written other (List.mem_append_left _ inside)
      have last := written member (List.mem_append_right _ (List.mem_singleton_self member))
      have size : (readBack member.1).size.toNat = member.2.length := by
        rw [show (readBack member.1).size = member.1.size from rfl, last.size, Int.toNat_natCast]
      have padded := le_padded member.2.length
      have length : (addFile member).length = (toBuf member.1).length + paddedSize member.2.length := by
        rw [addFile, List.length_append, List.length_append, length_blockPadding]
        omega
      have alone : (addFiles [member]).length = (addFile member).length := by
        rw [addFiles, List.flatMap_singleton]
      rw [tarMembers_append, Nat.zero_add, tarMembers, tarMembers, countMembers_concat, countMember]
      dsimp only
      rw [before, size, addFiles_append, List.length_append, alone, length]
      omega

/-! ### Names of the builder -/

/-- Two texts that are UTF-8, joined by a slash. -/
theorem decodes_slash {left right : Bytes} (one : DecodesStrictly left) (two : DecodesStrictly right) :
    DecodesStrictly (left ++ byte '/' :: right) := by
  have slash : (byte '/').toNat < 128 := by decide
  unfold DecodesStrictly runes at one two ⊢
  rw [symbols_append (startsSequence_ascii slash right), symbols_ascii_cons slash, List.map_append, List.map_cons,
    encodeRunes_append, encodeRunes_cons, one, two]
  rfl

theorem decodes_intercalate {parts : List Bytes} (decodes : ∀ part ∈ parts, DecodesStrictly part) :
    DecodesStrictly ([byte '/'].intercalate parts) := by
  induction parts with
  | nil => rfl
  | cons part parts ih =>
      have rest := ih fun other inside => decodes other (List.mem_cons_of_mem part inside)
      by_cases last : parts = []
      · rw [last, List.intercalate_singleton]
        exact decodes part List.mem_cons_self
      · rw [List.intercalate_cons_of_ne_nil last, List.append_assoc]
        exact decodes_slash (decodes part List.mem_cons_self) rest

/-- The name policy sees the name of a directory without its slash. -/
theorem namePolicy_slash {containsLocalHostPath : Bytes → Bool} {name : Bytes}
    (last : name.getLast? ≠ some (byte '/')) :
    memberNamePolicyFailure containsLocalHostPath (name ++ [byte '/']) true =
      memberNamePolicyFailure containsLocalHostPath name true := by
  have whole : (name.getLast? == some (byte '/')) = false := beq_eq_false_iff_ne.mpr last
  have slash : ((name ++ [byte '/']).getLast? == some (byte '/')) = true := by
    rw [List.getLast?_concat, beq_self_eq_true]
  rw [memberNamePolicyFailure, memberNamePolicyFailure, whole, slash, List.dropLast_concat]
  rfl

namespace Builder

open PathOrder

/-- What the audit relies on of gzip and tarfile: they read back what they have written for these members. -/
structure Writes (library : Library) (bundle : Bytes) (members : List (TarHeader × Bytes)) : Prop where
  header : bundle.take canonicalGzipHeader.length = canonicalGzipHeader
  compress : library.compress (tarStream members) = bundle
  decompress : library.decompress bundle = .ok (tarStream members)
  parse : library.members (tarStream members) = .ok (tarMembers 0 members)
  tobuf : ∀ member ∈ members, library.tobuf (readBack member.1) = .ok (toBuf (readBack member.1))

/-- The audit reads back the stream of a written bundle, when both are within their limits. -/
theorem Writes.inspectGzipStream_iff {library : Library} {bundle : Bytes} {members : List (TarHeader × Bytes)}
    (writes : Writes library bundle members) {info : GzipStreamInfo} :
    inspectGzipStream library bundle = .ok info ↔
      (bundle.length ≤ maxBundleBytes ∧ (tarStream members).length ≤ maxTarStreamBytes) ∧
        info = { stream := tarStream members, lastNonzeroOffset := lastNonzeroOffset (tarStream members) } := by
  constructor
  · intro read
    unfold inspectGzipStream at read
    obtain ⟨_, _, read⟩ := bind_eq_ok read
    obtain ⟨_, size, read⟩ := bind_eq_ok read
    obtain ⟨stream, decompressed, read⟩ := bind_eq_ok read
    obtain ⟨_, short, read⟩ := bind_eq_ok read
    cases read
    rw [writes.decompress] at decompressed
    cases decompressed
    rw [raiseIf_eq_ok, Nat.not_lt] at size short
    exact ⟨⟨size, short⟩, rfl⟩
  · rintro ⟨⟨size, short⟩, rfl⟩
    rw [inspectGzipStream, raiseIf_eq_ok.mpr (not_not.mpr writes.header), ok_bind,
      raiseIf_eq_ok.mpr (Nat.not_lt.mpr size), ok_bind, writes.decompress, ok_bind,
      raiseIf_eq_ok.mpr (Nat.not_lt.mpr short)]
    rfl

theorem Writes.filled {library : Library} {bundle : Bytes} {members : List (TarHeader × Bytes)}
    (writes : Writes library bundle members) : bundle ≠ [] := by
  rintro rfl
  cases writes.header

/-- A payload by itself. -/
def aloneMember (member : TarHeader × Bytes) : TarInfo :=
  { header := readBack member.1, offset := 0, offsetData := 0 }

/-- What the audit asks of a member beside the limits. -/
structure Allowed (policy : Policy) (member : TarHeader × Bytes) : Prop where
  name : memberNamePolicyFailure policy.containsLocalHostPath member.1.name (member.1.type == dirType) = none
  path : forbiddenNamespacePath (posixPath member.1.name) = false
  artifact : member.1.type = regType → lowerText (posixPath member.1.name).suffix ∉ forbiddenSuffixes.map String.toList
  payload : member.1.type = regType →
    payloadFailures policy member.2 (aloneMember member) (posixPath member.1.name) = []
  record : ¬ (member.1.IsDir ∧ IsASCII member.1.name ∧ member.1.name.length = lengthName)

/-- A header of the builder and its place below the root. -/
structure Placed (root : Bytes) (header : TarHeader) : Prop where
  path : ∃ names, names ≠ [] ∧ (∀ name ∈ names, SafeName name) ∧
    posixPath header.name = { root := [], names := root :: names } ∧
    header.name = [byte '/'].intercalate (root :: names)
  last : header.name.getLast? ≠ some (byte '/')
  short : header.name.length ≤ maxMemberNameBytes
  info : ∃ size executable isDirectory, 0 ≤ size ∧ size ≤ maxPublicFileBytes ∧
    header = archiveInfo header.name size executable isDirectory

theorem Built.placed {root : Bytes} {manifest : Manifest} {source : Source} {headers : List TarHeader}
    (built : Built root manifest source headers) (single : SingleComponent root) {header : TarHeader}
    (written : header ∈ headers) : Placed root header := by
  obtain ⟨relative, size, executable, isDirectory, isRelative, nonempty, safe, within, lower, upper, rfl⟩ :=
    built.canEmit written
  have parts : relative.parts ≠ [] := by
    rw [PosixPath.parts, if_pos isRelative]
    exact nonempty
  rw [checkArchivePath, raiseIf_eq_ok, not_or, not_or, Nat.not_lt, Nat.not_lt, Nat.not_lt] at within
  refine
    { path := ⟨relative.names, nonempty, safe, posixPath_archivePath single isRelative nonempty safe, ?_⟩
      last := getLast?_archivePath isRelative nonempty safe
      short := within.2.2
      info := ⟨size, executable, isDirectory, lower, upper, rfl⟩ }
  show archivePath root relative = _
  rw [archivePath, PosixPath.asPosix, if_neg parts, isRelative, List.nil_append,
    List.intercalate_cons_of_ne_nil nonempty]

theorem Placed.head {root : Bytes} {header : TarHeader} (placed : Placed root header) :
    (posixPath header.name).root = [] ∧ (posixPath header.name).parts.head? = some root := by
  obtain ⟨names, _, _, path, _⟩ := placed.path
  rw [path]
  exact ⟨rfl, rfl⟩

theorem Placed.asPosix {root : Bytes} {header : TarHeader} (placed : Placed root header) :
    (posixPath header.name).asPosix = header.name := by
  obtain ⟨names, _, _, path, name⟩ := placed.path
  rw [path, name]
  rfl

theorem Placed.parent {root : Bytes} {header : TarHeader} (placed : Placed root header)
    (single : SingleComponent root) : lit ".." ∉ (posixPath header.name).parts := by
  obtain ⟨names, _, safe, path, _⟩ := placed.path
  have dots : lit ".." ∈ unsafeNames := by decide
  rw [path]
  intro member
  rcases List.mem_cons.mp member with isRoot | inNames
  · exact single.part (isRoot ▸ dots)
  · exact (safe _ inNames).part dots

theorem Placed.decodes {root : Bytes} {header : TarHeader} (placed : Placed root header)
    (rootDecodes : DecodesStrictly root) : DecodesStrictly header.name := by
  obtain ⟨names, _, safe, _, name⟩ := placed.path
  rw [name]
  apply decodes_intercalate
  intro part member
  rcases List.mem_cons.mp member with rfl | inNames
  · exact rootDecodes
  · exact (safe part inNames).decodes

theorem Placed.filled {root : Bytes} {header : TarHeader} (placed : Placed root header) : header.name ≠ [] := by
  intro empty
  obtain ⟨names, nonempty, _, path, _⟩ := placed.path
  rw [empty] at path
  have none : (posixPath []).names = [] := by decide
  rw [path] at none
  cases none

/-- The type of a header of the builder. -/
theorem Placed.type {root : Bytes} {header : TarHeader} (placed : Placed root header) :
    header.type = dirType ∧ header.size = 0 ∨ header.type = regType := by
  obtain ⟨size, executable, isDirectory, _, _, info⟩ := placed.info
  rw [info]
  cases isDirectory with
  | true => exact Or.inl ⟨rfl, rfl⟩
  | false => exact Or.inr rfl

/-- A member of the builder, under a name that the audit allows. -/
theorem Placed.written {root : Bytes} {policy : Policy} {member : TarHeader × Bytes} (placed : Placed root member.1)
    (rootDecodes : DecodesStrictly root) (size : (member.2.length : Int) = member.1.size)
    (allowed : memberNamePolicyFailure policy.containsLocalHostPath member.1.name (member.1.type == dirType) = none) :
    Written policy.containsLocalHostPath member := by
  obtain ⟨given, executable, isDirectory, lower, upper, info⟩ := placed.info
  have stored := storedName_eq placed.last
  have bounded : member.1.size ≤ maxPublicFileBytes := by
    rw [info]
    cases isDirectory with
    | true => exact (by decide : (0 : Int) ≤ maxPublicFileBytes)
    | false => exact upper
  refine ⟨⟨member.1.name, executable, isDirectory, ?_, ?_⟩, placed.last, ?_, ?_, ?_⟩
  · rw [size]
    rw [info]
    cases isDirectory <;> rfl
  · intro directory
    rw [info, directory] at size
    have none : (member.2.length : Int) = 0 := size
    exact List.length_eq_zero_iff.mp (by omega)
  · rw [← size] at bounded
    unfold maxPublicFileBytes at bounded
    unfold maxMemberBytes
    omega
  · have short := placed.short
    rw [stored]
    split
    · rw [List.length_append, List.length_singleton]
      omega
    · omega
  · rw [validateRawMemberName_iff, stored]
    have decodes := placed.decodes rootDecodes
    by_cases directory : member.1.IsDir
    · have isDir : (member.1.type == dirType) = true := beq_iff_eq.mpr directory
      rw [isDir] at allowed ⊢
      rw [if_pos directory]
      exact ⟨List.append_ne_nil_of_right_ne_nil _ (List.cons_ne_nil _ _), decodes_slash decodes rfl,
        (namePolicy_slash placed.last).trans allowed⟩
    · rw [if_neg directory]
      exact ⟨placed.filled, decodes, allowed⟩

/-! ### The checks of one member -/

/-- The metadata of a header of the builder. -/
theorem Placed.metadata_iff {root : Bytes} {header : TarHeader} (placed : Placed root header) :
    reproducibleMetadataFailures (readBack header) = [] ↔
      ¬ (header.IsDir ∧ IsASCII header.name ∧ header.name.length = lengthName) := by
  have last := placed.last
  obtain ⟨size, executable, isDirectory, _, _, info⟩ := placed.info
  rw [info] at last ⊢
  rw [← paxKeys_iff last, otherMetadata _ size executable isDirectory, List.append_eq_nil_iff, failIf_eq_nil,
    failIf_eq_nil, not_not]
  apply and_iff_left
  rintro ⟨entry, member, _, different⟩
  exact different (paxPath_expected last entry member)

/-- A state of the audit in which a member is neither below another root nor a duplicate. -/
structure Fresh (root : Bytes) (state : AuditState) (path : PosixPath) : Prop where
  rootName : state.rootName = none ∨ state.rootName = some root
  kinds : path ∉ state.memberKinds.map Prod.fst

/-- The name checks of a header of the builder. -/
theorem Placed.name_iff {root : Bytes} {header : TarHeader} (placed : Placed root header)
    (rootDecodes : DecodesStrictly root) {policy : Policy} {state : AuditState}
    (fresh : Fresh root state (posixPath header.name)) :
    nameFailures policy state (readBack header) (posixPath (readBack header).name) = [] ↔
      (posixPath header.name).parts.length ≤ 128 ∧
        memberNamePolicyFailure policy.containsLocalHostPath header.name (header.type == dirType) = none := by
  have name : (readBack header).name = header.name := Builder.readBack_name placed.last
  have decodes := placed.decodes rootDecodes
  have filled := placed.filled
  have head := placed.head.2
  have directory : decide (readBack header).IsDir = (header.type == dirType) := by
    rw [beq_eq_decide]
    rfl
  have parts : (posixPath header.name).parts ≠ [] := by
    intro none
    rw [none] at head
    cases head
  have oneRoot : ¬ ∃ other, state.rootName = some other ∧ (posixPath header.name).parts.head? ≠ some other ∧
      state.multipleRoots = false := by
    rintro ⟨other, isRoot, different, _⟩
    rcases fresh.rootName with none | same
    · rw [none] at isRoot
      cases isRoot
    · rw [same] at isRoot
      cases isRoot
      exact different head
  rw [nameFailures, name, if_pos decodes, if_neg filled, if_neg (not_or.mpr ⟨filled, parts⟩), directory]
  cases memberNamePolicyFailure policy.containsLocalHostPath header.name (header.type == dirType) with
  | none =>
      simp only [List.append_eq_nil_iff, failIf_eq_nil]
      constructor
      · rintro ⟨⟨⟨⟨⟨_, depth⟩, _⟩, _⟩, _⟩, _⟩
        exact ⟨Nat.not_lt.mp depth, trivial⟩
      · rintro ⟨depth, _⟩
        exact ⟨⟨⟨⟨⟨⟨not_not.mpr decodes, Nat.not_lt.mpr placed.short⟩, Nat.not_lt.mpr depth⟩, trivial⟩, oneRoot⟩,
          not_not.mpr placed.asPosix⟩, fresh.kinds⟩
  | some failure =>
      simp only [List.append_eq_nil_iff]
      constructor
      · rintro ⟨⟨⟨⟨_, reported⟩, _⟩, _⟩, _⟩
        cases reported
      · rintro ⟨_, allowed⟩
        cases allowed

/-- The checks on a payload look at nothing else of the stream. -/
theorem payloadFailures_congr {policy : Policy} {stream stream' : Bytes} {member member' : TarInfo} {path : PosixPath}
    (header : member.header = member'.header) (payload : payloadOf stream member = payloadOf stream' member') :
    payloadFailures policy stream member path = payloadFailures policy stream' member' path := by
  rw [payloadFailures, payloadFailures, payload, header]

/-- The content checks of a member of the builder. -/
theorem Placed.content_iff {root : Bytes} {policy : Policy} {member : TarHeader × Bytes} {front back}
    (placed : Placed root member.1) (single : SingleComponent root)
    (written : Written policy.containsLocalHostPath member) {expanded : Int} :
    contentFailures policy (tarStream (front ++ member :: back)) (tarMember (addFiles front).length member)
        (posixPath (readBack member.1).name) expanded = [] ↔
      forbiddenNamespacePath (posixPath member.1.name) = false ∧
        (member.1.type = regType → expanded ≤ maxExpandedBytes ∧
          lowerText (posixPath member.1.name).suffix ∉ forbiddenSuffixes.map String.toList ∧
          payloadFailures policy member.2 (aloneMember member) (posixPath member.1.name) = []) := by
  have name : (readBack member.1).name = member.1.name := Builder.readBack_name placed.last
  have safe : ¬ ((posixPath member.1.name).root ≠ [] ∨ lit ".." ∈ (posixPath member.1.name).parts) := by
    rw [not_or, not_not]
    exact ⟨placed.head.1, placed.parent single⟩
  have alone : payloadOf member.2 (aloneMember member) = member.2 := by
    have size : (readBack member.1).size = member.2.length := written.size
    rw [payloadOf, aloneMember]
    dsimp only
    rw [size, Int.toNat_natCast, List.drop_zero, List.take_length]
  have payload : payloadFailures policy (tarStream (front ++ member :: back)) (tarMember (addFiles front).length member)
      (posixPath member.1.name) = payloadFailures policy member.2 (aloneMember member) (posixPath member.1.name) :=
    payloadFailures_congr rfl ((payloadOf_tarMember written).trans alone.symm)
  rw [contentFailures, name, if_neg safe]
  by_cases forbidden : forbiddenNamespacePath (posixPath member.1.name) = true
  · rw [if_pos forbidden, forbidden]
    simp
  · have allowed : forbiddenNamespacePath (posixPath member.1.name) = false := Bool.not_eq_true _ |>.mp forbidden
    rw [if_neg forbidden, and_iff_right allowed]
    rcases written.type with ⟨directory, -⟩ | file
    · have isDir : (tarMember (addFiles front).length member).header.IsDir := directory
      have notLink : ¬ (tarMember (addFiles front).length member).header.IsLink := by
        rw [TarHeader.IsLink, show (tarMember (addFiles front).length member).header.type = dirType from directory]
        decide
      rw [if_neg notLink, if_pos isDir]
      refine iff_of_true rfl fun file => ?_
      rw [directory] at file
      exact absurd file (by decide)
    · have type : (tarMember (addFiles front).length member).header.type = regType := file
      have isFile := TarHeader.isFile_of_regType type
      have notLink : ¬ (tarMember (addFiles front).length member).header.IsLink := by
        rw [TarHeader.IsLink, type]
        decide
      have notDir : ¬ (tarMember (addFiles front).length member).header.IsDir := by
        rw [TarHeader.IsDir, type]
        decide
      have size : (tarMember (addFiles front).length member).header.size = member.2.length := written.size
      have bounded := written.bounded
      have fits : ¬ ((tarMember (addFiles front).length member).header.size < 0 ∨
          (maxMemberBytes : Int) < (tarMember (addFiles front).length member).header.size) := by
        rw [size]
        omega
      rw [if_neg notLink, if_neg notDir, if_neg (not_not.mpr isFile), if_neg fits, payload]
      by_cases expands : (maxExpandedBytes : Int) < expanded
      · rw [if_pos expands]
        refine iff_of_false (List.cons_ne_nil _ _) fun all => ?_
        exact absurd (all file).1 (Int.not_le.mpr expands)
      · rw [if_neg expands, List.append_eq_nil_iff, failIf_eq_nil]
        exact ⟨fun both _ => ⟨Int.not_lt.mp expands, both⟩, fun all => (all file).2⟩

/-! ### The whole bundle -/

/-- A built archive with its payloads, before an audit whose topology check is the one of the script. -/
structure Handed (root : Bytes) (manifest : Manifest) (source : Source) (members : List (TarHeader × Bytes))
    (policy : Policy) : Prop where
  built : Built root manifest source (members.map Prod.fst)
  single : SingleComponent root
  payloads : ∀ member ∈ members, (member.2.length : Int) = member.1.size
  topology : policy.builderTopologyFailures = builderTopologyFailures

variable {root : Bytes} {manifest : Manifest} {source : Source} {members : List (TarHeader × Bytes)} {policy : Policy}

theorem Handed.placed (handed : Handed root manifest source members policy) {member : TarHeader × Bytes}
    (inside : member ∈ members) : Placed root member.1 :=
  handed.built.placed handed.single (List.mem_map_of_mem inside)

theorem Handed.written (handed : Handed root manifest source members policy) {member : TarHeader × Bytes}
    (inside : member ∈ members)
    (allowed : memberNamePolicyFailure policy.containsLocalHostPath member.1.name (member.1.type == dirType) = none) :
    Written policy.containsLocalHostPath member :=
  (handed.placed inside).written handed.built.rootDecodes (handed.payloads member inside) allowed

theorem Handed.allWritten (handed : Handed root manifest source members policy)
    (allowed : ∀ member ∈ members, Allowed policy member) :
    ∀ member ∈ members, Written policy.containsLocalHostPath member :=
  fun member inside => handed.written inside (allowed member inside).name

/-- What the audit records of members of the builder, read back. -/
theorem paths_tarMembers {members : List (TarHeader × Bytes)} (placed : ∀ member ∈ members, Placed root member.1)
    (offset : Nat) :
    (tarMembers offset members).map (fun info => (posixPath info.header.name, info.header.kind)) =
      members.map fun member => (posixPath member.1.name, member.1.kind) := by
  have headers : ((tarMembers offset members).map TarInfo.header).map
      (fun header => (posixPath header.name, header.kind)) =
        ((members.map Prod.fst).map readBack).map fun header => (posixPath header.name, header.kind) := by
    rw [map_header_tarMembers]
  rw [List.map_map, List.map_map, List.map_map] at headers
  refine headers.trans (List.map_congr_left fun member inside => ?_)
  show (posixPath (readBack member.1).name, (readBack member.1).kind) = _
  rw [Builder.readBack_name (placed member inside).last]
  rfl

/-- Members of the builder, read back, lie below its root. -/
theorem recorded_tarMembers {members : List (TarHeader × Bytes)} (placed : ∀ member ∈ members, Placed root member.1) :
    Recorded root (tarMembers 0 members) := by
  apply recorded
  intro info inside
  have listed := List.mem_map_of_mem (f := fun info : TarInfo => (posixPath info.header.name, info.header.kind)) inside
  rw [paths_tarMembers placed] at listed
  obtain ⟨member, belongs, same⟩ := List.mem_map.mp listed
  rw [← (Prod.mk.inj same).1]
  exact (placed member belongs).head.2

/-- The paths of a built archive are different. -/
theorem Handed.nodup (handed : Handed root manifest source members policy) :
    (members.map fun member => posixPath member.1.name).Nodup := by
  have canonical := handed.built.canonical handed.single
  have distinct : ((canonicalSequence (manifestFiles root manifest)).map Prod.fst).Nodup := by
    rw [map_fst_canonicalSequence]
    exact (pairwise_sortedParts (List.nodup_dedup _)).imp ne_of_lt
  rw [← canonical, List.map_map, List.map_map] at distinct
  apply List.Nodup.of_map PosixPath.strs
  rw [List.map_map]
  exact distinct

/-- A member of the archive is new where the audit meets it. -/
theorem Handed.fresh (handed : Handed root manifest source members policy) {front back : List (TarHeader × Bytes)}
    {member : TarHeader × Bytes} (split : members = front ++ member :: back) :
    Fresh root (countMembers (tarMembers 0 front)) (posixPath member.1.name) := by
  have placed : ∀ other ∈ front, Placed root other.1 := fun other before =>
    handed.placed (split ▸ List.mem_append_left _ before)
  have record := recorded_tarMembers placed
  constructor
  · rw [record.rootName]
    split
    · exact Or.inl rfl
    · exact Or.inr rfl
  · have distinct := handed.nodup
    rw [split, List.map_append, List.map_cons] at distinct
    rw [record.kinds, paths_tarMembers placed, List.map_map]
    intro before
    exact (List.nodup_append.mp distinct).2.2 _ before _ List.mem_cons_self rfl

/-- What the audit asks of a member of the archive, and what it has counted behind it. -/
theorem Handed.passes_iff (handed : Handed root manifest source members policy) {library : Library}
    (encoded : ∀ member ∈ members, library.tobuf (readBack member.1) = .ok (toBuf (readBack member.1)))
    {front back : List (TarHeader × Bytes)} {member : TarHeader × Bytes} (split : members = front ++ member :: back) :
    MemberPasses library policy (tarStream members) (countMembers (tarMembers 0 front))
        (tarMember (addFiles front).length member) ↔
      Allowed policy member ∧ (posixPath member.1.name).parts.length ≤ 128 ∧
        checkLimits (countMembers (tarMembers 0 (front ++ [member]))) = .ok () ∧
        (member.1.type = regType → (countMembers (tarMembers 0 (front ++ [member]))).expanded ≤ maxExpandedBytes) := by
  have inside : member ∈ members := split ▸ List.mem_append_right _ List.mem_cons_self
  have placed := handed.placed inside
  have behind : countedBehind (countMembers (tarMembers 0 front)) (tarMember (addFiles front).length member) =
      countMembers (tarMembers 0 (front ++ [member])) := by
    rw [tarMembers_append, Nat.zero_add, tarMembers, tarMembers, countMembers_concat]
    rfl
  have names : nameFailures policy (countMembers (tarMembers 0 front)) (readBack member.1)
      (posixPath (readBack member.1).name) = [] ↔ _ :=
    placed.name_iff handed.built.rootDecodes (handed.fresh split)
  constructor
  · intro passes
    obtain ⟨depth, allowed⟩ := names.mp passes.name
    have written := handed.written inside allowed
    have content := passes.content
    rw [behind, split] at content
    obtain ⟨path, file⟩ := (placed.content_iff handed.single written).mp content
    refine ⟨⟨allowed, path, fun type => (file type).2.1, fun type => (file type).2.2,
      placed.metadata_iff.mp passes.metadata⟩, depth, behind ▸ passes.limits, fun type => (file type).1⟩
  · rintro ⟨allowed, depth, limits, expanded⟩
    have written := handed.written inside allowed.name
    refine
      { limits := behind ▸ limits
        canonical := split ▸ canonical_of_written written (encoded member inside)
        name := names.mpr ⟨depth, allowed.name⟩
        metadata := placed.metadata_iff.mpr allowed.record
        content := ?_ }
    rw [behind, split]
    exact (placed.content_iff handed.single written).mpr
      ⟨allowed.path, fun type => ⟨expanded type, allowed.artifact type, allowed.payload type⟩⟩

/-- No file of the manifest is a directory on the way to another one. -/
theorem Walked.files_apart {visits : List Visit} (walked : Walked root manifest visits) :
    ∀ file ∈ manifestFiles root manifest, ∀ other ∈ manifestFiles root manifest, ¬ Below file other := by
  intro file isFile other isOther below
  obtain ⟨key, member, rfl⟩ := List.mem_map.mp isFile
  obtain ⟨otherKey, otherMember, rfl⟩ := List.mem_map.mp isOther
  apply walked.apart member otherMember
  rw [below_iff_length] at below ⊢
  exact ⟨(List.cons_prefix_cons.mp below.1).2, Nat.lt_of_succ_lt_succ below.2⟩

/-- No two members of a built archive collide. -/
theorem Handed.collisionFailures_eq_nil (handed : Handed root manifest source members policy) :
    collisionFailures (members.map fun member => (posixPath member.1.name, member.1.kind)) = [] := by
  have apart := handed.built.walked.files_apart
  have listed : ∀ path kind, (path, kind) ∈ members.map (fun member => (posixPath member.1.name, member.1.kind)) →
      path.root = [] ∧ (path.strs, kind) ∈ canonicalSequence (manifestFiles root manifest) := by
    intro path kind inside
    obtain ⟨member, belongs, same⟩ := List.mem_map.mp inside
    obtain ⟨rfl, rfl⟩ := Prod.mk.inj same
    refine ⟨(handed.placed belongs).head.1, ?_⟩
    rw [← handed.built.canonical handed.single, List.map_map]
    exact List.mem_map_of_mem (f := memberEntry ∘ Prod.fst) belongs
  unfold collisionFailures
  dsimp only
  rw [List.flatMap_eq_nil_iff]
  intro entry inside
  rw [List.append_eq_nil_iff, failIf_eq_nil, List.map_eq_nil_iff, List.filter_eq_nil_iff]
  constructor
  · rintro ⟨isFile, isDirectory⟩
    rcases mem_canonicalSequence.mp (listed _ _ isFile).2 with ⟨among, -⟩ | ⟨-, other, -⟩
    · rcases mem_canonicalSequence.mp (listed _ _ isDirectory).2 with ⟨-, other⟩ | ⟨notAmong, -⟩
      · cases other
      · exact notAmong among
    · cases other
  · intro other belongs collides
    rw [decide_eq_true_eq] at collides
    obtain ⟨file, -, different, leads⟩ := collides
    obtain ⟨path, kind⟩ := other
    dsimp only at file different leads
    subst file
    have below : Below path.strs entry.1.strs :=
      ⟨List.IsPrefix.map Str.mk leads, fun same => different (List.map_injective_iff.mpr str_injective same)⟩
    rcases mem_canonicalSequence.mp (listed _ _ belongs).2 with ⟨among, -⟩ | ⟨-, directory, -⟩
    · rcases mem_canonicalSequence.mp (listed entry.1 entry.2 inside).2 with
        ⟨alsoAmong, -⟩ | ⟨-, -, last, isFile, up, -⟩
      · exact apart _ among _ alsoAmong below
      · exact apart _ among _ isFile (below.trans up)
    · cases directory

/-- The three conditions on the manifest, from what the audit has checked. -/
theorem Handed.keeps (handed : Handed root manifest source members policy)
    (depth : ∀ member ∈ members, (posixPath member.1.name).parts.length ≤ 128)
    (retained : (members.map fun member => member.1.name.length).sum ≤ maxRetainedNameBytes)
    (stream : tarStreamSize (members.map Prod.fst) ≤ maxTarStreamBytes) : KeepsAuditLimits root manifest := by
  have planned := handed.built.planned
  refine ⟨?_, ?_, ?_⟩
  · intro path inKeys
    obtain ⟨isRelative, header, listed, deep⟩ := handed.built.member_of_key handed.single inKeys
    obtain ⟨member, inside, rfl⟩ := List.mem_map.mp listed
    have shallow := depth member inside
    have parts : path.parts = path.names := if_pos isRelative
    rw [deep] at shallow
    rw [parts]
    exact Nat.le_of_succ_le_succ shallow
  · have total := (planned.map fun header => header.name.length).sum_eq
    rw [List.map_map] at total
    exact total ▸ retained
  · have same : tarStreamSize (members.map Prod.fst) = tarStreamSize (plannedHeaders root manifest) :=
      congrArg canonicalTarStreamSize (planned.map memberSpan).sum_eq
    exact same ▸ stream

/-- The kinds of what was read back. -/
theorem kinds_tarMembers (placed : ∀ member ∈ members, Placed root member.1) (kind : Kind) :
    ((tarMembers 0 members).filter fun info => info.header.kind = kind).length =
      members.countP fun member => decide (member.1.kind = kind) := by
  have listed :=
    congrArg (List.countP fun entry : PosixPath × Kind => decide (entry.2 = kind)) (paths_tarMembers placed 0)
  rw [List.countP_map, List.countP_map] at listed
  rw [← List.countP_eq_length_filter]
  exact listed

theorem Placed.kind_file {header : TarHeader} (placed : Placed root header) :
    decide (header.kind = .file) = (header.type == regType) := by
  rcases placed.type with ⟨directory, -⟩ | file
  · have isDir : header.IsDir := directory
    rw [TarHeader.kind, if_pos isDir, directory]
    decide
  · have notDir : ¬ header.IsDir := by
      rw [TarHeader.IsDir, file]
      decide
    rw [TarHeader.kind, if_neg notDir, if_pos (TarHeader.isFile_of_regType file), file]
    decide

theorem Placed.kind_directory {header : TarHeader} (placed : Placed root header) :
    decide (header.kind = .directory) = (header.type == dirType) := by
  rcases placed.type with ⟨directory, -⟩ | file
  · have isDir : header.IsDir := directory
    rw [TarHeader.kind, if_pos isDir, directory]
    decide
  · have notDir : ¬ header.IsDir := by
      rw [TarHeader.IsDir, file]
      decide
    rw [TarHeader.kind, if_neg notDir, if_pos (TarHeader.isFile_of_regType file), file]
    decide

/-- What the audit counts behind all members. -/
theorem Handed.counts (handed : Handed root manifest source members policy) :
    let state := countMembers (tarMembers 0 members)
    state.memberCount = members.length ∧
      state.files = (members.countP fun member => member.1.type == regType) ∧
      state.directories = (members.countP fun member => member.1.type == dirType) ∧
      state.retainedNameBytes = (members.map fun member => member.1.name.length).sum ∧
      state.files = manifest.entries.length := by
  have placed : ∀ member ∈ members, Placed root member.1 := fun member => handed.placed
  have count := counted (tarMembers 0 members)
  have lengths : (tarMembers 0 members).length = members.length := by
    have headers := congrArg List.length (map_header_tarMembers 0 members)
    rwa [List.length_map, List.length_map, List.length_map] at headers
  have retained : ((tarMembers 0 members).map fun info => info.header.name.length).sum =
      (members.map fun member => member.1.name.length).sum := by
    have headers := congrArg (List.map fun header : TarHeader => header.name.length) (map_header_tarMembers 0 members)
    rw [List.map_map, List.map_map, List.map_map] at headers
    refine congrArg List.sum (headers.trans (List.map_congr_left fun member inside => ?_))
    exact congrArg List.length (Builder.readBack_name (placed member inside).last)
  have files : (countMembers (tarMembers 0 members)).files = members.countP fun member => member.1.type == regType := by
    rw [count.files, kinds_tarMembers placed]
    exact List.countP_congr fun member inside => by rw [(placed member inside).kind_file]
  have directories : (countMembers (tarMembers 0 members)).directories =
      members.countP fun member => member.1.type == dirType := by
    rw [count.directories, kinds_tarMembers placed]
    exact List.countP_congr fun member inside => by rw [(placed member inside).kind_directory]
  have planned : (members.countP fun member => member.1.type == regType) = manifest.entries.length := by
    have listed := (handed.built.planned.filter fun header => decide (header.kind = .file)).length_eq
    rw [plannedHeaders_files, ← List.countP_eq_length_filter, List.countP_map] at listed
    rw [← listed]
    exact List.countP_congr fun member inside => by rw [Function.comp_apply, (placed member inside).kind_file]
  exact ⟨count.memberCount.trans lengths, files, directories, count.retained.trans retained, files.trans planned⟩

/-- The limits of the audit, for the members as the builder has written them. -/
theorem Handed.within (handed : Handed root manifest source members policy) (keeps : KeepsAuditLimits root manifest) :
    WithinAuditLimits ((tarMembers 0 members).map TarInfo.header) ∧ WithinScanLimits members ∧
      tarStreamSize (members.map Prod.fst) ≤ maxTarStreamBytes := by
  have written := handed.built.within handed.single keeps
  obtain ⟨-, files, directories, -, -⟩ := handed.counts
  have count := counted (tarMembers 0 members)
  have back : WithinAuditLimits ((tarMembers 0 members).map TarInfo.header) := by
    rw [map_header_tarMembers]
    exact handed.built.within_readBack.mpr written
  have kinds : ∀ kind, ((tarMembers 0 members).filter fun info => info.header.kind = kind).length =
      (((tarMembers 0 members).map TarInfo.header).filter fun header => header.kind = kind).length := by
    intro kind
    rw [List.filter_map, List.length_map]
    rfl
  refine ⟨back, ⟨?_, ?_, ?_, ?_⟩, written.stream⟩
  · have total := written.expanded
    rw [List.map_map] at total
    have sizes : ∀ list : List (TarHeader × Bytes), (∀ member ∈ list, (member.2.length : Int) = member.1.size) →
        (((list.map fun member => member.2.length).sum : Nat) : Int) = (list.map (TarHeader.size ∘ Prod.fst)).sum := by
      intro list same
      induction list with
      | nil => rfl
      | cons member list ih =>
          rw [List.map_cons, List.map_cons, List.sum_cons, List.sum_cons, Nat.cast_add,
            ih fun other inside => same other (List.mem_cons_of_mem member inside), same member List.mem_cons_self]
          rfl
    rw [← sizes members handed.payloads] at total
    exact Int.ofNat_le.mp total
  · have total := written.count
    rwa [List.length_map] at total
  · rw [← directories, count.directories, kinds]
    exact back.directories
  · rw [← files, count.files, kinds]
    exact back.files

theorem retained_of_checkLimits {state : AuditState} (checked : checkLimits state = .ok ()) :
    state.retainedNameBytes ≤ maxRetainedNameBytes := by
  rw [checkLimits] at checked
  obtain ⟨_, _, checked⟩ := bind_eq_ok checked
  obtain ⟨_, retained, _⟩ := bind_eq_ok checked
  rw [raiseIf_eq_ok] at retained
  exact Nat.not_lt.mp retained

/-- The loop over the members of a built archive passes exactly when every member is allowed and the manifest keeps the
limits. -/
theorem Handed.loop_iff (handed : Handed root manifest source members policy) {library : Library}
    (encoded : ∀ member ∈ members, library.tobuf (readBack member.1) = .ok (toBuf (readBack member.1)))
    (short : (tarStream members).length ≤ maxTarStreamBytes) {final : AuditState} :
    (tarMembers 0 members).foldlM (auditMember library policy (tarStream members)) initialAudit = .ok final ∧
        final.failures = [] ↔
      final = countMembers (tarMembers 0 members) ∧ KeepsAuditLimits root manifest ∧
        ∀ member ∈ members, Allowed policy member := by
  rw [auditMembers_pass_iff rfl]
  constructor
  · rintro ⟨counted, passes⟩
    have each : ∀ front member back, members = front ++ member :: back →
        MemberPasses library policy (tarStream members) (countMembers (tarMembers 0 front))
          (tarMember (addFiles front).length member) := by
      intro front member back split
      refine passes (tarMembers 0 front) _
        (tarMembers ((addFiles front).length + (addFile member).length) back) ?_
      rw [split, tarMembers_append, Nat.zero_add]
      rfl
    have known : ∀ member ∈ members, Allowed policy member ∧ (posixPath member.1.name).parts.length ≤ 128 := by
      intro member inside
      obtain ⟨front, back, split⟩ := List.append_of_mem inside
      obtain ⟨allowed, depth, -⟩ := (handed.passes_iff encoded split).mp (each front member back split)
      exact ⟨allowed, depth⟩
    have written := handed.allWritten fun member inside => (known member inside).1
    rw [length_tarStream, length_addFiles written] at short
    refine ⟨counted, handed.keeps (fun member inside => (known member inside).2) ?_ short,
      fun member inside => (known member inside).1⟩
    rcases List.eq_nil_or_concat' members with none | ⟨front, last, split⟩
    · rw [none]
      exact Nat.zero_le _
    · obtain ⟨-, -, limits, -⟩ := (handed.passes_iff encoded split).mp (each front last [] split)
      rw [← split] at limits
      rw [← handed.counts.2.2.2.1]
      exact retained_of_checkLimits limits
  · rintro ⟨counted, keeps, allowed⟩
    obtain ⟨within, -⟩ := handed.within keeps
    refine ⟨counted, fun done info rest split => ?_⟩
    obtain ⟨front, member, back, isSplit, rfl, rfl⟩ := tarMembers_split split
    have inside : member ∈ members := isSplit ▸ List.mem_append_right _ List.mem_cons_self
    have behind : tarMembers 0 front ++ [tarMember (0 + (addFiles front).length) member] =
        tarMembers 0 (front ++ [member]) := by
      rw [tarMembers_append]
      rfl
    have middle : tarMembers 0 members =
        tarMembers 0 front ++ [tarMember (0 + (addFiles front).length) member] ++ rest := by
      rw [split, List.append_assoc]
      rfl
    obtain ⟨limits, _, depth, _, expanded⟩ := within.audited middle
    rw [behind] at limits expanded
    have name : (tarMember (0 + (addFiles front).length) member).header.name = member.1.name :=
      Builder.readBack_name (handed.placed inside).last
    rw [name] at depth
    rw [Nat.zero_add]
    exact (handed.passes_iff encoded isSplit).mpr ⟨allowed member inside, depth, limits, fun _ => expanded⟩

/-- The checks on the whole of a built archive. -/
theorem Handed.layout_iff (handed : Handed root manifest source members policy)
    (written : ∀ member ∈ members, Written policy.containsLocalHostPath member) {info : GzipStreamInfo}
    (stream : info.stream = tarStream members) (last : info.lastNonzeroOffset = lastNonzeroOffset (tarStream members)) :
    layoutFailures policy info (layoutOf (members.map rawMemberOf)) (countMembers (tarMembers 0 members)) = [] ↔
      manifest.entries ≠ [] := by
  obtain ⟨count, files, directories, -, planned⟩ := handed.counts
  obtain ⟨rawFiles, rawDirectories⟩ := countP_rawMemberOf written
  have placed : ∀ member ∈ members, Placed root member.1 := fun member => handed.placed
  have record := recorded_tarMembers placed
  have kinds := record.kinds.trans (paths_tarMembers placed 0)
  have archiveEnd := archiveEnd_tarMembers written
  have size : ¬ info.stream.length ≠ canonicalTarStreamSize (countMembers (tarMembers 0 members)).archiveEnd := by
    rw [archiveEnd, stream, length_tarStream, not_not]
  have zeros : ¬ ((countMembers (tarMembers 0 members)).archiveEnd : Int) ≤ info.lastNonzeroOffset := by
    rw [archiveEnd, last, tarStream, lastNonzeroOffset_append_zeros, lastNonzeroOffset]
    have shorter := (List.dropWhile_sublist (p := (· = 0)) (l := (addFiles members).reverse)).length_le
    rw [List.length_reverse] at shorter
    omega
  have same : ¬ ((countMembers (tarMembers 0 members)).archiveEnd ≠ (layoutOf (members.map rawMemberOf)).archiveEnd ∨
      (countMembers (tarMembers 0 members)).memberCount ≠ (layoutOf (members.map rawMemberOf)).memberCount ∨
      (countMembers (tarMembers 0 members)).files ≠ (layoutOf (members.map rawMemberOf)).fileCount ∨
      (countMembers (tarMembers 0 members)).directories ≠ (layoutOf (members.map rawMemberOf)).directoryCount) := by
    rw [archiveEnd, count, files, directories, layoutOf, rawFiles, rawDirectories, ← addFiles_eq written,
      List.length_map]
    simp
  have topology : policy.builderTopologyFailures
      ((members.map fun member => (posixPath member.1.name, member.1.kind)).map Prod.fst)
      (members.map fun member => (posixPath member.1.name, member.1.kind)) = [] := by
    have accepted := handed.built.topology handed.single
    have back : ((members.map Prod.fst).map readBack).map (fun header => (posixPath header.name, header.kind)) =
        members.map fun member => (posixPath member.1.name, member.1.kind) := by
      have listed := paths_tarMembers placed 0
      rw [← map_header_tarMembers 0, List.map_map]
      exact listed
    rw [← back, List.map_map, handed.topology]
    exact accepted
  unfold layoutFailures
  rw [kinds, topology, handed.collisionFailures_eq_nil, failIf_eq_nil.mpr size, failIf_eq_nil.mpr zeros,
    failIf_eq_nil.mpr same, record.rootName]
  simp only [List.append_eq_nil_iff, failIf_eq_nil, planned, List.length_eq_zero_iff, and_true]
  constructor
  · rintro ⟨_, filled⟩
    exact filled
  · intro filled
    refine ⟨fun none => ?_, filled⟩
    have empty : tarMembers 0 members = [] := by
      by_contra some
      rw [if_neg some] at none
      cases none
    rw [empty] at planned
    exact filled (List.length_eq_zero_iff.mp planned.symm)

/-- A tree with one file. -/
def oneFileTree : Source :=
  .directory [lit "a"] (List.pairwise_singleton _ _)
    (fun _ => .file
      { size := 2, executable := false, bytesRead := 2
        sha256 := "73cb3858a687a8494ca3323053016282f3dad39d42cf62ca4e79dda2aac7d9ac".toList
        extra := false, unchanged := true }) true

/-- The manifest of this tree. -/
def oneFileManifest : Manifest :=
  { entries :=
      [({ root := [], names := [lit "a"] },
        { sha256 := "73cb3858a687a8494ca3323053016282f3dad39d42cf62ca4e79dda2aac7d9ac".toList, size := 2
          mode := 0o644 })]
    nodup := List.pairwise_singleton _ _ }

/-- What the builder writes of it. -/
def oneFileMembers : List (TarHeader × Bytes) := [(archiveInfo (lit "r/a") 2 false false, lit "x\n")]

/-- The libraries on its bundle. -/
def oneFileLibrary : Library :=
  { sampleLibrary with
    members := fun stream =>
      if stream = sampleStream then .ok (tarMembers 0 oneFileMembers) else .error "invalid header"
    tobuf := fun header => .ok (toBuf header) }

theorem tarStream_oneFile : tarStream oneFileMembers = sampleStream := by
  have members : addFiles oneFileMembers = sampleMembers := by decide +kernel
  rw [tarStream, members, length_sampleMembers]
  rfl

end Builder

end ExitfyCores.Bundle
