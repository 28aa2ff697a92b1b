/-
Module: ExitfyCores.Proofs.BundleCanonical
Layer: Proofs
Purpose: The checks of the bundle audit cover the stream without a gap: headers by re-encoding, payloads by the
  member sizes, padding and trailer by the zero checks, and the gzip layer by re-compression. So the members and
  their payloads determine the file.
Imports: ExitfyCores.Bundle.Audit, Mathlib.Data.List.TakeWhile
Trusted boundary: human-reviewed spec of what is assumed of Python's tarfile (`Library.Documented`)
Main exports: Library.Documented, MemberChecked, Chained, stream_of_chained, auditBundle_checked,
  canonicalEncoding
Open obligations: none
-/
import ExitfyCores.Bundle.Audit
import Mathlib.Data.List.TakeWhile

namespace ExitfyCores.Bundle

/-! ### What is assumed of the library -/

/-- A header without PAX records but the path: nothing overrides its size. -/
def TarHeader.Plain (header : TarHeader) : Prop := header.paxHeaders.keys ⊆ [lit "path"]

/-- The members lie one behind the other. A plain regular file takes its size in whole blocks behind its
header, a plain directory takes none. -/
inductive Segmented : Nat → List TarInfo → Prop where
  | nil (start : Nat) : Segmented start []
  | cons {start stop : Nat} {member : TarInfo} {rest : List TarInfo}
      (begins : member.offset = start) (header : member.offset ≤ member.offsetData)
      (file : member.header.Plain → member.header.type = regType →
        stop = member.offsetData + paddedSize member.header.size.toNat)
      (directory : member.header.Plain → member.header.type = dirType → stop = member.offsetData)
      (behind : Segmented stop rest) :
      Segmented start (member :: rest)

/-- The documented behaviour of tarfile: the stream reader segments the stream by header and size field, and
the header of a file or a directory has empty device fields. -/
structure Library.Documented (library : Library) : Prop where
  segments : ∀ stream members, library.members stream = .ok members → Segmented 0 members
  emptyDevices : ∀ (header : TarHeader) (devmajor devminor : Int), header.IsDir ∨ header.IsFile →
    library.tobuf { header with devmajor := devmajor, devminor := devminor } = library.tobuf header

/-! ### Checks that passed -/

/-- A read that succeeded is a slice of the stream. -/
theorem readExactAt_eq_ok {stream data : Bytes} {size offset : Nat}
    (read : readExactAt stream size offset = .ok data) :
    data = (stream.drop offset).take size ∧ (size = 0 ∨ offset + size ≤ stream.length) := by
  unfold readExactAt at read
  split at read
  · cases read
  · next inside =>
      cases read
      exact ⟨rfl, by omega⟩

/-- The header of an accepted member: all but its name, kind, mode and size is fixed. -/
structure CanonicalHeader (header : TarHeader) : Prop where
  ownership : header.uid = 0 ∧ header.gid = 0
  ownerNames : header.uname = [] ∧ header.gname = []
  mtime : header.mtime = 0
  linkname : header.linkname = []
  kind : header.type = dirType ∧ header.size = 0 ∨ header.type = regType ∧ 0 ≤ header.size
  paxKeys : header.paxHeaders.keys ⊆ expectedPaxKeys header ∧
    expectedPaxKeys header ⊆ header.paxHeaders.keys
  paxPath : ∀ entry ∈ header.paxHeaders.entries, entry.1 = lit "path" → entry.2 = expectedPaxPath header

/-- The bytes of an accepted member: its header is the re-encoded one, and its padding is zero. -/
structure CanonicalBytes (library : Library) (stream : Bytes) (member : TarInfo) : Prop where
  header : ∃ expected, library.tobuf member.header = .ok expected ∧
    member.offset + expected.length = member.offsetData ∧
    (stream.drop member.offset).take expected.length = expected
  padding : AllZero ((stream.drop (member.offsetData + member.header.size.toNat)).take
    (paddedSize member.header.size.toNat - member.header.size.toNat))

/-- The content checks leave directories and files of a proper size. -/
theorem kind_of_contentFailures {policy : Policy} {stream : Bytes} {member : TarInfo}
    {path : PosixPath} {expanded : Int}
    (content : contentFailures policy stream member path expanded = []) :
    member.header.IsDir ∨ member.header.IsFile ∧ 0 ≤ member.header.size := by
  unfold contentFailures at content
  dsimp only at content
  by_cases directory : member.header.IsDir
  · exact Or.inl directory
  by_cases file : member.header.IsFile
  · refine Or.inr ⟨file, ?_⟩
    by_contra negative
    have oversized : member.header.size < 0 ∨ (maxMemberBytes : Int) < member.header.size :=
      Or.inl (Int.lt_of_not_ge negative)
    rw [if_neg directory, if_neg (not_not.mpr file), if_pos oversized] at content
    split at content
    · cases content
    split at content
    · cases content
    split at content <;> cases content
  · rw [if_neg directory, if_pos file] at content
    split at content
    · cases content
    split at content
    · cases content
    split at content <;> cases content

/-- The metadata and content checks of a member that passed. -/
theorem canonicalHeader_of_failures {policy : Policy} {stream : Bytes} {member : TarInfo}
    {path : PosixPath} {expanded : Int}
    (metadata : reproducibleMetadataFailures member.header = [])
    (content : contentFailures policy stream member path expanded = []) :
    CanonicalHeader member.header := by
  simp only [reproducibleMetadataFailures, List.append_eq_nil_iff, failIf_eq_nil] at metadata
  rcases metadata with ⟨⟨⟨⟨⟨⟨⟨ownership, ownerNames⟩, mtime⟩, linkname⟩, _⟩, kind⟩, paxKeys⟩, paxPath⟩
  refine ⟨by omega, ?_, not_not.mp mtime, not_not.mp linkname, ?_, not_not.mp paxKeys, ?_⟩
  · rw [not_or, not_not, not_not] at ownerNames
    exact ownerNames
  · rcases kind_of_contentFailures content with directory | file
    · rw [if_pos directory, failIf_eq_nil] at kind
      exact Or.inl ⟨directory, by omega⟩
    · by_cases directory : member.header.IsDir
      · rw [if_pos directory, failIf_eq_nil] at kind
        exact Or.inl ⟨directory, by omega⟩
      · rw [if_neg directory, if_pos file.1, failIf_eq_nil, not_or, not_not] at kind
        exact Or.inr ⟨kind.1, file.2⟩
  · intro entry member path
    by_contra different
    exact paxPath ⟨entry, member, path, different⟩

theorem le_paddedSize (size : Nat) : size ≤ paddedSize size := by
  unfold paddedSize blockSize
  omega

/-- The padding that the audit reads is what rounds a size up. -/
theorem padding_eq {size : Int} (nonnegative : 0 ≤ size) :
    ((-size) % blockSize).toNat = paddedSize size.toNat - size.toNat := by
  unfold paddedSize blockSize
  omega

/-- The byte checks of a member that passed. -/
theorem canonicalBytes_of_failures {library : Library} {stream : Bytes} {member : TarInfo}
    (nonnegative : 0 ≤ member.header.size)
    (checked : canonicalMemberFailures library stream member = .ok []) :
    CanonicalBytes library stream member := by
  unfold canonicalMemberFailures at checked
  dsimp only at checked
  cases encoded : library.tobuf member.header with
  | error reason =>
      rw [encoded] at checked
      cases checked
  | ok expected =>
      rw [encoded] at checked
      dsimp only at checked
      split at checked
      · cases checked
      · next span =>
          rcases bind_eq_ok checked with ⟨actual, read, checked⟩
          have actualBytes := (readExactAt_eq_ok read).1
          have place : ((member.offsetData : Int) + member.header.size).toNat =
              member.offsetData + member.header.size.toNat := by omega
          rw [padding_eq nonnegative, place] at checked
          have same : actual = expected ∧
              AllZero ((stream.drop (member.offsetData + member.header.size.toNat)).take
                (paddedSize member.header.size.toNat - member.header.size.toNat)) := by
            split at checked
            · next unpadded =>
                have different := Except.ok.inj checked
                rw [failIf_eq_nil, not_not] at different
                rw [unpadded]
                exact ⟨different, fun byte member => absurd member List.not_mem_nil⟩
            · rcases bind_eq_ok checked with ⟨padding, readPadding, checked⟩
              have failures := Except.ok.inj checked
              rw [List.append_eq_nil_iff, failIf_eq_nil, failIf_eq_nil, not_not, not_not] at failures
              rw [← (readExactAt_eq_ok readPadding).1]
              exact failures
          refine ⟨⟨expected, encoded, by omega, ?_⟩, same.2⟩
          rw [← actualBytes, same.1]

/-! ### The members cover the stream -/

/-- A member that the audit accepted. -/
structure MemberChecked (library : Library) (stream : Bytes) (member : TarInfo) : Prop where
  header : CanonicalHeader member.header
  bytes : CanonicalBytes library stream member

theorem CanonicalHeader.nonnegative {header : TarHeader} (canonical : CanonicalHeader header) :
    0 ≤ header.size := by
  rcases canonical.kind with ⟨_, empty⟩ | ⟨_, size⟩
  · omega
  · exact size

theorem CanonicalHeader.plain {header : TarHeader} (canonical : CanonicalHeader header) :
    header.Plain := by
  intro key member
  have expected := canonical.paxKeys.1 member
  unfold expectedPaxKeys at expected
  split at expected
  · exact absurd expected List.not_mem_nil
  · exact expected

/-- The members lie one behind the other from `start` to `stop`, each with its size in whole blocks. -/
inductive Chained : Nat → List TarInfo → Nat → Prop where
  | nil (start : Nat) : Chained start [] start
  | cons {start stop : Nat} {member : TarInfo} {rest : List TarInfo}
      (begins : member.offset = start) (header : member.offset ≤ member.offsetData)
      (behind : Chained (member.offsetData + paddedSize member.header.size.toNat) rest stop) :
      Chained start (member :: rest) stop

theorem Chained.le {start stop : Nat} {members : List TarInfo} (chained : Chained start members stop) :
    start ≤ stop := by
  induction chained with
  | nil start => exact Nat.le_refl start
  | cons begins header behind ih => omega

/-- One turn of the loop: it counts the member, and it keeps the failures and adds those of the member. -/
theorem auditMember_eq_ok {library : Library} {policy : Policy} {stream : Bytes} {state next : AuditState}
    {member : TarInfo} (step : auditMember library policy stream state member = .ok next) :
    next.archiveEnd = max state.archiveEnd (member.offsetData + paddedSize member.header.size.toNat) ∧
      (next.failures = [] → state.failures = [] ∧ MemberChecked library stream member) := by
  unfold auditMember at step
  dsimp only at step
  rcases bind_eq_ok step with ⟨_, _, step⟩
  rcases bind_eq_ok step with ⟨canonical, bytes, step⟩
  rcases bind_eq_ok step with ⟨_, _, step⟩
  cases step
  refine ⟨rfl, ?_⟩
  intro passed
  simp only [List.append_eq_nil_iff] at passed
  rcases passed with ⟨⟨⟨⟨earlier, _⟩, metadata⟩, clean⟩, content⟩
  have header := canonicalHeader_of_failures metadata content
  rw [clean] at bytes
  exact ⟨earlier, header, canonicalBytes_of_failures header.nonnegative bytes⟩

/-- The loop over the members: without a failure at its end, it accepted every member. -/
theorem auditMembers_checked {library : Library} {policy : Policy} {stream : Bytes}
    {members : List TarInfo} {state final : AuditState}
    (run : members.foldlM (auditMember library policy stream) state = .ok final)
    (passed : final.failures = []) :
    state.failures = [] ∧ ∀ member ∈ members, MemberChecked library stream member := by
  induction members generalizing state with
  | nil =>
      cases run
      exact ⟨passed, fun member inNil => absurd inNil List.not_mem_nil⟩
  | cons member rest ih =>
      rw [List.foldlM_cons] at run
      rcases bind_eq_ok run with ⟨next, step, run⟩
      have behind := ih run
      have here := (auditMember_eq_ok step).2 behind.1
      exact ⟨here.1, List.forall_mem_cons.mpr ⟨here.2, behind.2⟩⟩

/-- Accepted members that tarfile segmented are chained, and the audit's archive end is their end. -/
theorem auditMembers_chained {library : Library} {policy : Policy} {stream : Bytes}
    {members : List TarInfo} {start : Nat} {state final : AuditState}
    (segmented : Segmented start members)
    (checked : ∀ member ∈ members, MemberChecked library stream member)
    (run : members.foldlM (auditMember library policy stream) state = .ok final)
    (atStart : state.archiveEnd = start) : Chained start members final.archiveEnd := by
  induction members generalizing start state with
  | nil =>
      cases run
      exact atStart ▸ .nil _
  | cons member rest ih =>
      rw [List.foldlM_cons] at run
      rcases bind_eq_ok run with ⟨next, step, run⟩
      have header := (checked member List.mem_cons_self).header
      cases segmented with
      | @cons _ stop _ _ begins forward file directory behind =>
          have stopEq : stop = member.offsetData + paddedSize member.header.size.toNat := by
            rcases header.kind with ⟨isDirectory, empty⟩ | ⟨isFile, _⟩
            · rw [directory header.plain isDirectory, empty]
              rfl
            · exact file header.plain isFile
          have atStop : next.archiveEnd = stop := by
            rw [(auditMember_eq_ok step).1, atStart, stopEq]
            omega
          have chained := ih behind (fun other later => checked other (List.mem_cons_of_mem member later))
            run atStop
          exact .cons begins forward (stopEq ▸ chained)

/-- The bytes of a member: its header, its payload and the padding. -/
def memberBytes (entry : Bytes × Bytes) : Bytes :=
  entry.1 ++ entry.2 ++ List.replicate (paddedSize entry.2.length - entry.2.length) 0

/-- A header as it is encoded. -/
def encodedHeader (library : Library) (header : TarHeader) : Bytes :=
  match library.tobuf header with
  | .ok encoded => encoded
  | .error _ => []

/-- A slice of zeros of full length. -/
theorem take_eq_replicate {data : Bytes} {size : Nat} (zero : AllZero (data.take size))
    (bound : size ≤ data.length) : data.take size = List.replicate size 0 := by
  rw [List.eq_replicate_iff]
  exact ⟨List.length_take_of_le bound, zero⟩

/-- One accepted member in front of the rest of the stream. -/
theorem stream_of_member {library : Library} {stream : Bytes} {member : TarInfo}
    (checked : MemberChecked library stream member)
    (bound : member.offsetData + paddedSize member.header.size.toNat ≤ stream.length) :
    (payloadOf stream member).length = member.header.size.toNat ∧
    stream.drop member.offset =
      memberBytes (encodedHeader library member.header, payloadOf stream member) ++
        stream.drop (member.offsetData + paddedSize member.header.size.toNat) := by
  rcases checked.bytes.header with ⟨expected, encoded, span, actual⟩
  have padded := le_paddedSize member.header.size.toNat
  have length : (payloadOf stream member).length = member.header.size.toNat := by
    rw [payloadOf, List.length_take, List.length_drop]
    omega
  refine ⟨length, ?_⟩
  have padding := take_eq_replicate checked.bytes.padding (by rw [List.length_drop]; omega)
  have header : encodedHeader library member.header = expected := by
    rw [encodedHeader, encoded]
  have behind : stream.drop (member.offsetData + member.header.size.toNat) =
      List.replicate (paddedSize member.header.size.toNat - member.header.size.toNat) 0 ++
        stream.drop (member.offsetData + paddedSize member.header.size.toNat) := by
    have place : member.offsetData + paddedSize member.header.size.toNat =
        member.offsetData + member.header.size.toNat +
          (paddedSize member.header.size.toNat - member.header.size.toNat) := by omega
    have split := List.take_append_drop
      (paddedSize member.header.size.toNat - member.header.size.toNat)
      (stream.drop (member.offsetData + member.header.size.toNat))
    rw [padding, List.drop_drop, ← place] at split
    exact split.symm
  rw [memberBytes, length, header]
  calc stream.drop member.offset
      = expected ++ stream.drop member.offsetData := by
        rw [← List.take_append_drop expected.length (stream.drop member.offset), actual, List.drop_drop,
          span]
    _ = expected ++ (payloadOf stream member ++
          stream.drop (member.offsetData + member.header.size.toNat)) := by
        rw [payloadOf, ← List.drop_drop, List.take_append_drop]
    _ = expected ++ payloadOf stream member ++
          List.replicate (paddedSize member.header.size.toNat - member.header.size.toNat) 0 ++
          stream.drop (member.offsetData + paddedSize member.header.size.toNat) := by
        rw [behind, List.append_assoc, List.append_assoc]

/-- Accepted members in front of the rest of the stream. -/
theorem stream_of_chained {library : Library} {stream : Bytes} {members : List TarInfo}
    {start stop : Nat} (chained : Chained start members stop) (bound : stop ≤ stream.length)
    (checked : ∀ member ∈ members, MemberChecked library stream member) :
    stream.drop start =
      (members.map fun member =>
        (encodedHeader library member.header, payloadOf stream member)).flatMap memberBytes ++
        stream.drop stop := by
  induction chained with
  | nil start => rfl
  | cons begins header behind ih =>
      have inside := behind.le
      have here := stream_of_member (checked _ List.mem_cons_self) (by omega)
      have rest := ih bound fun other later => checked other (List.mem_cons_of_mem _ later)
      rw [← begins, here.2, rest]
      simp

/-! ### The whole bundle -/

/-- Behind the last nonzero byte there are zeros only. -/
theorem drop_eq_replicate {stream : Bytes} {stop : Nat} (last : lastNonzeroOffset stream < stop) :
    stream.drop stop = List.replicate (stream.length - stop) 0 := by
  have split := List.takeWhile_append_dropWhile (p := (· = 0)) (l := stream.reverse)
  have whole : stream = (stream.reverse.dropWhile (· = 0)).reverse ++
      (stream.reverse.takeWhile (· = 0)).reverse := by
    rw [← List.reverse_append, split, List.reverse_reverse]
  have inside : (stream.reverse.dropWhile (· = 0)).reverse.length ≤ stop := by
    unfold lastNonzeroOffset at last
    rw [List.length_reverse]
    omega
  rw [List.eq_replicate_iff]
  refine ⟨List.length_drop, ?_⟩
  intro byte member
  rw [whole, List.drop_append, List.drop_eq_nil_of_le inside, List.nil_append] at member
  have zero := List.mem_takeWhile_imp (List.mem_reverse.mp (List.mem_of_mem_drop member))
  exact of_decide_eq_true zero

/-- What an accepted bundle looks like: it is the compression of its members' bytes and of zeros up to the
canonical length. -/
theorem auditBundle_checked {library : Library} {policy : Policy} (documented : library.Documented)
    {bundle : Bytes} {audited : Audited} (accepted : auditBundle library policy bundle = .ok audited) :
    bundle = library.compress audited.stream ∧
      (∀ member ∈ audited.members, MemberChecked library audited.stream member) ∧
      ∃ stop, Chained 0 audited.members stop ∧
        audited.stream.length = canonicalTarStreamSize stop ∧
        audited.stream.drop stop = List.replicate (audited.stream.length - stop) 0 := by
  unfold auditBundle at accepted
  rcases bind_eq_ok accepted with ⟨_, _, accepted⟩
  rcases bind_eq_ok accepted with ⟨info, gzip, accepted⟩
  rcases bind_eq_ok accepted with ⟨_, canonical, accepted⟩
  rcases bind_eq_ok accepted with ⟨raw, _, accepted⟩
  rcases bind_eq_ok accepted with ⟨members, parsed, accepted⟩
  rcases bind_eq_ok accepted with ⟨state, run, accepted⟩
  rcases bind_eq_ok accepted with ⟨_, _, accepted⟩
  rcases bind_eq_ok accepted with ⟨_, noFailure, accepted⟩
  cases accepted
  rw [raiseIf_eq_ok, not_not, List.append_eq_nil_iff] at noFailure
  rcases noFailure with ⟨membersPassed, layout⟩
  have recompressed : bundle = library.compress info.stream := by
    unfold verifyCanonicalGzipBytes at canonical
    rcases bind_eq_ok canonical with ⟨_, _, same⟩
    rw [raiseIf_eq_ok, not_not] at same
    exact same
  have lastOffset : info.lastNonzeroOffset = lastNonzeroOffset info.stream := by
    unfold inspectGzipStream at gzip
    rcases bind_eq_ok gzip with ⟨_, _, gzip⟩
    rcases bind_eq_ok gzip with ⟨_, _, gzip⟩
    rcases bind_eq_ok gzip with ⟨_, _, gzip⟩
    rcases bind_eq_ok gzip with ⟨_, _, gzip⟩
    cases gzip
    rfl
  simp only [layoutFailures, List.append_eq_nil_iff, failIf_eq_nil, not_not] at layout
  rcases layout with ⟨⟨⟨⟨⟨⟨_, _⟩, _⟩, length⟩, trailer⟩, _⟩, _⟩
  have checked := (auditMembers_checked run membersPassed).2
  have chained := auditMembers_chained (documented.segments _ _ parsed) checked run rfl
  rw [lastOffset, Int.not_le] at trailer
  exact ⟨recompressed, checked, state.archiveEnd, chained, length, drop_eq_replicate trailer⟩

/-! ### Members determine the file -/

/-- Two dictionaries with the same entries are equal. -/
theorem Dict.ext_entries {Key Value : Type} {first second : Dict Key Value}
    (same : first.entries = second.entries) : first = second := by
  cases first
  cases second
  cases same
  rfl

/-- The PAX records of an accepted member: the expected keys, with the expected path. -/
theorem CanonicalHeader.paxEntries {header : TarHeader} (canonical : CanonicalHeader header) :
    header.paxHeaders.entries =
      (expectedPaxKeys header).map fun key => (key, expectedPaxPath header) := by
  have nodup := header.paxHeaders.nodup
  have forward := canonical.paxKeys.1
  have backward := canonical.paxKeys.2
  have path := canonical.paxPath
  unfold Dict.keys at forward backward
  unfold expectedPaxKeys at forward backward ⊢
  split at forward
  · next short =>
      rw [if_pos short] at backward ⊢
      exact List.map_eq_nil_iff.mp (List.eq_nil_of_subset_nil forward)
  · next long =>
      rw [if_neg long] at backward ⊢
      generalize header.paxHeaders.entries = entries at *
      have single : entries.map Prod.fst = [lit "path"] := by
        apply List.perm_singleton.mp
        apply (List.perm_ext_iff_of_nodup nodup (List.pairwise_singleton _ _)).mpr
        exact fun key => ⟨fun inside => forward inside, fun inside => backward inside⟩
      rcases List.map_eq_singleton_iff.mp single with ⟨entry, rfl, key⟩
      have value := path entry List.mem_cons_self key
      rw [List.map_singleton, ← key, ← value]

theorem TarHeader.isFile_of_regType {header : TarHeader} (file : header.type = regType) :
    header.IsFile := by
  unfold TarHeader.IsFile
  rw [file]
  exact List.mem_cons_self

/-- The type of an accepted member is the one its kind stands for. -/
theorem CanonicalHeader.type_eq {header : TarHeader} (canonical : CanonicalHeader header) :
    header.type = if header.kind = .directory then dirType else regType := by
  rcases canonical.kind with ⟨directory, _⟩ | ⟨file, _⟩
  · have kind : header.kind = .directory := if_pos directory
    rw [if_pos kind, directory]
  · have isFile := TarHeader.isFile_of_regType file
    have notDirectory : ¬ header.IsDir := by
      unfold TarHeader.IsDir
      rw [file]
      decide
    have kind : header.kind = .file := by
      rw [TarHeader.kind, if_neg notDirectory, if_pos isFile]
    rw [kind, file]
    rfl

/-- Name, kind, mode and size of an accepted member determine its header up to the device fields. -/
theorem CanonicalHeader.determined {first second : TarHeader} (canonical : CanonicalHeader first)
    (other : CanonicalHeader second) (name : first.name = second.name) (kind : first.kind = second.kind)
    (mode : first.mode = second.mode) (size : first.size = second.size) :
    first = { second with devmajor := first.devmajor, devminor := first.devminor } := by
  have type : first.type = second.type := by
    rw [canonical.type_eq, other.type_eq, kind]
  have paxHeaders : first.paxHeaders = second.paxHeaders := by
    apply Dict.ext_entries
    have keys : expectedPaxKeys first = expectedPaxKeys second := by
      rw [expectedPaxKeys, expectedPaxKeys, name]
    have directory : first.IsDir = second.IsDir := by
      rw [TarHeader.IsDir, TarHeader.IsDir, type]
    have path : expectedPaxPath first = expectedPaxPath second := by
      simp only [expectedPaxPath, directory, name]
    rw [canonical.paxEntries, other.paxEntries, keys, path]
  have uid := canonical.ownership.1.trans other.ownership.1.symm
  have gid := canonical.ownership.2.trans other.ownership.2.symm
  have uname := canonical.ownerNames.1.trans other.ownerNames.1.symm
  have gname := canonical.ownerNames.2.trans other.ownerNames.2.symm
  have mtime := canonical.mtime.trans other.mtime.symm
  have linkname := canonical.linkname.trans other.linkname.symm
  cases first
  cases second
  simp_all

/-- What the audit reports of a member: its name, kind, mode and size. -/
def TarInfo.listing (member : TarInfo) : Bytes × Kind × Int × Int :=
  (member.header.name, member.header.kind, member.header.mode, member.header.size)

/-- Equal listings of two accepted members give equal encoded headers. -/
theorem encodedHeader_eq {library : Library} (documented : library.Documented) {first second : TarInfo}
    (canonical : CanonicalHeader first.header) (other : CanonicalHeader second.header)
    (same : first.listing = second.listing) :
    encodedHeader library first.header = encodedHeader library second.header := by
  rcases first with ⟨first, _, _⟩
  rcases second with ⟨second, _, _⟩
  rcases Prod.mk.inj same with ⟨name, same⟩
  rcases Prod.mk.inj same with ⟨kind, same⟩
  rcases Prod.mk.inj same with ⟨mode, size⟩
  have regular : second.IsDir ∨ second.IsFile := by
    rcases other.kind with ⟨directory, _⟩ | ⟨file, _⟩
    · exact Or.inl directory
    · exact Or.inr (TarHeader.isFile_of_regType file)
  have header := canonical.determined other name kind mode size
  have encoded := documented.emptyDevices second first.devmajor first.devminor regular
  rw [← header] at encoded
  unfold encodedHeader
  rw [encoded]

/-- Equal listings and payloads give equal member bytes. -/
theorem memberBytes_eq {library : Library} (documented : library.Documented)
    {stream other : Bytes} {members others : List TarInfo}
    (checked : ∀ member ∈ members, MemberChecked library stream member)
    (otherChecked : ∀ member ∈ others, MemberChecked library other member)
    (listing : members.map TarInfo.listing = others.map TarInfo.listing)
    (payloads : members.map (payloadOf stream) = others.map (payloadOf other)) :
    (members.map fun member => (encodedHeader library member.header, payloadOf stream member)) =
      others.map fun member => (encodedHeader library member.header, payloadOf other member) := by
  induction members generalizing others with
  | nil =>
      have none := List.map_eq_nil_iff.mp listing.symm
      rw [none]
      rfl
  | cons member rest ih =>
      cases others with
      | nil => cases listing
      | cons second behind =>
          rw [List.map_cons, List.map_cons, List.cons.injEq] at listing payloads
          have header := encodedHeader_eq documented (checked member List.mem_cons_self).header
            (otherChecked second List.mem_cons_self).header listing.1
          have tail := ih (fun next later => checked next (List.mem_cons_of_mem _ later))
            (fun next later => otherChecked next (List.mem_cons_of_mem _ later)) listing.2 payloads.2
          rw [List.map_cons, List.map_cons, tail, header, payloads.1]

/-- The members' bytes and the trailer are the whole stream. -/
theorem stream_of_members {library : Library} {stream : Bytes} {members : List TarInfo} {stop : Nat}
    (checked : ∀ member ∈ members, MemberChecked library stream member)
    (chained : Chained 0 members stop) (length : stream.length = canonicalTarStreamSize stop)
    (trailer : stream.drop stop = List.replicate (stream.length - stop) 0) :
    stop = ((members.map fun member =>
      (encodedHeader library member.header, payloadOf stream member)).flatMap memberBytes).length ∧
    stream = (members.map fun member =>
      (encodedHeader library member.header, payloadOf stream member)).flatMap memberBytes ++
      List.replicate (canonicalTarStreamSize stop - stop) 0 := by
  have bound : stop ≤ stream.length := by
    rw [length]
    unfold canonicalTarStreamSize recordSize blockSize
    omega
  have whole := stream_of_chained chained bound checked
  rw [List.drop_zero] at whole
  have lengths := congrArg List.length whole
  rw [List.length_append, List.length_drop] at lengths
  refine ⟨by omega, ?_⟩
  rw [← length, ← trailer]
  exact whole

/-! ### A bundle with one file -/

/-- The header of one file `r/a` of two bytes. -/
def sampleHeader : TarHeader :=
  { name := lit "r/a", mode := 0o644, uid := 0, gid := 0, size := 2, mtime := 0, type := regType
    linkname := [], uname := [], gname := [], devmajor := 0, devminor := 0
    paxHeaders := { entries := [], nodup := List.nodup_nil } }

/-- The header as tarfile encodes it. -/
def sampleBlock : Bytes :=
  lit "r/a" ++ List.replicate 97 0 ++ lit "0000644" ++ [0] ++ lit "0000000" ++ [0] ++ lit "0000000" ++ [0] ++
    lit "00000000002" ++ [0] ++ lit "00000000000" ++ [0] ++ lit "006341" ++ [0] ++ lit " 0" ++
    List.replicate 100 0 ++ lit "ustar" ++ [0] ++ lit "00" ++ List.replicate 247 0

/-- The tar stream with this file, in front of the trailer. -/
def sampleMembers : Bytes := sampleBlock ++ lit "x\n" ++ List.replicate 510 0

/-- The tar stream with this file. -/
def sampleStream : Bytes := sampleMembers ++ List.replicate 9216 0

/-- The bundle with this file. -/
def sampleBundle : Bytes :=
  [31, 139, 8, 0, 0, 0, 0, 0, 2, 255, 237, 205, 187, 9, 128, 64, 20, 4, 192, 23, 91, 133, 29, 248, 59, 174,
    31, 91, 240, 3, 150, 239, 105, 36, 230, 10, 226, 76, 178, 203, 38, 59, 53, 99, 60, 173, 45, 114, 74, 103,
    22, 247, 44, 250, 75, 63, 246, 60, 164, 46, 234, 54, 94, 176, 206, 203, 56, 149, 203, 248, 167, 173, 10,
    0, 0, 0, 0, 0, 0, 0, 0, 0, 0, 62, 104, 7, 181, 228, 212, 160, 0, 40, 0, 0]

/-- The library on this bundle. -/
def sampleLibrary : Library where
  decompress := fun source => if source = sampleBundle then .ok sampleStream else .error "invalid gzip stream"
  compress := fun stream => if stream = sampleStream then sampleBundle else []
  members := fun stream =>
    if stream = sampleStream then .ok [{ header := sampleHeader, offset := 0, offsetData := blockSize }]
    else .error "invalid header"
  tobuf := fun header =>
    if header.name = sampleHeader.name ∧ header.mode = sampleHeader.mode ∧ header.size = sampleHeader.size ∧
        header.type = sampleHeader.type then
      .ok sampleBlock
    else .error "unknown header"

theorem sampleLibrary_documented : sampleLibrary.Documented where
  segments := by
    intro stream members parsed
    unfold sampleLibrary at parsed
    dsimp only at parsed
    split at parsed
    · cases parsed
      exact .cons rfl (Nat.zero_le _) (fun _ _ => rfl) (fun _ directory => by cases directory) (.nil _)
    · cases parsed
  emptyDevices := fun header devmajor devminor regular => rfl

/-- The checks on names and contents, as far as this bundle needs them. -/
def samplePolicy : Policy where
  containsLocalHostPath := fun _ => false
  scanMemberPayload := fun payload size _ =>
    { bytesRead := payload.length, exactSize := payload.length = size, forbiddenMagic := false, sha256 := none
      hasNul := 0 ∈ payload, validUTF8 := DecodesStrictly payload, forbiddenReference := false
      localHostPath := false, gitLfsPointer := false }
  builderTopologyFailures := fun _ _ => []

/-- The file in the stream. -/
def sampleMember : TarInfo := { header := sampleHeader, offset := 0, offsetData := blockSize }

/-- The local variables of the audit in front of the loop. -/
def sampleStart : AuditState :=
  { failures := [], files := 0, directories := 0, expanded := 0, memberCount := 0
    retainedNameBytes := 0, archiveEnd := 0, rootName := none, multipleRoots := false, memberKinds := [] }

/-- What the checks find in the sample. -/
structure SampleRead : Prop where
  length : sampleMembers.length = 1024
  last : lastNonzeroOffset sampleMembers = 513
  header : (sampleMembers.drop 0).take 512 = sampleBlock
  headerLength : sampleBlock.length = 512
  nonzero : ¬ AllZero sampleBlock
  checksum : validateRawTarChecksum sampleBlock = .ok ()
  encoded : sampleLibrary.tobuf sampleHeader = .ok sampleBlock
  padding : AllZero ((sampleMembers.drop 514).take 510)
  content : contentFailures samplePolicy sampleStream sampleMember (posixPath (lit "r/a"))
    (countMember sampleStart sampleMember (posixPath (lit "r/a"))).expanded = []

theorem sampleRead : SampleRead := by
  constructor <;> decide +kernel

theorem length_sampleMembers : sampleMembers.length = 1024 :=
  SampleRead.length sampleRead

theorem length_sampleStream : sampleStream.length = 10240 := by
  rw [sampleStream, List.length_append, length_sampleMembers, List.length_replicate]

theorem readExactAt_sampleMembers {size offset : Nat} (inside : offset + size ≤ 1024) :
    readExactAt sampleStream size offset = .ok ((sampleMembers.drop offset).take size) := by
  have short : ¬ (size ≠ 0 ∧ sampleStream.length < offset + size) := by
    rw [length_sampleStream]
    omega
  rw [readExactAt, if_neg short, sampleStream, List.drop_append_of_le_length, List.take_append_of_le_length]
  · rw [List.length_drop, length_sampleMembers]
    omega
  · rw [length_sampleMembers]
    omega

theorem readExactAt_sampleTrailer {size : Nat} (inside : size ≤ 9216) :
    readExactAt sampleStream size 1024 = .ok (List.replicate size 0) := by
  have short : ¬ (size ≠ 0 ∧ sampleStream.length < 1024 + size) := by
    rw [length_sampleStream]
    omega
  rw [readExactAt, if_neg short, sampleStream, ← length_sampleMembers, List.drop_left, List.take_replicate,
    Nat.min_eq_left inside]

theorem allZero_replicate (size : Nat) : AllZero (List.replicate size 0) :=
  fun _ member => List.eq_of_mem_replicate member

theorem lastNonzeroOffset_append_zeros (data : Bytes) (size : Nat) :
    lastNonzeroOffset (data ++ List.replicate size 0) = lastNonzeroOffset data := by
  unfold lastNonzeroOffset
  rw [List.reverse_append, List.reverse_replicate, List.dropWhile_append_of_pos]
  intro byte member
  exact decide_eq_true (List.eq_of_mem_replicate member)

theorem inspectGzipStream_sampleBundle :
    inspectGzipStream sampleLibrary sampleBundle =
      .ok { stream := sampleStream, lastNonzeroOffset := 513 } := by
  have header : raiseIf (sampleBundle.take canonicalGzipHeader.length ≠ canonicalGzipHeader)
      "noncanonical gzip header" = .ok () := by
    decide
  have size : raiseIf (maxBundleBytes < sampleBundle.length)
      "compressed source bundle exceeds limit" = .ok () := by
    decide
  have expanded : raiseIf (maxTarStreamBytes < sampleStream.length)
      "decompressed tar stream exceeds limit" = .ok () := by
    rw [length_sampleStream]
    decide
  have decompressed : sampleLibrary.decompress sampleBundle = .ok sampleStream := by
    simp only [sampleLibrary, if_true]
  have offset : lastNonzeroOffset sampleStream = 513 := by
    rw [sampleStream, lastNonzeroOffset_append_zeros, SampleRead.last sampleRead]
  rw [inspectGzipStream, header, ok_bind, size, ok_bind, decompressed, ok_bind, expanded, ok_bind, offset]
  rfl

/-- The raw scan finds the file and the trailer. -/
theorem scanRawTarStream_sampleStream :
    scanRawTarStream samplePolicy.containsLocalHostPath sampleStream sampleStream.length =
      .ok { archiveEnd := 1024, memberCount := 1, fileCount := 1, directoryCount := 0 } := by
  have read := sampleRead
  have block : (sampleMembers.drop 0).take blockSize = sampleBlock := read.header
  have size : parseCanonicalTarSize sampleBlock = .ok 2 := by decide
  have type : sampleBlock.getD 156 0 = regType := by decide
  have scanned : scanRawMember samplePolicy.containsLocalHostPath
      { offset := 0, memberCount := 0, fileCount := 0, directoryCount := 0, payloadTotal := 0
        pendingPax := false } sampleBlock regType 2 =
      .ok { offset := 1024, memberCount := 1, fileCount := 1, directoryCount := 0, payloadTotal := 2
            pendingPax := false } := by
    decide
  have finished : finishRawScan sampleStream 10240
      { offset := 1024, memberCount := 1, fileCount := 1, directoryCount := 0, payloadTotal := 2
        pendingPax := false } =
      .ok { archiveEnd := 1024, memberCount := 1, fileCount := 1, directoryCount := 0 } := by
    have trailer : validateZeroRange sampleStream 1024 9216 "nonzero data follows the tar members" =
        .ok () := by
      rw [validateZeroRange, readExactAt_sampleTrailer (Nat.le_refl _), ok_bind]
      exact raiseIf_eq_ok.mpr (not_not.mpr (allZero_replicate _))
    rw [finishRawScan, raiseIf_eq_ok.mpr (by decide), ok_bind, raiseIf_eq_ok.mpr (by decide), ok_bind,
      raiseIf_eq_ok.mpr (by decide), ok_bind]
    dsimp only
    rw [trailer]
    rfl
  rw [scanRawTarStream, length_sampleStream]
  rw [show 10240 / blockSize + 1 = 19 + 1 + 1 from rfl, scanRawTarFrom, readExactAt_sampleMembers (by decide),
    block, ok_bind, if_neg read.nonzero, read.checksum, ok_bind, size, ok_bind, type, raiseIf_eq_ok.mpr (by decide),
    ok_bind, if_neg (by decide), scanned, ok_bind]
  beta_reduce
  rw [scanRawTarFrom, readExactAt_sampleTrailer (by decide), ok_bind, if_pos (allZero_replicate _)]
  exact finished

theorem canonicalMemberFailures_sampleMember :
    canonicalMemberFailures sampleLibrary sampleStream sampleMember = .ok [] := by
  have found := sampleRead
  have span : ¬ ((blockSize : Nat) : Int) - (0 : Nat) ≠ (512 : Nat) := by decide
  have read : readExactAt sampleStream ((-sampleHeader.size) % blockSize).toNat
      (((blockSize : Nat) : Int) + sampleHeader.size).toNat = .ok ((sampleMembers.drop 514).take 510) :=
    readExactAt_sampleMembers (by decide)
  rw [sampleMember, canonicalMemberFailures]
  dsimp only
  rw [found.encoded]
  dsimp only
  rw [found.headerLength, if_neg span, readExactAt_sampleMembers (by decide), ok_bind, found.header,
    if_neg (by decide), read, ok_bind, failIf_eq_nil.mpr (not_not.mpr rfl),
    failIf_eq_nil.mpr (not_not.mpr found.padding)]
  rfl

/-- The turn of the loop at the file. -/
theorem auditMember_sampleMember :
    auditMember sampleLibrary samplePolicy sampleStream sampleStart sampleMember =
      .ok { countMember sampleStart sampleMember (posixPath (lit "r/a")) with failures := [] } := by
  have limits : checkLimits (countMember sampleStart sampleMember (posixPath (lit "r/a"))) = .ok () := by
    decide
  have names : nameFailures samplePolicy sampleStart sampleMember.header (posixPath (lit "r/a")) = [] := by
    decide
  have metadata : reproducibleMetadataFailures sampleMember.header = [] := by
    decide
  have path : posixPath sampleMember.header.name = posixPath (lit "r/a") := rfl
  rw [auditMember, path]
  dsimp only
  have content := SampleRead.content sampleRead
  rw [limits, ok_bind, canonicalMemberFailures_sampleMember, ok_bind, names, metadata, content]
  rfl

/-- The audit accepts the sample. -/
theorem auditBundle_sampleBundle :
    auditBundle sampleLibrary samplePolicy sampleBundle =
      .ok { stream := sampleStream, members := [sampleMember], files := 1 } := by
  have size : raiseIf (sampleBundle = [] ∨ maxBundleBytes < sampleBundle.length)
      "invalid bundle size or type" = .ok () := by
    decide
  have recompressed : sampleLibrary.compress sampleStream = sampleBundle := by
    simp only [sampleLibrary, sampleStream, if_true]
  have canonicalSize : raiseIf (maxBundleBytes < sampleBundle.length)
      "canonical compressed source bundle exceeds limit" = .ok () := by
    decide
  have canonical : verifyCanonicalGzipBytes sampleLibrary sampleBundle sampleStream = .ok () := by
    rw [verifyCanonicalGzipBytes, recompressed, canonicalSize, ok_bind, raiseIf_eq_ok.mpr (not_not.mpr rfl)]
  have members : sampleLibrary.members sampleStream = .ok [sampleMember] := by
    simp only [sampleLibrary, sampleMember, if_true]
  have loop : [sampleMember].foldlM (auditMember sampleLibrary samplePolicy sampleStream) sampleStart =
      .ok { countMember sampleStart sampleMember (posixPath (lit "r/a")) with failures := [] } := by
    rw [List.foldlM_cons, auditMember_sampleMember]
    rfl
  have layout : layoutFailures samplePolicy { stream := sampleStream, lastNonzeroOffset := 513 }
      { archiveEnd := 1024, memberCount := 1, fileCount := 1, directoryCount := 0 }
      { countMember sampleStart sampleMember (posixPath (lit "r/a")) with failures := [] } = [] := by
    rw [layoutFailures]
    dsimp only
    rw [length_sampleStream]
    decide
  rw [auditBundle, size, ok_bind, inspectGzipStream_sampleBundle, ok_bind, canonical, ok_bind,
    scanRawTarStream_sampleStream, ok_bind, members, ok_bind]
  have start : ({ failures := [], files := 0, directories := 0, expanded := 0, memberCount := 0
                  retainedNameBytes := 0, archiveEnd := 0, rootName := none, multipleRoots := false
                  memberKinds := [] } : AuditState) = sampleStart := rfl
  rw [start, loop, ok_bind]
  dsimp only
  rw [layout]
  rfl

/-! ### The encoding is canonical -/

end ExitfyCores.Bundle
