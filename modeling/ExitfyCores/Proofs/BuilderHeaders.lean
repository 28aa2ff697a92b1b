/-
Module: ExitfyCores.Proofs.BuilderHeaders
Layer: Proofs
Purpose: The builder's headers before the auditor's metadata check. Builder and auditor decide from different forms
  of a directory name whether it needs a PAX record, so they disagree at one length.
Imports: ExitfyCores.Proofs.BuilderWalk, ExitfyCores.Bundle.Pax
Trusted boundary: none
Main exports: CanEmit, Built.canEmit, acceptsHeaders_iff
Open obligations: none
-/
import ExitfyCores.Proofs.BuilderWalk
import ExitfyCores.Bundle.Pax

namespace ExitfyCores.Bundle.Builder

/-! ### Names that the builder writes -/

/-- A joined path ends in its last part. -/
theorem intercalate_concat (front : List Bytes) (last : Bytes) :
    ∃ before, [byte '/'].intercalate (front ++ [last]) = before ++ last := by
  induction front with
  | nil => exact ⟨[], by simp [List.intercalate]⟩
  | cons head rest ih =>
      rcases ih with ⟨before, joined⟩
      refine ⟨head ++ [byte '/'] ++ before, ?_⟩
      rw [List.cons_append, List.intercalate_cons_of_ne_nil (List.append_ne_nil_of_right_ne_nil _ (by simp)),
        joined, List.append_assoc, List.append_assoc, List.append_assoc]

theorem SafeName.getLast?_ne {name : Bytes} (safe : SafeName name) (before : Bytes) :
    (before ++ name).getLast? ≠ some (byte '/') := by
  have nonempty : name ≠ [] := fun empty => safe.part (empty ▸ List.mem_cons_self)
  rw [List.getLast?_append_of_ne_nil _ nonempty]
  exact fun ends => safe.slash (List.mem_of_getLast? ends)

/-- No name that the builder writes ends in a slash. -/
theorem getLast?_archivePath {root : Bytes} {relative : PosixPath} (isRelative : relative.root = [])
    (nonempty : relative.names ≠ []) (safe : ∀ name ∈ relative.names, SafeName name) :
    (archivePath root relative).getLast? ≠ some (byte '/') := by
  have parts : relative.parts ≠ [] := by
    rw [PosixPath.parts, if_pos isRelative]
    exact nonempty
  rcases List.eq_nil_or_concat' relative.names with none | ⟨front, last, split⟩
  · exact absurd none nonempty
  · have lastSafe := safe last (split ▸ List.mem_append_right front (List.mem_singleton_self last))
    rcases intercalate_concat front last with ⟨before, joined⟩
    rw [archivePath, PosixPath.asPosix, if_neg parts, isRelative, split, joined, List.nil_append,
      ← List.append_assoc]
    exact lastSafe.getLast?_ne _

/-- A header that `archive_directory` can write: `archive_info` of a path and a size that pass its checks. -/
def CanEmit (root : Bytes) (header : TarHeader) : Prop :=
  ∃ (relative : PosixPath) (size : Int) (executable isDirectory : Bool),
    relative.root = [] ∧ relative.names ≠ [] ∧ (∀ name ∈ relative.names, SafeName name) ∧
    checkArchivePath root relative = .ok () ∧ 0 ≤ size ∧ size ≤ maxPublicFileBytes ∧
    header = archiveInfo (archivePath root relative) size executable isDirectory

/-- Every member of a built archive is such a header. -/
theorem Built.canEmit {root : Bytes} {manifest : Manifest} {source : Source} {members : List TarHeader}
    (built : Built root manifest source members) {member : TarHeader} (written : member ∈ members) :
    CanEmit root member := by
  rcases built.run with ⟨traversal, _, _, rfl, _, _, _, adds, _, _⟩
  rw [built.members] at written
  rcases List.mem_map.mp written with ⟨visit, visited, rfl⟩
  have checked := adds.checked visit visited
  cases kind : visit.found with
  | none =>
      refine ⟨visit.path, 0, true, true, checked.relative, checked.nonempty, checked.safe, checked.within,
        Int.le_refl 0, by decide, ?_⟩
      rw [Visit.header, kind]
  | some found =>
      rcases checked.file found kind with ⟨lower, upper, _⟩
      refine ⟨visit.path, found.size, found.executable, false, checked.relative, checked.nonempty,
        checked.safe, checked.within, lower, upper, ?_⟩
      rw [Visit.header, kind]

/-! ### Writing and reading back -/

theorem stripSlashes_of_last {name : Bytes} (last : name.getLast? ≠ some (byte '/')) :
    stripSlashes name = name := by
  unfold stripSlashes
  cases reversed : name.reverse with
  | nil => rw [List.reverse_eq_nil_iff.mp reversed]; rfl
  | cons b rest =>
      have different : b ≠ byte '/' := by
        intro same
        apply last
        rw [← List.head?_reverse, reversed, same]
        rfl
      rw [List.dropWhile_cons_of_neg (by simpa using different), ← reversed, List.reverse_reverse]

theorem stripSlashes_slash {name : Bytes} (last : name.getLast? ≠ some (byte '/')) :
    stripSlashes (name ++ [byte '/']) = name := by
  have stripped := stripSlashes_of_last last
  unfold stripSlashes at stripped ⊢
  rw [List.reverse_append, List.reverse_singleton, List.singleton_append,
    List.dropWhile_cons_of_pos (by simp), stripped]

/-- The name survives being written and read. -/
theorem readBack_name {header : TarHeader} (last : header.name.getLast? ≠ some (byte '/')) :
    (readBack header).name = header.name := by
  unfold readBack storedName
  dsimp only
  by_cases directory : header.IsDir
  · rw [if_pos (Or.inl directory), if_pos ⟨directory, last⟩, stripSlashes_slash last]
  · have stored : (if header.IsDir ∧ header.name.getLast? ≠ some (byte '/') then header.name ++ [byte '/']
        else header.name) = header.name := if_neg fun both => directory both.1
    rw [stored]
    split
    · exact stripSlashes_of_last last
    · rfl

/-- What tarfile stores for a name that does not end in a slash. -/
theorem storedName_eq {header : TarHeader} (last : header.name.getLast? ≠ some (byte '/')) :
    storedName header = if header.IsDir then header.name ++ [byte '/'] else header.name := by
  unfold storedName
  by_cases directory : header.IsDir
  · rw [if_pos ⟨directory, last⟩, if_pos directory]
  · rw [if_neg fun both => directory both.1, if_neg directory]

/-- A directory needs the record for one more byte than its name has; otherwise the name decides. -/
theorem needsPaxPath_iff {header : TarHeader} (last : header.name.getLast? ≠ some (byte '/')) :
    NeedsPaxPath header ↔
      ¬ IsASCII header.name ∨ lengthName < header.name.length + if header.IsDir then 1 else 0 := by
  unfold NeedsPaxPath
  rw [storedName_eq last]
  by_cases directory : header.IsDir
  · rw [if_pos directory, if_pos directory, List.length_append, List.length_singleton]
    have slash : IsASCII (header.name ++ [byte '/']) ↔ IsASCII header.name := by
      unfold IsASCII
      constructor
      · exact fun all b member => all b (List.mem_append_left _ member)
      · intro all b member
        rcases List.mem_append.mp member with inName | isSlash
        · exact all b inName
        · rw [List.mem_singleton.mp isSlash]
          decide
    rw [slash]
  · rw [if_neg directory, if_neg directory, Nat.add_zero]

/-- The auditor looks at the name without the slash. -/
theorem expectedPaxKeys_eq (header : TarHeader) :
    expectedPaxKeys header =
      if ¬ IsASCII header.name ∨ lengthName < header.name.length then [lit "path"] else [] := by
  unfold expectedPaxKeys
  have ascii : header.name.all (· < 0x80) = true ↔ IsASCII header.name := by
    simp [IsASCII]
  by_cases needs : ¬ IsASCII header.name ∨ lengthName < header.name.length
  · rw [if_pos needs, if_neg]
    intro fits
    rcases needs with notASCII | long
    · exact notASCII (ascii.mp fits.1)
    · exact absurd fits.2 (Nat.not_le_of_lt long)
  · rw [if_neg needs, if_pos]
    rw [not_or, not_not, Nat.not_lt] at needs
    exact ⟨ascii.mpr needs.1, needs.2⟩

/-- The keys that tarfile writes are the ones that the auditor expects, but for an ASCII directory name that just
fills the name field. -/
theorem paxKeys_iff {header : TarHeader} (last : header.name.getLast? ≠ some (byte '/')) :
    ((readBack header).paxHeaders.keys ⊆ expectedPaxKeys (readBack header) ∧
      expectedPaxKeys (readBack header) ⊆ (readBack header).paxHeaders.keys) ↔
    ¬ (header.IsDir ∧ IsASCII header.name ∧ header.name.length = lengthName) := by
  have keys : (readBack header).paxHeaders.keys = if NeedsPaxPath header then [lit "path"] else [] := by
    unfold readBack paxPath Dict.keys
    dsimp only
    split <;> rfl
  rw [keys, expectedPaxKeys_eq, readBack_name last]
  have needs := needsPaxPath_iff last
  by_cases record : NeedsPaxPath header
  · rw [if_pos record]
    have needed := needs.mp record
    by_cases expected : ¬ IsASCII header.name ∨ lengthName < header.name.length
    · rw [if_pos expected]
      refine iff_of_true ⟨List.Subset.refl _, List.Subset.refl _⟩ ?_
      intro exactly
      rcases expected with notASCII | long
      · exact notASCII exactly.2.1
      · omega
    · rw [if_neg expected]
      refine iff_of_false (fun both => absurd (both.1 List.mem_cons_self) List.not_mem_nil) ?_
      rw [not_or, not_not] at expected
      rw [not_not]
      rcases needed with notASCII | long
      · exact absurd expected.1 notASCII
      · by_cases directory : header.IsDir
        · rw [if_pos directory] at long
          exact ⟨directory, expected.1, by omega⟩
        · rw [if_neg directory] at long
          omega
  · rw [if_neg record]
    have unneeded := mt needs.mpr record
    rw [not_or, not_not] at unneeded
    have unexpected : ¬ (¬ IsASCII header.name ∨ lengthName < header.name.length) := by
      rw [not_or, not_not]
      exact ⟨unneeded.1, by omega⟩
    rw [if_neg unexpected]
    refine iff_of_true ⟨List.Subset.refl _, List.Subset.refl _⟩ ?_
    intro exactly
    rw [if_pos exactly.1] at unneeded
    omega

/-- The path record holds what the auditor expects. -/
theorem paxPath_expected {header : TarHeader} (last : header.name.getLast? ≠ some (byte '/')) :
    ∀ entry ∈ (readBack header).paxHeaders.entries, entry.2 = expectedPaxPath (readBack header) := by
  intro entry member
  have value : entry.2 = storedName header := by
    unfold readBack paxPath at member
    dsimp only at member
    split at member
    · rw [List.mem_singleton.mp member]
    · exact absurd member List.not_mem_nil
  rw [value, storedName_eq last, expectedPaxPath, readBack_name last]
  rfl

/-! ### The auditor's check -/

/-- Whatever the builder writes beside the name is as the auditor wants it. -/
theorem otherMetadata (name : Bytes) (size : Int) (executable isDirectory : Bool) :
    let header := readBack (archiveInfo name size executable isDirectory)
    reproducibleMetadataFailures header =
      failIf
        (¬ (header.paxHeaders.keys ⊆ expectedPaxKeys header ∧
          expectedPaxKeys header ⊆ header.paxHeaders.keys))
        s!"noncanonical archive PAX metadata: {escapedText header.name}" ++
      failIf (∃ entry ∈ header.paxHeaders.entries,
          entry.1 = lit "path" ∧ entry.2 ≠ expectedPaxPath header)
        s!"noncanonical archive PAX path: {escapedText header.name}" := by
  intro header
  have ownership : ¬ (header.uid ≠ 0 ∨ header.gid ≠ 0) := by
    rw [not_or, not_not, not_not]
    exact ⟨rfl, rfl⟩
  have mtime : ¬ header.mtime ≠ 0 := not_not.mpr rfl
  have linkname : ¬ header.linkname ≠ [] := not_not.mpr rfl
  have ownerNames : ¬ (header.uname ≠ [] ∨ header.gname ≠ []) := by
    rw [not_or, not_not, not_not]
    exact ⟨rfl, rfl⟩
  have mode : header.mode = 0o755 ∨ isDirectory = false ∧ header.mode = 0o644 := by
    cases isDirectory
    · cases executable
      · exact Or.inr ⟨rfl, rfl⟩
      · exact Or.inl rfl
    · exact Or.inl rfl
  have plain : header.PlainMode := by
    unfold TarHeader.PlainMode
    omega
  have kind : (if header.IsDir then
      failIf (header.type ≠ dirType ∨ header.mode ≠ 0o755 ∨ header.size ≠ 0)
        s!"noncanonical archive directory metadata: {escapedText header.name}"
    else if header.IsFile then
      failIf (header.type ≠ regType ∨ header.mode ≠ 0o644 ∧ header.mode ≠ 0o755)
        s!"noncanonical archive file metadata: {escapedText header.name}"
    else []) = [] := by
    cases isDirectory with
    | true =>
        have directory : header.IsDir := rfl
        rw [if_pos directory, failIf_eq_nil, not_or, not_or, not_not, not_not, not_not]
        exact ⟨rfl, rfl, rfl⟩
    | false =>
        have notDirectory : ¬ header.IsDir := (by decide : ¬ regType = dirType)
        have file : header.IsFile := List.mem_cons_self
        rw [if_neg notDirectory, if_pos file, failIf_eq_nil, not_or, not_not]
        exact ⟨rfl, by omega⟩
  unfold reproducibleMetadataFailures
  dsimp only
  rw [failIf_eq_nil.mpr ownership, failIf_eq_nil.mpr ownerNames, failIf_eq_nil.mpr mtime,
    failIf_eq_nil.mpr linkname, failIf_eq_nil.mpr (not_not.mpr plain), kind]
  rfl

/-- The auditor's metadata check passes a header of the builder, read back, unless it is a directory whose ASCII
name is exactly as long as the name field. -/
theorem acceptsHeaders_iff (root : Bytes) (header : TarHeader) (emitted : CanEmit root header) :
    reproducibleMetadataFailures (readBack header) = [] ↔
      ¬ (header.IsDir ∧ IsASCII header.name ∧ header.name.length = lengthName) := by
  rcases emitted with
    ⟨relative, size, executable, isDirectory, isRelative, nonempty, safe, _, lower, upper, rfl⟩
  have nameLast : (archiveInfo (archivePath root relative) size executable isDirectory).name.getLast? ≠
      some (byte '/') := getLast?_archivePath isRelative nonempty safe
  rw [← paxKeys_iff nameLast, otherMetadata _ size executable isDirectory]
  rw [List.append_eq_nil_iff, failIf_eq_nil, failIf_eq_nil, not_not]
  apply and_iff_left
  intro wrong
  rcases wrong with ⟨entry, member, _, different⟩
  exact different (paxPath_expected nameLast entry member)

theorem acceptsHeaders_shortName :
    reproducibleMetadataFailures (readBack (archiveInfo (lit "r/a") 2 false true)) = [] := by
  have emitted : CanEmit (lit "r") (archiveInfo (lit "r/a") 2 false true) := by
    refine ⟨{ root := [], names := [lit "a"] }, 2, false, true, rfl, by decide, ?_, by decide,
      by decide, by decide, rfl⟩
    intro name member
    cases List.mem_singleton.mp member
    exact ⟨by decide, by decide, by decide⟩
  exact (acceptsHeaders_iff (lit "r") _ emitted).mpr fun wrong => absurd wrong.2.2 (by decide)

theorem nodup_file : [lit "f"].Nodup := List.nodup_singleton _

/-- A directory whose name is 98 bytes long, with one file. -/
def fullNameTree : Source :=
  .directory [List.replicate 98 (byte 'a')] (List.pairwise_singleton _ _)
    (fun _ => .directory [lit "f"] nodup_file
      (fun _ => .file
        { size := 1, executable := false, bytesRead := 1, sha256 := List.replicate 64 '0', extra := false
          unchanged := true }) true) true

/-- The manifest of this tree. -/
def fullNameManifest : Manifest :=
  { entries := [({ root := [], names := [List.replicate 98 (byte 'a'), lit "f"] },
      { sha256 := List.replicate 64 '0', size := 1, mode := 0o644 })]
    nodup := List.pairwise_singleton _ _ }

/-- The builder writes an archive under the prefix `r` whose directory header the auditor refuses. -/
theorem not_acceptsHeaders_fullName :
    ∃ members, addTree (fun _ _ => .ok ()) fullNameTree (lit "r") fullNameManifest true = .ok members ∧
      ∃ member ∈ members, reproducibleMetadataFailures (readBack member) ≠ [] := by
  have refused : (addTree (fun _ _ => .ok ()) fullNameTree (lit "r") fullNameManifest true).toOption.any
      (fun members => members.any fun member =>
        decide (reproducibleMetadataFailures (readBack member) ≠ [])) = true := by
    decide +kernel
  cases run : addTree (fun _ _ => .ok ()) fullNameTree (lit "r") fullNameManifest true with
  | error message =>
      rw [run] at refused
      cases refused
  | ok members =>
      rw [run] at refused
      rcases List.any_eq_true.mp refused with ⟨member, written, failed⟩
      exact ⟨members, rfl, member, written, of_decide_eq_true failed⟩

end ExitfyCores.Bundle.Builder
