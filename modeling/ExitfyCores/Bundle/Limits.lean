/-
Module: ExitfyCores.Bundle.Limits
Layer: Bundle
Purpose: The structural limits of `audit_bundle` in one place, as a condition on the members of an archive, and the
  members that a manifest asks for.
Imports: ExitfyCores.Bundle.Pax, Mathlib.Data.List.Dedup, Mathlib.Algebra.Ring.Int.Defs
Trusted boundary: human-reviewed spec
Main exports: WithinAuditLimits, countMembers, expectedDirectories, plannedMembers, plannedHeaders, KeepsAuditLimits
Open obligations: none
-/
import ExitfyCores.Bundle.Pax
import Mathlib.Data.List.Dedup
import Mathlib.Algebra.Ring.Int.Defs

namespace ExitfyCores.Bundle

/-- No limit of `audit_bundle` is exceeded by these members. -/
structure WithinAuditLimits (members : List TarHeader) : Prop where
  depth : ∀ member ∈ members, (posixPath member.name).parts.length ≤ 128
  nameBytes : ∀ member ∈ members, member.name.length ≤ maxMemberNameBytes
  retainedNames : (members.map fun member => member.name.length).sum ≤ maxRetainedNameBytes
  count : members.length ≤ maxMembers
  files : (members.filter fun member => member.kind = .file).length ≤ maxArchiveFiles
  directories : (members.filter fun member => member.kind = .directory).length ≤ maxArchiveDirectories
  payload : ∀ member ∈ members, 0 ≤ member.size ∧ member.size ≤ maxMemberBytes
  expanded : (members.map TarHeader.size).sum ≤ maxExpandedBytes
  paxRecord : ∀ member ∈ members, NeedsPaxPath member →
    (storedName member).length ≤ maxMemberNameBytes + 1 ∧ paxRecordLength (storedName member) ≤ maxPaxBytes
  stream : tarStreamSize members ≤ maxTarStreamBytes

/-- The state in which `audit_bundle` enters the loop. -/
def initialAudit : AuditState :=
  { failures := [], files := 0, directories := 0, expanded := 0, memberCount := 0
    retainedNameBytes := 0, archiveEnd := 0, rootName := none, multipleRoots := false, memberKinds := [] }

/-- The counters of `audit_bundle` behind some members. -/
def countMembers (members : List TarInfo) : AuditState :=
  members.foldl (fun state member => countMember state member (posixPath member.header.name)) initialAudit

namespace Builder

/-- The directories above the files of a manifest. -/
def expectedDirectories (manifest : Manifest) : List PosixPath :=
  (manifest.keys.flatMap ancestorPaths).dedup

/-- What a manifest asks for: its files with their entries, and the directories above them. -/
def plannedMembers (manifest : Manifest) : List (PosixPath × Option ArchiveEntry) :=
  manifest.entries.map (fun item => (item.1, some item.2)) ++
    (expectedDirectories manifest).map fun directory => (directory, none)

/-- The header for it. -/
def plannedHeader (root : Bytes) (planned : PosixPath × Option ArchiveEntry) : TarHeader :=
  match planned.2 with
  | some entry => archiveInfo (archivePath root planned.1) entry.size (entry.mode = 0o755) false
  | none => archiveInfo (archivePath root planned.1) 0 true true

/-- The headers of the archive of a manifest. -/
def plannedHeaders (root : Bytes) (manifest : Manifest) : List TarHeader :=
  (plannedMembers manifest).map (plannedHeader root)

/-- The three conditions that the builder does not check: the prefix makes every path one part deeper and every name
longer, and headers and padding come on top of the payload. -/
structure KeepsAuditLimits (root : Bytes) (manifest : Manifest) : Prop where
  depth : ∀ path ∈ manifest.keys, path.parts.length ≤ 127
  retainedNames : ((plannedHeaders root manifest).map fun header => header.name.length).sum ≤ maxRetainedNameBytes
  stream : tarStreamSize (plannedHeaders root manifest) ≤ maxTarStreamBytes

end Builder

end ExitfyCores.Bundle
