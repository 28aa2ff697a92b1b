/-
Module: ExitfyCores.Bundle.Vendor
Layer: Bundle
Purpose: The accounting of `build_minimal_vendor` in `scripts/build_singbox_source_bundle.py`: its counters, the limits that
  `main` computes from the public manifest, and the merge of both manifests.
Imports: ExitfyCores.Bundle.Builder, Mathlib.Data.List.Dedup, Mathlib.Algebra.Ring.Int.Defs
Trusted boundary: human-reviewed spec; the copy of a file is the answer of an operation, about which nothing is assumed; the
  Go commands and the files that they name are an arbitrary sequence of operations
Main exports: VendorLimits, VendorState, checkedKey, record, copyAndRecord, Operation, buildMinimalVendor, vendorLimits,
  archiveManifest
Open obligations: none
-/
import ExitfyCores.Bundle.Builder
import Mathlib.Data.List.Dedup
import Mathlib.Algebra.Ring.Int.Defs

namespace ExitfyCores.Bundle

/-- `first / second`; a path with a root replaces what is in front of it. -/
def PosixPath.join (first second : PosixPath) : PosixPath :=
  if second.root = [] then { first with names := first.names ++ second.names } else second

/-- `PurePosixPath(*path.parts[:index]) for index in range(1, len(path.parts))` -/
def PosixPath.partPrefixes (path : PosixPath) : List PosixPath :=
  if path.root = [] then Builder.ancestorPaths path
  else (List.range path.names.length).map fun index => { path with names := path.names.take index }

namespace Builder

/-- The limits that `build_minimal_vendor` is called with. -/
structure VendorLimits where
  maxTreeBytes : Int
  maxFiles : Int
  maxDirectories : Int
  maxRetainedPathBytes : Int
deriving Repr, DecidableEq

/-- The local variables of `build_minimal_vendor` that its inner functions change. -/
structure VendorState where
  vendorManifest : Manifest
  vendorBytes : Int
  retainedPathBytes : Nat
  vendorDirectories : List PosixPath

/-- `dict[key] = value` for a new key. -/
def Manifest.add (manifest : Manifest) (key : PosixPath) (entry : ArchiveEntry) (fresh : key ∉ manifest.keys) : Manifest where
  entries := manifest.entries ++ [(key, entry)]
  nodup := by
    rw [List.map_append, List.map_singleton]
    exact manifest.nodup.append (List.nodup_singleton key) (List.disjoint_singleton.mpr fresh)

/-- The bytes of paths as the script sums them up. -/
def sumPathBytes (paths : List PosixPath) : Nat := (paths.map fun path => path.asPosix.length).sum

/-- `checked_key` -/
def checkedKey (limits : VendorLimits) (manifestPrefix : PosixPath) (state : VendorState) (relative : PosixPath) :
    Except String (PosixPath × List PosixPath × Nat) := do
  let key := manifestPrefix.join relative
  if key ∈ state.vendorManifest.keys then pure (key, [], 0)
  else
    raiseIf (¬ DecodesStrictly key.asPosix) "surrogates not allowed"
    let directories := key.partPrefixes.dedup
    let newDirectories := directories.filter (· ∉ state.vendorDirectories)
    raiseIf (∃ directory ∈ newDirectories, ¬ DecodesStrictly directory.asPosix) "surrogates not allowed"
    let addedPathBytes := key.asPosix.length + sumPathBytes newDirectories
    raiseIf (maxArchivePathBytes < key.asPosix.length) "generated vendor path exceeds safe limits"
    raiseIf (limits.maxFiles ≤ state.vendorManifest.entries.length) "generated vendor exceeds the aggregate file limit"
    raiseIf (limits.maxDirectories < state.vendorDirectories.length + newDirectories.length)
      "generated vendor exceeds the aggregate directory limit"
    raiseIf (limits.maxRetainedPathBytes < state.retainedPathBytes + addedPathBytes)
      "generated vendor paths exceed the retained-name limit"
    pure (key, newDirectories, addedPathBytes)

/-- `record` -/
def record (limits : VendorLimits) (manifestPrefix : PosixPath) (state : VendorState) (relative : PosixPath)
    (entry : ArchiveEntry) : Except String VendorState := do
  let (key, newDirectories, addedPathBytes) ← checkedKey limits manifestPrefix state relative
  if known : key ∈ state.vendorManifest.keys then
    raiseIf (state.vendorManifest.get key ≠ some entry) "conflicting generated vendor file"
    pure state
  else
    raiseIf (limits.maxTreeBytes - state.vendorBytes < entry.size) "generated vendor exceeds the aggregate byte limit"
    pure
      { vendorManifest := Manifest.add state.vendorManifest key entry known
        vendorBytes := state.vendorBytes + entry.size
        retainedPathBytes := state.retainedPathBytes + addedPathBytes
        vendorDirectories := state.vendorDirectories ++ newDirectories }

/-- `copy_and_record`; `copyFile` is `copy_file` with its limit. -/
def copyAndRecord (limits : VendorLimits) (manifestPrefix : PosixPath) (state : VendorState) (relative : PosixPath)
    (copyFile : Int → Except String ArchiveEntry) : Except String VendorState := do
  let (key, _, _) ← checkedKey limits manifestPrefix state relative
  let remaining :=
    if key ∈ state.vendorManifest.keys then maxPublicFileBytes else limits.maxTreeBytes - state.vendorBytes
  let entry ← copyFile remaining
  record limits manifestPrefix state relative entry

/-- One call of the inner functions. -/
inductive Operation where
  | record (relative : PosixPath) (entry : ArchiveEntry)
  | copyAndRecord (relative : PosixPath) (copyFile : Int → Except String ArchiveEntry)

/-- The call, on the local variables. -/
def Operation.apply (limits : VendorLimits) (manifestPrefix : PosixPath) (state : VendorState) :
    Operation → Except String VendorState
  | .record relative entry => Builder.record limits manifestPrefix state relative entry
  | .copyAndRecord relative copyFile => Builder.copyAndRecord limits manifestPrefix state relative copyFile

/-- The local variables before the first call. -/
def emptyVendor : VendorState where
  vendorManifest := { entries := [], nodup := List.nodup_nil }
  vendorBytes := 0
  retainedPathBytes := 0
  vendorDirectories := []

/-- `build_minimal_vendor`, by the calls of its inner functions. -/
def buildMinimalVendor (limits : VendorLimits) (manifestPrefix : PosixPath) (operations : List Operation) :
    Except String VendorState := do
  raiseIf
    (limits.maxTreeBytes < 0 ∨ limits.maxFiles < 0 ∨ limits.maxDirectories < 0 ∨ limits.maxRetainedPathBytes < 0)
    "generated vendor aggregate limit is invalid"
  operations.foldlM (Operation.apply limits manifestPrefix) emptyVendor

/-! ### The public manifest -/

/-- `public_bytes` -/
def manifestBytes (manifest : Manifest) : Int := (manifest.entries.map fun item => item.2.size).sum

/-- `public_directories` -/
def manifestDirectories (manifest : Manifest) : List PosixPath := (manifest.keys.flatMap PosixPath.partPrefixes).dedup

/-- `public_path_bytes` -/
def manifestPathBytes (manifest : Manifest) : Nat :=
  sumPathBytes manifest.keys + sumPathBytes (manifestDirectories manifest)

/-- The arguments of `build_minimal_vendor` in `main`. -/
def vendorLimits (publicManifest : Manifest) : Except String VendorLimits := do
  raiseIf (∃ path ∈ publicManifest.keys ++ manifestDirectories publicManifest, ¬ DecodesStrictly path.asPosix)
    "surrogates not allowed"
  pure
    { maxTreeBytes := maxPublicTreeBytes - manifestBytes publicManifest
      maxFiles := maxArchiveFiles - publicManifest.entries.length
      maxDirectories := maxArchiveDirectories - (manifestDirectories publicManifest).length
      maxRetainedPathBytes := maxRetainedPathBytes - manifestPathBytes publicManifest }

/-- `{**public_manifest, **vendor_manifest}` for manifests without a common path. -/
def Manifest.merge (first second : Manifest) (apart : ∀ key ∈ first.keys, key ∉ second.keys) : Manifest where
  entries := first.entries ++ second.entries
  nodup := by
    rw [List.map_append]
    exact first.nodup.append second.nodup fun key inFirst inSecond => apart key inFirst inSecond

/-- `main` from the public manifest to the manifest of the archive. -/
def archiveManifest (publicManifest : Manifest) (manifestPrefix : PosixPath) (operations : List Operation) :
    Except String Manifest := do
  let limits ← vendorLimits publicManifest
  let vendor ← buildMinimalVendor limits manifestPrefix operations
  if apart : ∀ key ∈ publicManifest.keys, key ∉ vendor.vendorManifest.keys then
    pure (Manifest.merge publicManifest vendor.vendorManifest apart)
  else .error "generated vendor replaces public source"

end Builder

end ExitfyCores.Bundle
