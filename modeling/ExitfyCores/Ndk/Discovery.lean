/-
Module: ExitfyCores.Ndk.Discovery
Layer: Ndk
Purpose: The discovery of the Android NDK in `scripts/ndk_env.sh`: the revision of an NDK, the order of versions, and the
  search through the variables and the SDK directories.
Imports: ExitfyCores.Lib.GoString, ExitfyCores.Lib.Numerals, ExitfyCores.Lib.WeakOrder
Trusted boundary: human-reviewed spec; a shell string is its bytes, a variable that is not set is empty, and texts have no
  NUL; the file system is the parameter `FileSystem`, about which nothing is assumed
Main exports: FileSystem, Variables, exitfyNdkRevision, exitfyValidateNdk, exitfyNumericVersionGreater, Candidate, scan,
  exitfyFindNdk
Open obligations: none
-/
import ExitfyCores.Lib.GoString
import ExitfyCores.Lib.Numerals
import ExitfyCores.Lib.WeakOrder

namespace ExitfyCores.Ndk

open Numerals

/-- What the scripts ask the file system: `[[ -d … ]]`, the text of a file or nothing where `[[ -f … ]]` fails, and the
names that `"$directory"/*` goes through. -/
structure FileSystem where
  isDirectory : Bytes → Bool
  readFile : Bytes → Option Bytes
  listing : Bytes → List Bytes

/-! ### Text -/

/-- The fields that a separator ends or parts: there is none behind the last separator if nothing stands there. -/
def fields (separator : UInt8) (text : Bytes) : List Bytes :=
  let parts := text.splitOn separator
  if parts.getLast? = some [] then parts.dropLast else parts

/-- `[[:space:]]` -/
def isSpace (b : UInt8) : Bool := b == 0x20 || (0x09 ≤ b && b ≤ 0x0D)

/-- `gsub(/^[[:space:]]+|[[:space:]]+$/, "", text)` -/
def trim (text : Bytes) : Bytes := ((text.dropWhile isSpace).reverse.dropWhile isSpace).reverse

/-- `$(…)`: the output without the line ends behind it. -/
def substitution (output : Bytes) : Bytes := (output.reverse.dropWhile (· = 0x0A)).reverse

/-- `^[0-9]+(\.[0-9]+)*$` -/
def isNumericVersion (text : Bytes) : Bool := (text.splitOn (byte '.')).all fun part => !part.isEmpty && part.all isDigit

/-! ### The revision of an NDK -/

/-- The awk program, line by line: how often the revision was found, and what it was last. -/
def awkLine (state : Nat × Bytes) (line : Bytes) : Nat × Bytes :=
  let line := if line.getLast? = some 0x0D then line.dropLast else line
  if byte '=' ∉ line then state
  else
    let key := trim (line.takeWhile (· ≠ byte '='))
    let candidate := trim ((line.dropWhile (· ≠ byte '=')).drop 1)
    if key = lit "Pkg.Revision" then (state.1 + 1, candidate) else state

/-- `exitfy_ndk_revision` -/
def exitfyNdkRevision (fs : FileSystem) (ndkHome : Bytes) : Except Bytes Bytes :=
  match fs.readFile (ndkHome ++ lit "/source.properties") with
  | none => .error (lit "NDK source.properties is missing: " ++ ndkHome)
  | some properties =>
      let (count, revision) := (fields 0x0A properties).foldl awkLine (0, [])
      if count ≠ 1 ∨ ¬ isNumericVersion revision then
        .error (lit "NDK source.properties has an invalid Pkg.Revision: " ++ ndkHome)
      else .ok revision

/-- `exitfy_validate_ndk` -/
def exitfyValidateNdk (fs : FileSystem) (candidate expected : Bytes) : Except Bytes Unit :=
  if ¬ fs.isDirectory (candidate ++ lit "/toolchains/llvm/prebuilt") then
    .error (lit "NDK LLVM toolchain is missing: " ++ candidate)
  else do
    let actual ← exitfyNdkRevision fs candidate
    if expected ≠ [] ∧ actual ≠ expected then
      .error (lit "NDK revision mismatch: expected " ++ expected ++ lit ", got " ++ actual)
    else .ok ()

/-! ### The order of versions -/

/-- `IFS='.' read -r -a parts <<< "$text"` -/
def readParts (text : Bytes) : List Bytes := fields (byte '.') (text.takeWhile (· ≠ 0x0A))

/-- `${parts[index]:-0}` -/
def partAt (parts : List Bytes) (index : Nat) : Bytes :=
  let part := parts.getD index []
  if part = [] then [byte '0'] else part

/-- `while [[ ${#value} -gt 1 && "$value" == 0* ]]; do value="${value#0}"; done` -/
def stripZeros : Bytes → Bytes
  | [] => []
  | b :: rest => if rest ≠ [] ∧ b = byte '0' then stripZeros rest else b :: rest

/-- The four ways to return inside the loop. -/
def compareParts (left right : Bytes) : Option Bool :=
  if right.length < left.length then some true
  else if left.length < right.length then some false
  else if right < left then some true
  else if left < right then some false
  else none

/-- The loop, from an index on for so many turns. -/
def greaterFrom (left right : List Bytes) : Nat → Nat → Bool
  | 0, _ => false
  | turns + 1, index =>
      match compareParts (stripZeros (partAt left index)) (stripZeros (partAt right index)) with
      | some answer => answer
      | none => greaterFrom left right turns (index + 1)

/-- `exitfy_numeric_version_greater` -/
def exitfyNumericVersionGreater (left right : Bytes) : Bool :=
  let leftParts := readParts left
  let rightParts := readParts right
  greaterFrom leftParts rightParts (max leftParts.length rightParts.length) 0

/-! ### The search -/

/-- A directory of the SDK whose name is a numeric version. -/
structure Candidate where
  path : Bytes
  revision : Bytes
  numeric : isNumericVersion revision = true

/-- The two checks in front of the comparison; `revision` is `$(basename "$candidate")`. -/
def candidate? (fs : FileSystem) (directory name : Bytes) : Option Candidate :=
  let path := directory ++ byte '/' :: name
  let revision := substitution name
  if numeric : fs.isDirectory path = true ∧ isNumericVersion revision = true then some ⟨path, revision, numeric.2⟩
  else none

/-- One turn of the loop over the names. -/
def scanName (fs : FileSystem) (directory : Bytes) (best : Option Candidate) (name : Bytes) : Option Candidate :=
  match candidate? fs directory name with
  | none => best
  | some candidate =>
      match best with
      | none => some candidate
      | some kept => if exitfyNumericVersionGreater candidate.revision kept.revision then some candidate else some kept

/-- The loop over the names. -/
def scan (fs : FileSystem) (directory : Bytes) : Option Candidate :=
  (fs.listing directory).foldl (scanName fs directory) none

/-- The variables that the search reads. -/
structure Variables where
  ndkVersion : Bytes
  androidNdkHome : Bytes
  androidNdkRoot : Bytes
  androidSdkRoot : Bytes
  androidHome : Bytes

/-- One turn of the loop over the SDK directories: what is printed, or nothing where the loop goes on. -/
def searchSdk (fs : FileSystem) (ndkVersion sdk : Bytes) : Except Bytes (Option Bytes) :=
  if ndkVersion ≠ [] then
    let candidate := sdk ++ lit "/ndk/" ++ ndkVersion
    if fs.isDirectory candidate then do
      exitfyValidateNdk fs candidate ndkVersion
      pure (some candidate)
    else pure none
  else if fs.isDirectory (sdk ++ lit "/ndk") then
    match scan fs (sdk ++ lit "/ndk") with
    | none => pure none
    | some best => do
        exitfyValidateNdk fs best.path best.revision
        pure (some best.path)
  else pure none

/-- The loop over the SDK directories. -/
def searchSdks (fs : FileSystem) (ndkVersion : Bytes) : List Bytes → Except Bytes (Option Bytes)
  | [] => pure none
  | sdk :: rest =>
      if sdk = [] then searchSdks fs ndkVersion rest
      else do
        match ← searchSdk fs ndkVersion sdk with
        | some found => pure (some found)
        | none => searchSdks fs ndkVersion rest

/-- `exitfy_find_ndk` -/
def exitfyFindNdk (fs : FileSystem) (vars : Variables) : Except Bytes Bytes :=
  let ndkVersion := vars.ndkVersion
  if ndkVersion ≠ [] ∧ ¬ isNumericVersion ndkVersion then
    .error (lit "Pinned Android NDK revision is invalid: " ++ ndkVersion)
  else
    match [vars.androidNdkHome, vars.androidNdkRoot].find? (· ≠ []) with
    | some candidate => do
        exitfyValidateNdk fs candidate ndkVersion
        pure candidate
    | none => do
        let sdks := [vars.androidSdkRoot, vars.androidHome]
        match ← searchSdks fs ndkVersion sdks with
        | some found => pure found
        | none =>
            if ndkVersion ≠ [] ∧ ∃ sdk ∈ sdks, sdk ≠ [] then
              .error (lit "Pinned Android NDK " ++ ndkVersion ++ lit " is not installed")
            else .error (lit "Android NDK not found; set ANDROID_NDK_HOME or ANDROID_SDK_ROOT")

example : exitfyNumericVersionGreater (lit "27.10.1") (lit "27.009") = true := by decide

end ExitfyCores.Ndk
