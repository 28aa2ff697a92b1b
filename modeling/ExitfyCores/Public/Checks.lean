/-
Module: ExitfyCores.Public.Checks
Layer: Public
Purpose: What `scripts/audit_public_tree.py` asks of one public file: `_audit_bytes`, on its path and its bytes.
Imports: ExitfyCores.Bundle.Audit, ExitfyCores.Lib.PyJson, ExitfyCores.Lib.Window
Trusted boundary: human-reviewed spec; which symbols beyond ASCII are letters or digits is the parameter `isLetter`
Main exports: forbiddenNamespacePath, containsLocalHostPath, actionUses, referenceFailures, auditBytes
Open obligations: none
-/
import ExitfyCores.Bundle.Audit
import ExitfyCores.Lib.PyJson
import ExitfyCores.Lib.Window

namespace ExitfyCores.Public

open ExitfyCores.Bundle

/-- `FORBIDDEN_SUFFIXES` -/
def forbiddenSuffixes : List String :=
  [".plugin", ".dex", ".jar", ".apk", ".aar", ".class", ".so", ".dylib", ".dll", ".exe"]

/-- `FORBIDDEN_TEXT` -/
def forbiddenText : List String :=
  ["TMessagesProj", "com.exteragram", "org.telegram", "com/exteragram", "org/telegram", "/Users/", "C:\\Users\\"]

/-- `GIT_LFS_POINTER_HEADER` -/
def gitLfsPointerHeader : Bytes := lit "version https://git-lfs.github.com/spec/v1"

/-- `MAX_PUBLIC_FILE_BYTES` -/
def maxPublicFileBytes : Nat := 64 * 1024 * 1024

/-- `needle in text` -/
def containsText (needle text : List Char) : Bool := text.tails.any fun tail => needle.isPrefixOf tail

/-- `forbidden_namespace_path` -/
def forbiddenNamespacePath (relative : Bytes) : Bool :=
  ((posixPath relative).parts.map lowerText).tails.any fun tail =>
    ["com".toList, "exteragram".toList].isPrefixOf tail || ["org".toList, "telegram".toList].isPrefixOf tail

/-! ### Host paths -/

/-- `[A-Za-z0-9_]` -/
def isWordASCII (c : Char) : Bool :=
  ('A' ≤ c && c ≤ 'Z') || ('a' ≤ c && c ≤ 'z') || ('0' ≤ c && c ≤ '9') || c == '_'

/-- `\w` -/
def isWord (isLetter : Char → Bool) (c : Char) : Bool := if c.toNat < 128 then isWordASCII c else isLetter c

/-- The symbols of a literal. -/
def exactly (text : String) : Regex Char := .seqs (text.toList.map fun c => .sat (· == c))

/-- `(?:/|\b)` -/
def pathEnd (isLetter : Char → Bool) : Regex Char := .alts [exactly "/", .boundary (isWord isLetter)]

/-- `LOCAL_HOST_PATHS`, each without the lookbehind `(?<![A-Za-z0-9_])` that both begin with. -/
def localHostPaths (isLetter : Char → Bool) : List (Regex Char) :=
  [.seqs [exactly "/", .alts [exactly "home", exactly "root"], pathEnd isLetter],
    .seqs [exactly "/",
      .alts [.seq (exactly "private") (.seq (exactly "/") (.alts [exactly "tmp", exactly "var/folders"])),
        exactly "opt/homebrew"],
      pathEnd isLetter]]

/-- A pattern matches behind the symbol `before`. -/
def hostPathAt (pattern : Regex Char) (before : Option Char) (text : List Char) : Bool :=
  !Regex.wordSide isWordASCII before && !(pattern.ends before text).isEmpty

/-- `contains_local_host_path` -/
def containsLocalHostPath (isLetter : Char → Bool) (text : List Char) : Bool :=
  (localHostPaths isLetter).any fun pattern => (Window.search (hostPathAt pattern) text 0).isSome

/-! ### Actions -/

/-- `\s` -/
def isSpace (c : Char) : Bool := Py.isSpace c.toNat

/-- A letter under `(?i)`; the long s is an `s`. -/
def anyCase (letter : Char) : Regex Char := .sat fun c => c.toLower == letter || (letter == 's' && c == '\u017F')

/-- `uses` under `(?i)` -/
def usesKey : Regex Char := .seqs ("uses".toList.map anyCase)

/-- `ACTION_USE` between its first group and the reference. -/
def actionUseKey : Regex Char :=
  .seqs [.many isSpace, .opt (exactly "-"), .many isSpace,
    .alts [usesKey, .seqs [exactly "\"", usesKey, exactly "\""], .seqs [exactly "'", usesKey, exactly "'"]],
    .many isSpace, exactly ":", .many isSpace, .opt (.sat fun c => c == '"' || c == '\'')]

/-- `[^"'\s#,}\]]` -/
def isReferenceSymbol (c : Char) : Bool := !(isSpace c || "\"'#,\x7d]".toList.contains c)

/-- Where `(?:^|[,{\[])` can end: at the start of a line, or behind a symbol of the class. -/
def actionUseStarts (before : Option Char) (text : List Char) : List (Option Char × List Char) :=
  (if before = none ∨ before = some '\n' then [(before, text)] else []) ++
    match text with
    | c :: rest => if ",\x7b[".toList.contains c then [(some c, rest)] else []
    | [] => []

/-- The match of `ACTION_USE` at a position: the reference in it, and what follows. -/
def actionUseAt (before : Option Char) (text : List Char) : Option (List Char × List Char) :=
  ((actionUseStarts before text).flatMap fun start =>
    (actionUseKey.ends start.1 start.2).flatMap fun position =>
      ((Regex.some1 isReferenceSymbol).ends position.1 position.2).map fun stop =>
        (position.2.take (position.2.length - stop.2.length), stop.2)).head?

/-- `ACTION_USE.findall` from a position on; `skip` symbols still belong to the match found last. -/
def actionUsesFrom : Nat → Option Char → List Char → List (List Char)
  | _, _, [] => []
  | skip + 1, _, c :: rest => actionUsesFrom skip (some c) rest
  | 0, before, c :: rest =>
      match actionUseAt before (c :: rest) with
      | some (reference, behind) => reference :: actionUsesFrom (rest.length - behind.length) (some c) rest
      | none => actionUsesFrom 0 (some c) rest

/-- `ACTION_USE.findall` -/
def actionUses (text : List Char) : List (List Char) := actionUsesFrom 0 none text

/-- `FULL_COMMIT.fullmatch` -/
def isFullCommit (text : List Char) : Bool := text.length = 40 && text.all fun c => "0123456789abcdef".toList.contains c

/-- A reference to another place than this repository that no full commit pins. -/
def unpinned (reference : List Char) : Bool :=
  if "./".toList.isPrefixOf reference then false
  else if '@' ∉ reference then true
  else
    -- `reference.rsplit("@", 1)`
    let revision := (reference.reverse.takeWhile (· ≠ '@')).reverse
    let action := reference.take (reference.length - revision.length - 1)
    action = [] || !isFullCommit revision

/-- The files whose actions are looked at. -/
def usesActions (relative : Bytes) : Bool :=
  (lit ".github/workflows/").isPrefixOf relative ||
    ["action.yml", "action.yaml"].any fun name => lowerText ((posixPath relative).names.getLastD []) == name.toList

/-! ### One file -/

instance lawfulCharacters : LawfulBEq (List Char) := inferInstance

/-- The formats that a public file may not have. -/
def binaryStarts : List Bytes := [[0x7F] ++ lit "ELF", lit "PK" ++ [3, 4], lit "dex\n"]

/-- `_audit_bytes` -/
def auditBytes (isLetter : Char → Bool) (label : String) (relative data : Bytes) : List String :=
  let display := s!"{label}:{String.ofList (runes relative)}"
  let parts := (posixPath relative).parts.map lowerText
  let text := runes data
  failIf (gitLfsPointerHeader.isPrefixOf data = true) s!"Git LFS pointer is forbidden: {display}" ++
    if lowerText (posixPath relative).suffix ∈ forbiddenSuffixes.map String.toList then
      [s!"forbidden artifact: {display}"]
    else if "tmessagesproj".toList ∈ parts ∨ forbiddenNamespacePath relative = true then
      [s!"forbidden source tree or namespace: {display}"]
    else if 0 ∈ data ∨ binaryStarts.any (fun start => start.isPrefixOf data) = true then
      [s!"unapproved binary: {display}"]
    else if ¬ DecodesStrictly data then [s!"non-UTF-8 public file: {display}"]
    else
      failIf
        (forbiddenText.any (fun forbidden => containsText (forbidden.toList.map Char.toLower) (lowerText data)) = true)
        s!"forbidden client reference: {display}" ++
      failIf (containsLocalHostPath isLetter text = true) s!"absolute local host path: {display}" ++
      if usesActions relative = true then
        (actionUses text).flatMap (fun reference =>
          failIf (unpinned reference = true) s!"unpinned GitHub Action in {display}: {String.ofList reference}") ++
        failIf (containsText "reactivecircus/android-emulator-runner".toList text = true)
          s!"third-party emulator action: {display}"
      else []

end ExitfyCores.Public
