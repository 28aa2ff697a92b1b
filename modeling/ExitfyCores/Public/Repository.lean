/-
Module: ExitfyCores.Public.Repository
Layer: Public
Purpose: `scripts/audit_public_tree.py` on a repository: the entries of trees and of the index, the files of the
  working tree, the commits of a push, and the base from which the history is audited.
Imports: ExitfyCores.Lib.Raise, ExitfyCores.Public.Checks
Trusted boundary: human-reviewed spec; what Git prints is the parameter `commands`, what the file system says about
  a path is the parameter `observe`, and neither changes while the audit runs
Main exports: Commands, Stopped, GitEntry, auditGitEntry, auditTree, auditIndex, Observed, auditWorktree,
  resolveHistoryBase, auditRepository, main
Open obligations: none
-/
import ExitfyCores.Lib.Raise
import ExitfyCores.Public.Checks

namespace ExitfyCores.Public

open ExitfyCores.Bundle

/-! ### Git -/

/-- What `git -C root` prints for its arguments, or `none` when its exit status is not zero. -/
abbrev Commands := List String → Option Bytes

/-- The exceptions that end an audit before it has a result. -/
inductive Stopped where
  | command (arguments : List String)
  | notUtf8
  | notASCII
  | value (message : String)
  | system (message : String)
  | outside (path : Bytes)
deriving DecidableEq, Repr

/-- `_git` -/
def git (commands : Commands) (arguments : List String) : Except Stopped Bytes :=
  match commands arguments with
  | some output => .ok output
  | none => .error (.command arguments)

/-- `\r\n` and `\r` in the output of a process that is read as text. -/
def universalNewlines : List Char → List Char
  | '\r' :: '\n' :: rest => '\n' :: universalNewlines rest
  | '\r' :: rest => '\n' :: universalNewlines rest
  | c :: rest => c :: universalNewlines rest
  | [] => []

/-- `text.strip()` -/
def strip (text : List Char) : List Char := ((text.dropWhile isSpace).reverse.dropWhile isSpace).reverse

/-- `result.stdout.strip()` of a process that is read as text. -/
def outputText (output : Bytes) : Except Stopped (List Char) :=
  if DecodesStrictly output then .ok (strip (universalNewlines (runes output))) else .error .notUtf8

/-- `data.decode("ascii")` -/
def decodeASCII (data : Bytes) : Option (List Char) :=
  if data.all (· < 128) then some (data.map fun b => Char.ofNat b.toNat) else none

/-- `text.split()` -/
def splitSpaces (text : List Char) : List (List Char) := (text.splitOnP isSpace).filter (· ≠ [])

/-- The records of a listing under `-z`. -/
def records (output : Bytes) : List Bytes := (output.splitOn 0).filter (· ≠ [])

/-- A record of a listing: three fields, a tab and a path. -/
structure Record where
  first : String
  second : String
  third : String
  path : Bytes
deriving DecidableEq, Repr

/-- The fields in front of the tab, and `_decode_path` of what is behind it. -/
def readRecord (record : Bytes) : Option Record :=
  match (decodeASCII (record.takeWhile (· ≠ 9))).map splitSpaces with
  | some [first, second, third] =>
      let path := (record.dropWhile (· ≠ 9)).tail
      if 9 ∈ record ∧ DecodesStrictly path then
        some ⟨String.ofList first, String.ofList second, String.ofList third, path⟩
      else none
  | _ => none

/-! ### Entries -/

/-- The digits in `int(text)`: one underscore may stand between two of them. -/
def intDigits : List Char → Option (List Char)
  | [] => none
  | [c] => if c.isDigit then some [c] else none
  | c :: '_' :: rest => if c.isDigit then (intDigits rest).map (c :: ·) else none
  | c :: d :: rest => if c.isDigit then (intDigits (d :: rest)).map (c :: ·) else none

/-- `int(text)` without a sign -/
def intMagnitude (text : List Char) : Option Nat :=
  (intDigits text).bind fun digits =>
    if digits.length ≤ Py.maxStrDigits then some (Nat.ofDigitChars 10 digits 0) else none

/-- `int(text)` of ASCII text with no white space around it. -/
def parseInt : List Char → Option Int
  | '-' :: rest => (intMagnitude rest).map fun magnitude => -(magnitude : Int)
  | '+' :: rest => (intMagnitude rest).map Int.ofNat
  | rest => (intMagnitude rest).map Int.ofNat

/-- `REGULAR_GIT_MODES` -/
def regularGitModes : List String := ["100644", "100755"]

/-- What a listing says about an entry. -/
structure GitEntry where
  mode : String
  objectType : String
  objectId : String
  path : Bytes
deriving DecidableEq, Repr

/-- How an entry is named in a failure. -/
def display (label : String) (relative : Bytes) : String := s!"{label}:{String.ofList (runes relative)}"

/-- `_audit_git_entry` -/
def auditGitEntry (isLetter : Char → Bool) (commands : Commands) (label : String) (entry : GitEntry) :
    Except Stopped (List String) :=
  if entry.mode = "120000" then .ok [s!"symlink is forbidden: {display label entry.path}"]
  else if entry.mode ∉ regularGitModes ∨ entry.objectType ≠ "blob" then
    .ok [s!"unsupported Git entry {entry.mode}/{entry.objectType}: {display label entry.path}"]
  else do
    let output ← git commands ["cat-file", "-s", entry.objectId]
    match (decodeASCII output).bind fun text => parseInt (strip text) with
    | none => .ok [s!"invalid Git blob size: {display label entry.path}"]
    | some size =>
        if size < 0 ∨ size > maxPublicFileBytes then .ok [s!"oversized public file: {display label entry.path}"]
        else do
          let data ← git commands ["cat-file", "blob", entry.objectId]
          .ok (auditBytes isLetter label entry.path data)

/-- The failures found in a place, and the number of its entries. -/
structure Report where
  failures : List String
  count : Nat
deriving DecidableEq, Repr

/-- A record of a tree. -/
def auditTreeRecord (isLetter : Char → Bool) (commands : Commands) (label : String) (record : Bytes) :
    Except Stopped (List String) :=
  match readRecord record with
  | none => .ok [s!"malformed Git tree entry in {label}"]
  | some listed => auditGitEntry isLetter commands label ⟨listed.first, listed.second, listed.third, listed.path⟩

/-- `_audit_tree` -/
def auditTree (isLetter : Char → Bool) (commands : Commands) (treeish label : String) : Except Stopped Report := do
  let output ← git commands ["ls-tree", "-r", "-z", "--full-tree", treeish]
  let failures ← (records output).mapM (auditTreeRecord isLetter commands label)
  .ok ⟨failures.flatten, (records output).length⟩

/-- A record of the index. -/
def auditIndexRecord (isLetter : Char → Bool) (commands : Commands) (record : Bytes) : Except Stopped (List String) :=
  match readRecord record with
  | none => .ok ["malformed Git index entry"]
  | some listed => do
      let label := if listed.third = "0" then "index" else s!"index-stage-{listed.third}"
      let failures ← auditGitEntry isLetter commands label ⟨listed.first, "blob", listed.second, listed.path⟩
      .ok (failIf (listed.third ≠ "0") s!"unmerged Git index entry: {display label listed.path}" ++ failures)

/-- `_audit_index` -/
def auditIndex (isLetter : Char → Bool) (commands : Commands) : Except Stopped Report := do
  let output ← git commands ["ls-files", "--stage", "-z"]
  let failures ← (records output).mapM (auditIndexRecord isLetter commands)
  .ok ⟨failures.flatten, (records output).length⟩

/-! ### The working tree -/

/-- `OSError`, and whether it is a `FileNotFoundError`. -/
structure SystemError where
  missing : Bool
  message : String
deriving DecidableEq, Repr

/-- `stat.S_IFMT`, as far as the audit tells modes apart. -/
inductive FileKind where
  | regular
  | link
  | other
deriving DecidableEq, Repr

/-- `os.stat_result`, as far as the audit reads it. -/
structure FileStat where
  kind : FileKind
  device : Nat
  inode : Nat
  size : Int
deriving DecidableEq, Repr

/-- What the file system answers about a path, in the order of the questions. -/
structure Observed where
  listing : Except SystemError FileStat
  before : Except SystemError FileStat
  opening : Except SystemError Unit
  after : Except SystemError FileStat
  content : Except SystemError Bytes
  closing : Except SystemError Unit

/-- `_read_regular_worktree_file` behind `os.open`. -/
def readOpened (before : FileStat) (observed : Observed) : Except String Bytes := do
  let after ← observed.after.mapError SystemError.message
  raiseIf (after.kind ≠ .regular ∨ before.device ≠ after.device ∨ before.inode ≠ after.inode)
    "working-tree file changed during audit"
  raiseIf (after.size < 0 ∨ after.size > maxPublicFileBytes) "working-tree file exceeds the public size limit"
  let content ← observed.content.mapError SystemError.message
  -- `stream.read(MAX_PUBLIC_FILE_BYTES + 1)`
  let data := content.take (maxPublicFileBytes + 1)
  raiseIf (data.length > maxPublicFileBytes) "working-tree file grew beyond the public size limit"
  .ok data

/-- `_read_regular_worktree_file` -/
def readRegularWorktreeFile (observed : Observed) : Except String Bytes := do
  let before ← observed.before.mapError SystemError.message
  raiseIf (before.kind = .link) "symlink"
  raiseIf (before.kind ≠ .regular) "not a regular file"
  let _ ← observed.opening.mapError SystemError.message
  match observed.closing with
  | .error error => .error error.message
  | .ok _ => readOpened before observed

/-- `public_files`, each relative to the root. -/
def publicFiles (commands : Commands) : Except Stopped (List PosixPath) := do
  let output ← git commands ["ls-files", "--cached", "--others", "--exclude-standard", "-z"]
  let paths ← (records output).mapM fun value =>
    if DecodesStrictly value then .ok (posixPath value)
    else (.error (.value "Git path is not valid UTF-8") : Except Stopped PosixPath)
  .ok (paths.dedup.mergeSort fun left right => !decide (right.parts < left.parts))

/-- A file of the working tree. -/
def auditWorktreeFile (isLetter : Char → Bool) (observe : Bytes → Observed) (path : PosixPath) :
    Except Stopped Report :=
  let relative := path.asPosix
  let name := display "working" relative
  if path.root ≠ [] then .error (.outside relative)
  else
    match (observe relative).listing with
    | .error error => if error.missing then .ok ⟨[], 0⟩ else .error (.system error.message)
    | .ok metadata =>
        if metadata.kind = .link then .ok ⟨[s!"symlink is forbidden: {name}"], 1⟩
        else
          match readRegularWorktreeFile (observe relative) with
          | .error error =>
              .ok ⟨[s!"unreadable or non-regular file: {name}: {error}"], 1⟩
          | .ok data => .ok ⟨auditBytes isLetter "working" relative data, 1⟩

/-- Several reports as one. -/
def joined (reports : List Report) : Report := ⟨reports.flatMap Report.failures, (reports.map Report.count).sum⟩

/-- `_audit_worktree` -/
def auditWorktree (isLetter : Char → Bool) (commands : Commands) (observe : Bytes → Observed) :
    Except Stopped Report := do
  let paths ← publicFiles commands
  let reports ← paths.mapM (auditWorktreeFile isLetter observe)
  .ok (joined reports)

/-! ### The base of the history -/

/-- `_head_commit` -/
def headCommit (commands : Commands) : Except Stopped (Option String) :=
  match commands ["rev-parse", "--verify", "--quiet", "HEAD^{commit}"] with
  | none => .ok none
  | some output => (outputText output).map fun value => some (String.ofList value)

/-- `_validate_base` -/
def validateBase (commands : Commands) (value : String) : Except Stopped String := do
  throwIf (¬ isFullCommit value.toList) (.value "history base must be a full commit SHA")
  throwIf (commands ["cat-file", "-e", s!"{value}^\x7bcommit\x7d"] = none)
    (.value s!"history base is not available: {value}")
  .ok value

/-- The variables that the audit reads; one that is not set is empty. -/
structure AuditEnvironment where
  auditBase : String
  defaultBranch : String
  githubActions : String
deriving DecidableEq, Repr

/-- The symbols that the name of the default branch may have. -/
def isBranchSymbol (c : Char) : Bool := isWordASCII c || "./-".toList.contains c

/-- The names under which the default branch is looked for. -/
def defaultBranchCandidates (commands : Commands) (environment : AuditEnvironment) : Except Stopped (List String) := do
  let configured := environment.defaultBranch
  let named :=
    if configured ≠ "" ∧ configured.toList.all isBranchSymbol then [s!"refs/remotes/origin/{configured}", configured]
    else []
  match commands ["symbolic-ref", "--quiet", "--short", "refs/remotes/origin/HEAD"] with
  | none => .ok named.eraseDups
  | some output => do
      let value ← outputText output
      .ok (if value = [] then named else named ++ [String.ofList value]).eraseDups

/-- The first candidate that has a merge base with `HEAD`. -/
def firstMergeBase (commands : Commands) : List String → Except Stopped (Option String)
  | [] => .ok none
  | candidate :: rest =>
      match commands ["merge-base", "HEAD", candidate] with
      | none => firstMergeBase commands rest
      | some output => do
          let value ← outputText output
          if isFullCommit value then do
            let base ← validateBase commands (String.ofList value)
            .ok (some base)
          else firstMergeBase commands rest

/-- `_default_branch_merge_base` -/
def defaultBranchMergeBase (commands : Commands) (environment : AuditEnvironment) : Except Stopped (Option String) := do
  let candidates ← defaultBranchCandidates commands environment
  firstMergeBase commands candidates

/-- `ZERO_COMMIT` -/
def zeroCommit : String := String.ofList (List.replicate 40 '0')

/-- The base of the history, and whether all of it is audited. -/
structure HistoryBase where
  base : Option String
  scanAll : Bool
deriving DecidableEq, Repr

/-- The tracked branch, if the checkout has one. -/
def upstream (commands : Commands) : Except Stopped (List Char) :=
  match commands ["rev-parse", "--verify", "--quiet", "@{upstream}^{commit}"] with
  | none => .ok []
  | some output => outputText output

/-- `resolve_history_base` -/
def resolveHistoryBase (commands : Commands) (environment : AuditEnvironment) : Except Stopped HistoryBase :=
  if environment.auditBase ≠ "" then
    if environment.auditBase = zeroCommit then do
      let base ← defaultBranchMergeBase commands environment
      .ok ⟨base, base.isNone⟩
    else do
      let base ← validateBase commands environment.auditBase
      .ok ⟨some base, false⟩
  else do
    let tracked ← upstream commands
    if tracked ≠ [] then do
      let base ← validateBase commands (String.ofList tracked)
      .ok ⟨some base, false⟩
    else do
      let base ← defaultBranchMergeBase commands environment
      .ok ⟨base, base.isNone && environment.githubActions ≠ "true"⟩

/-! ### The audit -/

/-- `git rev-list --reverse` of a range, as a list. -/
def revList (commands : Commands) (range : String) : Except Stopped (List String) := do
  let output ← git commands ["rev-list", "--reverse", range]
  match decodeASCII output with
  | none => .error .notASCII
  | some text => .ok ((splitSpaces text).map String.ofList)

/-- The commits that are audited beside `HEAD`. -/
def historyCommits (commands : Commands) (head : Option String) (history : HistoryBase) :
    Except Stopped (List String) :=
  match head, history.base with
  | none, _ => .ok []
  | some head, some base => do
      let _ ← validateBase commands base
      revList commands s!"{base}..{head}"
  | some head, none => if history.scanAll then revList commands head else .ok []

/-- How a commit of the history is named in a failure. -/
def commitLabel (commit : String) : String := s!"commit-{String.ofList (commit.toList.take 12)}"

/-- `_audit_tree` of the commit that is checked out. -/
def auditHead (isLetter : Char → Bool) (commands : Commands) : Option String → Except Stopped Report
  | none => .ok ⟨[], 0⟩
  | some head => auditTree isLetter commands head "HEAD"

/-- `audit_repository` -/
def auditRepository (isLetter : Char → Bool) (commands : Commands) (observe : Bytes → Observed)
    (history : HistoryBase) : Except Stopped Report := do
  let head ← headCommit commands
  let checkedOut ← auditHead isLetter commands head
  let index ← auditIndex isLetter commands
  let worktree ← auditWorktree isLetter commands observe
  let commits ← historyCommits commands head history
  let older ← (commits.filter fun commit => some commit ≠ head).mapM fun commit =>
    auditTree isLetter commands commit (commitLabel commit)
  let all := joined (checkedOut :: index :: worktree :: older)
  .ok ⟨all.failures.dedup.mergeSort fun left right => !decide (right < left), all.count⟩

/-- How the script ends. -/
inductive Outcome where
  | passed (count : Nat)
  | failed (failures : List String)
  | stopped (error : Stopped)
deriving DecidableEq, Repr

/-- `main` -/
def main (isLetter : Char → Bool) (commands : Commands) (observe : Bytes → Observed) (environment : AuditEnvironment) :
    Outcome :=
  match (do
    let history ← resolveHistoryBase commands environment
    auditRepository isLetter commands observe history) with
  | .error error => .stopped error
  | .ok report => if report.failures = [] then .passed report.count else .failed report.failures

end ExitfyCores.Public
