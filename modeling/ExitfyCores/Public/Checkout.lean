/-
Module: ExitfyCores.Public.Checkout
Layer: Public
Purpose: The repository behind the commands that the public audit runs: its objects, what a checkout of it holds, what
  Git is documented to print about them, what makes a file, an entry and a commit clean, and the job that
  `audit-public.yml` runs for a push.
Imports: ExitfyCores.Lib.CommitGraph, ExitfyCores.Public.Repository
Trusted boundary: human-reviewed spec; `Documents` is the documented behaviour of Git, `JobCheckout` that of GitHub
  for a push whose tree carries this script
Main exports: Objects, Checkout, Documents, CleanFile, CleanEntry, CleanCommit, CleanIndex, CleanWorktree, Audits,
  pushEnvironment, JobCheckout, AuditPassed
Open obligations: none
-/
import ExitfyCores.Lib.CommitGraph
import ExitfyCores.Public.Repository

namespace ExitfyCores.Public

open ExitfyCores.Bundle CommitGraph

/-! ### What Git prints -/

/-- The bytes of ASCII text. -/
def ascii (text : String) : Bytes := text.toList.map byte

/-- Text that Git writes as one field. -/
def Word (text : String) : Prop := text ≠ "" ∧ ∀ c ∈ text.toList, 33 ≤ c.toNat ∧ c.toNat < 127

/-- A path as Git stores it. -/
def StoredPath (path : Bytes) : Prop := path ≠ [] ∧ 0 ∉ path

/-- Three fields, a tab and a path. -/
def renderRecord (first second third : String) (path : Bytes) : Bytes :=
  ascii first ++ 32 :: (ascii second ++ 32 :: (ascii third ++ 9 :: path))

/-- An entry of the index. -/
structure IndexEntry where
  mode : String
  objectId : String
  stage : String
  path : Bytes
deriving DecidableEq, Repr

/-- A record of `git ls-tree -r -z`. -/
def GitEntry.render (entry : GitEntry) : Bytes :=
  renderRecord entry.mode entry.objectType entry.objectId entry.path ++ [0]

/-- A record of `git ls-files --stage -z`. -/
def IndexEntry.render (entry : IndexEntry) : Bytes :=
  renderRecord entry.mode entry.objectId entry.stage entry.path ++ [0]

def GitEntry.Stored (entry : GitEntry) : Prop :=
  Word entry.mode ∧ Word entry.objectType ∧ Word entry.objectId ∧ StoredPath entry.path

def IndexEntry.Stored (entry : IndexEntry) : Prop :=
  Word entry.mode ∧ Word entry.objectId ∧ Word entry.stage ∧ StoredPath entry.path

/-- One line. -/
def line (text : String) : Bytes := ascii text ++ [10]

/-- The objects of a repository: the parents and the entries of each commit, and the bytes of each blob. -/
structure Objects where
  parents : String → List String
  tree : String → List GitEntry
  blob : String → Option Bytes

/-- A checkout: its commits, the one that is checked out, its index, the paths of its public files, and the commits
    that names stand for. -/
structure Checkout where
  available : String → Prop
  head : Option String
  index : List IndexEntry
  files : List Bytes
  named : String → Option String

/-- The commands print what Git is documented to print in a checkout. -/
structure Documents (objects : Objects) (checkout : Checkout) (commands : Commands) : Prop where
  names : ∀ commit, checkout.available commit → isFullCommit commit.toList = true
  headAvailable : ∀ head, checkout.head = some head → checkout.available head
  treeStored : ∀ commit, checkout.available commit → ∀ entry ∈ objects.tree commit, entry.Stored
  indexStored : ∀ entry ∈ checkout.index, entry.Stored
  filesStored : ∀ path ∈ checkout.files, StoredPath path
  complete : ∀ commit, checkout.available commit → ∀ parent ∈ objects.parents commit, checkout.available parent
  head : commands ["rev-parse", "--verify", "--quiet", "HEAD^{commit}"] = checkout.head.map line
  tree : ∀ commit, checkout.available commit →
    commands ["ls-tree", "-r", "-z", "--full-tree", commit] = some ((objects.tree commit).flatMap GitEntry.render)
  index : commands ["ls-files", "--stage", "-z"] = some (checkout.index.flatMap IndexEntry.render)
  files : commands ["ls-files", "--cached", "--others", "--exclude-standard", "-z"] =
    some (checkout.files.flatMap fun path => path ++ [0])
  size : ∀ object data, objects.blob object = some data →
    commands ["cat-file", "-s", object] = some (line (toString data.length))
  content : ∀ object, commands ["cat-file", "blob", object] = objects.blob object
  existence : ∀ commit, isFullCommit commit.toList = true →
    (commands ["cat-file", "-e", s!"{commit}^\x7bcommit\x7d"] ≠ none ↔ checkout.available commit)
  range : ∀ base head, checkout.available base → checkout.available head →
    ∃ commits : List String, commands ["rev-list", "--reverse", s!"{base}..{head}"] = some (commits.flatMap line) ∧
      ∀ commit, commit ∈ commits ↔ InRange objects.parents base head commit
  history : ∀ head, checkout.available head →
    ∃ commits : List String, commands ["rev-list", "--reverse", head] = some (commits.flatMap line) ∧
      ∀ commit, commit ∈ commits ↔ Reaches objects.parents head commit
  mergeBase : ∀ name output, commands ["merge-base", "HEAD", name] = some output →
    ∃ base tip, output = line base ∧ isFullCommit base.toList = true ∧ checkout.named name = some tip ∧
      Reaches objects.parents tip base

/-! ### Clean files -/

/-- The host paths that `LOCAL_HOST_PATHS` look for. -/
def hostRoots : List String := ["/home", "/root", "/private/tmp", "/private/var/folders", "/opt/homebrew"]

/-- A host path stands in a text: behind no word symbol of ASCII, and not within a longer name. -/
def HostPath (isLetter : Char → Bool) (root : String) (text : List Char) : Prop :=
  ∃ before after, text = before ++ root.toList ++ after ∧ (∀ c ∈ before.getLast?, isWordASCII c = false) ∧
    ∀ c ∈ after.head?, isWord isLetter c = false

/-- A reference to this repository, or one that a full commit pins. -/
def Pinned (reference : List Char) : Prop :=
  "./".toList <+: reference ∨
    ∃ action revision, action ≠ [] ∧ reference = action ++ '@' :: revision ∧ isFullCommit revision = true

/-- A file that may be public. -/
structure CleanFile (isLetter : Char → Bool) (relative data : Bytes) : Prop where
  noPointer : ¬ gitLfsPointerHeader <+: data
  suffix : lowerText (posixPath relative).suffix ∉ forbiddenSuffixes.map String.toList
  source : "tmessagesproj".toList ∉ (posixPath relative).parts.map lowerText
  namespaces : ∀ forbidden ∈ [["com".toList, "exteragram".toList], ["org".toList, "telegram".toList]],
    ¬ forbidden <:+: (posixPath relative).parts.map lowerText
  noNul : 0 ∉ data
  format : ∀ start ∈ binaryStarts, ¬ start <+: data
  utf8 : DecodesStrictly data
  references : ∀ forbidden ∈ forbiddenText, ¬ forbidden.toList.map Char.toLower <:+: lowerText data
  hostPaths : ∀ root ∈ hostRoots, ¬ HostPath isLetter root (runes data)
  pinned : usesActions relative = true → ∀ reference ∈ actionUses (runes data), Pinned reference
  emulator : usesActions relative = true → ¬ "reactivecircus/android-emulator-runner".toList <:+: runes data

/-- A regular file of a tree or of the index that may be public. -/
def CleanEntry (isLetter : Char → Bool) (objects : Objects) (entry : GitEntry) : Prop :=
  entry.mode ∈ regularGitModes ∧ entry.objectType = "blob" ∧ DecodesStrictly entry.path ∧
    ∃ data, objects.blob entry.objectId = some data ∧ data.length ≤ maxPublicFileBytes ∧
      CleanFile isLetter entry.path data

def CleanCommit (isLetter : Char → Bool) (objects : Objects) (commit : String) : Prop :=
  ∀ entry ∈ objects.tree commit, CleanEntry isLetter objects entry

def CleanIndex (isLetter : Char → Bool) (objects : Objects) (index : List IndexEntry) : Prop :=
  ∀ entry ∈ index, entry.stage = "0" ∧ CleanEntry isLetter objects ⟨entry.mode, "blob", entry.objectId, entry.path⟩

/-- A regular file was read whole, the same one from the first question on. -/
structure ReadWhole (observed : Observed) (data : Bytes) : Prop where
  listing : ∃ metadata, observed.listing = .ok metadata ∧ metadata.kind ≠ .link
  identity : ∃ before after, observed.before = .ok before ∧ observed.after = .ok after ∧ before.kind = .regular ∧
    after.kind = .regular ∧ before.device = after.device ∧ before.inode = after.inode ∧
    0 ≤ after.size ∧ after.size ≤ maxPublicFileBytes
  opening : observed.opening = .ok ()
  content : observed.content = .ok data
  fits : data.length ≤ maxPublicFileBytes
  closing : observed.closing = .ok ()

/-- A listed path is gone, or the file there was read whole and may be public. -/
def CleanWorktreeFile (isLetter : Char → Bool) (observe : Bytes → Observed) (path : Bytes) : Prop :=
  DecodesStrictly path ∧ (posixPath path).root = [] ∧
    ((∃ error, (observe (posixPath path).asPosix).listing = .error error ∧ error.missing = true) ∨
      ∃ data, ReadWhole (observe (posixPath path).asPosix) data ∧ CleanFile isLetter (posixPath path).asPosix data)

def CleanWorktree (isLetter : Char → Bool) (observe : Bytes → Observed) (files : List Bytes) : Prop :=
  ∀ path ∈ files, CleanWorktreeFile isLetter observe path

/-- The commits that an audit from a base on looks at. -/
def Audits (objects : Objects) (checkout : Checkout) (history : HistoryBase) (commit : String) : Prop :=
  ∃ head, checkout.head = some head ∧
    (commit = head ∨ (∃ base, history.base = some base ∧ InRange objects.parents base head commit) ∨
      history.base = none ∧ history.scanAll = true ∧ Reaches objects.parents head commit)

/-! ### The job of a push -/

/-- The environment that `audit-public.yml` sets for a push; `event.before` is zeros for a ref that was not there. -/
def pushEnvironment (defaultBranch : String) (push : Push String String) : AuditEnvironment where
  auditBase := push.before.getD zeroCommit
  defaultBranch := defaultBranch
  githubActions := "true"

/-- The ref of a branch. -/
def branchRef (branch : String) : String := "refs/heads/" ++ branch

/-- The checkout of a job: the pushed commit is checked out, and what is looked up as the default branch is a commit
    that the default branch has had by then. -/
structure JobCheckout (objects : Objects) (first : String → Option String) (defaultBranch : String)
    (hub : Hub String String) (push : Push String String) (checkout : Checkout) (commands : Commands) : Prop where
  documents : Documents objects checkout commands
  head : checkout.head = some push.after
  before : ∀ base, push.before = some base → isFullCommit base.toList = true ∧ base ≠ zeroCommit
  candidates : ∀ candidates, defaultBranchCandidates commands (pushEnvironment defaultBranch push) = .ok candidates →
    ∀ candidate ∈ candidates, ∀ tip, checkout.named candidate = some tip → hub.Had first (branchRef defaultBranch) tip

/-- The job of a push passed. -/
def AuditPassed (isLetter : Char → Bool) (objects : Objects) (first : String → Option String) (defaultBranch : String)
    (hub : Hub String String) (push : Push String String) : Prop :=
  ∃ checkout commands observe count, JobCheckout objects first defaultBranch hub push checkout commands ∧
    main isLetter commands observe (pushEnvironment defaultBranch push) = .passed count

end ExitfyCores.Public
