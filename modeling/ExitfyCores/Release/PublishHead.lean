/-
Module: ExitfyCores.Release.PublishHead
Layer: Release
Purpose: The steps of the `publish` jobs of `publish-xray-core-v2.yml` and `publish-singbox-core-v2.yml` up to the
  creation of the release, on a main branch that others move between them.
Imports: ExitfyCores.Lib.Git, ExitfyCores.Lib.History, ExitfyCores.Lib.Raise
Trusted boundary: human-reviewed spec; `sha256sum` is the parameter `sha256`, about which nothing is assumed. What the
  scripts that only read decide is left out: a job may fail before each of its steps.
Main exports: Family, Pin, Candidate, Job, validateFrozenHead, pinFrozenHead, auditTree, confirmMain, Stage, Call,
  step, Replaced, HasPins, Provenance
Open obligations: none
-/
import ExitfyCores.Lib.Git
import ExitfyCores.Lib.History
import ExitfyCores.Lib.Raise

namespace ExitfyCores.Release

open Git

/-! ### Families and candidates -/

inductive Family where
  | xray
  | singBox
deriving DecidableEq, Repr

inductive Pin where
  | goMod
  | goSum
deriving DecidableEq, Repr

def pins : List Pin := [.goMod, .goSum]

theorem mem_pins (pin : Pin) : pin ∈ pins := by
  cases pin <;> decide

def Pin.name : Pin → String
  | .goMod => "go.mod"
  | .goSum => "go.sum"

def Family.other : Family → Family
  | .xray => .singBox
  | .singBox => .xray

/-- How the workflow of the family calls it. -/
def Family.label : Family → String
  | .xray => "Xray"
  | .singBox => "sing-box"

/-- Where the pins of a family lie. -/
def Family.directory : Family → String
  | .xray => ""
  | .singBox => "singbox/"

def Family.pinPath (family : Family) (pin : Pin) : String := family.directory ++ pin.name

/-- The pin files of a family. -/
def Family.pinPaths (family : Family) : List String := pins.map family.pinPath

/-- The downloaded candidate: what is no regular file is missing. -/
structure Candidate where
  handoff : Option (List UInt8)
  pin : Pin → Option (List UInt8)

/-- What a publish job is given: `GITHUB_SHA`, the candidate and `HANDOFF_SHA`. -/
structure Job where
  family : Family
  event : Nat
  candidate : Candidate
  handoffSha : String

/-! ### Validate frozen publish head before local code -/

/-- `^[0-9a-f]{64}$` -/
def IsDigest (value : String) : Prop :=
  value.toList.length = 64 ∧ ∀ c ∈ value.toList, ('0' ≤ c ∧ c ≤ '9') ∨ ('a' ≤ c ∧ c ≤ 'f')

-- The digits are checked along the text: a library instance for characters would go through all of them.
instance (value : String) : Decidable (IsDigest value) :=
  @instDecidableAnd _ _ _ (List.decidableBAll (fun c => ('0' ≤ c ∧ c ≤ '9') ∨ ('a' ≤ c ∧ c ≤ 'f')) value.toList)

def maxHandoffSize : Nat := 1048576

def maxPinSize : Nat := 16777216

/-- The handoff is the file that the build job named. -/
def validateHandoff (sha256 : List UInt8 → String) (job : Job) : Except String Unit :=
  match job.candidate.handoff with
  | none => .error "candidate handoff is not a regular file"
  | some handoff => do
      throwIf (¬ IsDigest job.handoffSha) "candidate handoff is not a regular file"
      throwIf (handoff.length = 0 ∨ maxHandoffSize < handoff.length ∨ sha256 handoff ≠ job.handoffSha)
        "candidate handoff does not match the immutable build output"

def validatePin (job : Job) (pin : Pin) : Except String Unit :=
  match job.candidate.pin pin with
  | none => .error s!"candidate pin is not a regular file: {pin.name}"
  | some content => throwIf (maxPinSize < content.length) s!"candidate pin has an invalid size: {pin.name}"

/-- `own_count` and `foreign_count` -/
structure Counts where
  own : Nat
  foreign : Nat

/-- The path is a regular file that the change modifies. -/
def ModifiedRegular (old new : Tree) (path : String) : Prop :=
  status (old.get path) (new.get path) = .modified ∧ (old.get path).map Entry.mode = some .regular ∧
    (new.get path).map Entry.mode = some .regular

instance (old new : Tree) (path : String) : Decidable (ModifiedRegular old new path) :=
  inferInstanceAs (Decidable (_ ∧ _))

/-- One turn of the loop over the changed files. -/
def countChange (family : Family) (old new : Tree) (counts : Counts) (path : String) : Except String Counts :=
  if ¬ ModifiedRegular old new path then
    .error s!"publish-head pin changes must be M-only regular files: {path}"
  else if path ∈ family.pinPaths then .ok { counts with own := counts.own + 1 }
  else if path ∈ family.other.pinPaths then .ok { counts with foreign := counts.foreign + 1 }
  else .error s!"main changed outside the {family.label} pin: {path}"

/-- The pin in the tree is the candidate's. -/
def comparePin (job : Job) (tree : Tree) (pin : Pin) : Except String Unit :=
  throwIf ((tree.get (job.family.pinPath pin)).map Entry.content ≠ job.candidate.pin pin)
    s!"direct-child {job.family.label} pin differs from the candidate: {pin.name}"

/-- The check on a head that is not the workflow event. -/
def validateDirectChild (job : Job) (repository : Repository) (head : Nat) : Except String Unit :=
  match repository.commit job.event, repository.commit head with
  | some event, some child => do
      throwIf (repository.distance job.event head ≠ 1 ∨ child.parents.head? ≠ some job.event)
        "main is not one direct child of the workflow event"
      let counts ← (changedPaths event.tree child.tree).foldlM (countChange job.family event.tree child.tree) ⟨0, 0⟩
      throwIf (counts.own + counts.foreign = 0 ∨ (0 < counts.own ∧ 0 < counts.foreign))
        "direct child must change exactly one core family's pins"
      (if 0 < counts.own then pins.forM (comparePin job child.tree) else .ok ())
  | _, _ => .error "unknown revision"

/-- The step gives the commit that the job goes on from. -/
def validateFrozenHead (sha256 : List UInt8 → String) (job : Job) (repository : Repository) : Except String Nat := do
  validateHandoff sha256 job
  pins.forM (validatePin job)
  (if repository.main = job.event then .ok () else validateDirectChild job repository repository.main)
  return repository.main

/-! ### Commit exact frozen pin -/

/-- Some file of the tree lies in the directory. -/
def HasDirectory (tree : Tree) (directory : String) : Prop :=
  ∃ path ∈ tree.paths, directory.toList <+: path.toList

instance (tree : Tree) (directory : String) : Decidable (HasDirectory tree directory) :=
  inferInstanceAs (Decidable (∃ path ∈ tree.paths, _))

/-- `cp`, `cmp` and `git add` of one pin. A copy keeps the mode of the file that it overwrites, and it goes through
a link, which stays as it is. -/
def stagePin (job : Job) (tree : Tree) (pin : Pin) : Except String Tree :=
  let path := job.family.pinPath pin
  match job.candidate.pin pin with
  | none => .error s!"cp: cannot stat '{pin.name}'"
  | some content =>
      match tree.get path with
      | some ⟨.link, _⟩ => .ok tree
      | some ⟨.submodule, _⟩ => .error s!"cmp: {path}: Is a directory"
      | some ⟨mode, _⟩ => .ok (tree.set path ⟨mode, content⟩)
      | none =>
          if HasDirectory tree (path ++ "/") then .error s!"cmp: {path}: Is a directory"
          else if job.family.directory = "" ∨ HasDirectory tree job.family.directory then
            .ok (tree.set path ⟨.regular, content⟩)
          else .error s!"cp: cannot create regular file '{path}'"

/-- `git commit` and `git push origin HEAD:main` -/
def commitPin (job : Job) (repository : Repository) (frozen : Nat) (old staged : Tree) :
    Except String (Repository × Nat) := do
  throwIf (∃ path ∈ changedPaths old staged, path ∉ job.family.pinPaths) "staged change outside the pins"
  if known : frozen < repository.commits.length then
    let pushed ← (repository.add frozen known staged).push repository.commits.length
    return (pushed, repository.commits.length)
  else throw "unknown revision"

/-- The step gives the wrapper commit. -/
def pinFrozenHead (job : Job) (repository : Repository) (frozen : Nat) : Except String (Repository × Nat) :=
  match repository.commit frozen with
  | none => .error "unknown revision"
  | some commit => do
      let staged ← pins.foldlM (stagePin job) commit.tree
      if changedPaths commit.tree staged = [] then return (repository, frozen)
      else commitPin job repository frozen commit.tree staged

/-! ### The later steps -/

/-- The modes that `audit_public_tree.py` lets into a tree. -/
def regularGitModes : List Mode := [.regular, .executable]

/-- What the audit in the step of the manifest says of the modes in the tree. -/
def auditTree (repository : Repository) (wrapper : Nat) : Except String Unit :=
  match repository.commit wrapper with
  | none => .error "unknown revision"
  | some commit =>
      throwIf (∃ entry ∈ commit.tree.entries, entry.2.mode ∉ regularGitModes) "public-tree audit failed"

/-- Confirm main still equals the wrapper commit. -/
def confirmMain (repository : Repository) (wrapper : Nat) : Except String Unit :=
  throwIf (repository.main ≠ wrapper) "main changed after the wrapper pin was selected"

/-! ### The job among others -/

/-- Where the job stands. In `releasing` it has reached the creation of the release. -/
inductive Stage where
  | checkedOut
  | frozen (head : Nat)
  | pinned (wrapper : Nat)
  | audited (wrapper : Nat)
  | releasing (wrapper : Nat)
  | failed (message : String)
deriving DecidableEq, Repr

/-- The repository and the job. -/
structure Publication where
  repository : Repository
  stage : Stage

/-- A step that only reads leads to the next stage or fails. -/
def reading {α : Type} (repository : Repository) (outcome : Except String α) (next : α → Stage) : Publication :=
  match outcome with
  | .ok a => ⟨repository, next a⟩
  | .error message => ⟨repository, .failed message⟩

/-- The next step of the job. -/
def advance (sha256 : List UInt8 → String) (job : Job) (publication : Publication) : Publication :=
  let repository := publication.repository
  match publication.stage with
  | .checkedOut => reading repository (validateFrozenHead sha256 job repository) .frozen
  | .frozen head =>
      match pinFrozenHead job repository head with
      | .ok (pushed, wrapper) => ⟨pushed, .pinned wrapper⟩
      | .error message => ⟨repository, .failed message⟩
  | .pinned wrapper => reading repository (auditTree repository wrapper) fun _ => .audited wrapper
  | .audited wrapper => reading repository (confirmMain repository wrapper) fun _ => .releasing wrapper
  | .releasing _ => publication
  | .failed _ => publication

/-- The job takes a step or fails, or others add commits and move the branch as they like. -/
inductive PublishCall where
  | advance
  | fail (message : String)
  | others (next : Repository)

def publishStep (sha256 : List UInt8 → String) (job : Job) (publication : Publication) :
    PublishCall → Publication
  | .advance => advance sha256 job publication
  | .fail message => { publication with stage := .failed message }
  | .others next =>
      if publication.repository.commits <+: next.commits then { publication with repository := next }
      else publication

/-! ### Provenance -/

/-- The tree is the base with the pins of the family replaced by the candidate's, each in the mode that it had. -/
structure Replaced (family : Family) (candidate : Candidate) (base tree : Tree) : Prop where
  own : ∀ pin, ∃ mode content, tree.get (family.pinPath pin) = some ⟨mode, content⟩ ∧
    candidate.pin pin = some content ∧ ∀ old, base.get (family.pinPath pin) = some old → old.mode = mode
  rest : ∀ path, path ∉ family.pinPaths → tree.get path = base.get path

/-- The two trees differ in the pin files of the family at most. -/
def OnlyPins (family : Family) (old new : Tree) : Prop :=
  ∀ path, path ∉ family.pinPaths → new.get path = old.get path

/-- The pins of the family in the tree are the candidate's. -/
def HasPins (family : Family) (tree : Tree) (candidate : Candidate) : Prop :=
  ∀ pin, (tree.get (family.pinPath pin)).map Entry.content = candidate.pin pin

/-- The wrapper commit has the tree of the workflow event with the candidate's pins, or that of one direct child of
the event, which changes the pins of the other family only, with the candidate's pins. -/
def Provenance (job : Job) (repository : Repository) (wrapper : Nat) : Prop :=
  ∃ event commit, repository.commit job.event = some event ∧ repository.commit wrapper = some commit ∧
    (Replaced job.family job.candidate event.tree commit.tree ∨
      ∃ id child, repository.commit id = some child ∧ child.parents.head? = some job.event ∧
        OnlyPins job.family.other event.tree child.tree ∧
        Replaced job.family job.candidate child.tree commit.tree)

end ExitfyCores.Release
