/-
Module: ExitfyCores.Release.Schedule
Layer: Release
Purpose: Build jobs and publish jobs of one family's workflow runs in any order. Publish jobs are serialised by
  their concurrency group, and the publish job alone of an older run may run again.
Imports: ExitfyCores.Release.PublishHead, ExitfyCores.Release.Reservation
Trusted boundary: human-reviewed spec; what a build resolves upstream and what it freezes are arbitrary
Main exports: Built, Published, World, ScheduleCall, scheduleStep, NeverBackwards, Unrelated, NotOverlooked
Open obligations: none
-/
import ExitfyCores.Release.PublishHead
import ExitfyCores.Release.Reservation

namespace ExitfyCores.Release

open Py Git

/-- `--family` -/
def Family.key : Family → Text
  | .xray => text "xray"
  | .singBox => text "sing_box"

/-- What the tags of the family start with. -/
def Family.tagStart : Family → Text
  | .xray => text "xray"
  | .singBox => text "sb"

theorem familyPrefix_key (family : Family) : familyPrefix family.key = some family.tagStart := by
  cases family <;> decide

/-! ### Jobs -/

/-- A workflow run whose build job is done: what it hands to its publish job, and how many commits there were when
it read the releases. -/
structure Built where
  job : Job
  upstreamTag : Text
  releaseTag : Text
  commits : Nat

/-- A release that became public: the run, its wrapper commit, and how many commits there were. -/
structure Published where
  built : Built
  wrapper : Nat
  commits : Nat

def Published.version (release : Published) : List Nat := upstreamVersion release.built.upstreamTag

/-- The repository, the public releases, the runs that are built, the publish job that is running, and the releases
that became public, in their order. -/
structure World where
  repository : Repository
  releases : List Object
  built : List Built
  current : Option (Built × Stage)
  published : List Published

/-- No workflow has run yet; main, its pins and the public releases are as they may be. -/
def World.start (repository : Repository) (releases : List Object) : World where
  repository := repository
  releases := releases
  built := []
  current := none
  published := []

/-- The `resolve` step: the downgrade guard and the revision, both on the public releases. -/
def resolveTag (family : Family) (epoch : Nat) (releases : List Object) (upstreamTag : Text) (runNumber : Nat) :
    Except Text Text := do
  ensureNotDowngrade releases family.key upstreamTag
  let revision ← nextWrapperRevision releases (family.tagStart ++ text "-" ++ upstreamTag ++ text "-w")
    (.int (runOffset epoch runNumber))
  return releaseTag family.tagStart upstreamTag revision

/-- A build job on a commit of the repository; one that fails hands over nothing. -/
def buildStep (family : Family) (epoch : Nat) (world : World) (event : Nat) (upstreamTag : Text) (runNumber : Nat)
    (candidate : Candidate) (handoffSha : String) : World :=
  match resolveTag family epoch world.releases upstreamTag runNumber with
  | .error _ => world
  | .ok tag =>
      if event < world.repository.commits.length then
        { world with built := world.built ++
            [⟨⟨family, event, candidate, handoffSha⟩, upstreamTag, tag, world.repository.commits.length⟩] }
      else world

/-- The tag of a public release. -/
def publicTag (release : Object) : Option Text :=
  match release.get "draft", release.get "tag_name" with
  | .bool false, .str tag => some tag
  | _, _ => none

/-- What is listed of a release that the job made public. -/
def publicRelease (tag : Text) : Object :=
  [(text "tag_name", .str tag), (text "draft", .bool false), (text "prerelease", .bool false)]

/-- The end of a publish job at the creation of its release: the draft becomes public, unless the tag is already. -/
def releaseStep (world : World) : World :=
  match world.current with
  | some (built, .releasing wrapper) =>
      if ∃ release ∈ world.releases, publicTag release = some built.releaseTag then { world with current := none }
      else
        { world with
          current := none
          releases := world.releases ++ [publicRelease built.releaseTag]
          published := world.published ++ [⟨built, wrapper, world.repository.commits.length⟩] }
  | _ => world

inductive ScheduleCall where
  | build (event : Nat) (upstreamTag : Text) (runNumber : Nat) (candidate : Candidate) (handoffSha : String)
  | startPublish (index : Nat)
  | advance
  | publish
  | fail

def scheduleStep (sha256 : List UInt8 → String) (family : Family) (epoch : Nat) (world : World) :
    ScheduleCall → World
  | .build event upstreamTag runNumber candidate handoffSha =>
      buildStep family epoch world event upstreamTag runNumber candidate handoffSha
  | .startPublish index =>
      match world.current, world.built[index]? with
      | none, some built => { world with current := some (built, .checkedOut) }
      | _, _ => world
  | .advance =>
      match world.current with
      | none => world
      | some (built, stage) =>
          let next := advance sha256 built.job ⟨world.repository, stage⟩
          { world with repository := next.repository, current := some (built, next.stage) }
  | .publish => releaseStep world
  | .fail => { world with current := none }

/-! ### The law -/

/-- The upstream versions of the releases that became public never go backwards. -/
def NeverBackwards (world : World) : Prop := (world.published.map Published.version).Pairwise (· ≤ ·)

/-- No release of a higher version has the pins that the run's event commit has, or those that the run froze. -/
def Unrelated (world : World) (built : Built) : Prop :=
  ∀ release ∈ world.published, upstreamVersion built.upstreamTag < release.version →
    (∀ event, world.repository.commit built.job.event = some event →
      ¬ HasPins built.job.family event.tree release.built.job.candidate) ∧
    ∃ pin, built.job.candidate.pin pin ≠ release.built.job.candidate.pin pin

/-- The call starts no publish job that a release of a higher version is hidden from. -/
def NotOverlooked (world : World) : ScheduleCall → Prop
  | .startPublish index =>
      world.current = none → ∀ built, world.built[index]? = some built → Unrelated world built
  | _ => True

end ExitfyCores.Release
