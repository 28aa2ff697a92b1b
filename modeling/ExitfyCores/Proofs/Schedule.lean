/-
Module: ExitfyCores.Proofs.Schedule
Layer: Proofs
Purpose: When the downgrade guard of the build jobs and the head guard of the publish jobs keep the published
  upstream versions from going backwards, and a schedule in which they do not.
Imports: ExitfyCores.Proofs.PublishHead, ExitfyCores.Release.Schedule
Trusted boundary: none
Main exports: Placed, Kept, validateFrozenHead_noneHigher, scheduleStep_kept, neverBackwards,
  not_neverBackwards_rerun
Open obligations: none
-/
import ExitfyCores.Proofs.PublishHead
import ExitfyCores.Release.Schedule

namespace ExitfyCores.Release

open Py Git History

variable {sha256 : List UInt8 → String} {family : Family} {epoch : Nat}

/-! ### Where a published release lies -/

/-- The wrapper commit of a release has its pins. Main is there or has gone on to younger commits, each of which
descends from the wrapper commit by first parents. -/
structure Placed (family : Family) (repository : Repository) (release : Published) : Prop where
  pinned : ∃ commit, repository.commit release.wrapper = some commit ∧
    HasPins family commit.tree release.built.job.candidate
  wrapper : release.wrapper < release.commits
  commits : release.commits ≤ repository.commits.length
  main : repository.main = release.wrapper ∨ release.commits ≤ repository.main
  chain : ∀ id commit, release.commits ≤ id → repository.commit id = some commit →
    ∃ parent, commit.parents.head? = some parent ∧ (parent = release.wrapper ∨ release.commits ≤ parent)

/-- A child of main to which main moves. -/
theorem Placed.grown {repository next : Repository} {release : Published} {staged : Tree}
    (placed : Placed family repository release)
    (commits : next.commits = repository.commits ++ [⟨[repository.main], staged⟩])
    (moved : next.main = repository.commits.length) : Placed family next release := by
  have extended : repository.commits <+: next.commits := by
    rw [commits]
    exact List.prefix_append _ _
  constructor
  · obtain ⟨commit, found, pinned⟩ := placed.pinned
    exact ⟨commit, commit_of_prefix extended found, pinned⟩
  · exact placed.wrapper
  · exact Nat.le_trans placed.commits extended.length_le
  · exact Or.inr (moved ▸ placed.commits)
  · intro id commit younger found
    rcases Nat.lt_or_ge id repository.commits.length with old | new
    · apply placed.chain id commit younger
      simpa [Repository.commit, commits, List.getElem?_append_left old] using found
    · have isLast : id = repository.commits.length := by
        have inside := Repository.commit_lt found
        simp only [commits, List.length_append, List.length_singleton] at inside
        omega
      have isChild : commit = ⟨[repository.main], staged⟩ := by
        simpa [Repository.commit, commits, isLast, eq_comm] using found
      exact ⟨repository.main, by simp [isChild], placed.main⟩

/-! ### The invariant -/

/-- No release of a version above the run's is public. -/
def NoneHigher (world : World) (built : Built) : Prop :=
  ∀ release ∈ world.published, release.version ≤ upstreamVersion built.upstreamTag

/-- What holds of the publish job at its stage. -/
def Running (world : World) (built : Built) : Stage → Prop
  | .checkedOut => Unrelated world built
  | .frozen head => world.repository.main = head ∧ NoneHigher world built
  | .pinned wrapper => world.repository.main = wrapper ∧ NoneHigher world built
  | .audited wrapper => world.repository.main = wrapper ∧ NoneHigher world built
  | .releasing wrapper => world.repository.main = wrapper ∧ NoneHigher world built
  | .failed _ => True

/-- What every schedule keeps. -/
structure Kept (family : Family) (world : World) : Prop where
  sameFamily : ∀ built ∈ world.built, built.job.family = family
  known : ∀ built ∈ world.built,
    built.job.event < built.commits ∧ built.commits ≤ world.repository.commits.length
  tagged : ∀ built ∈ world.built, ∃ groups revision, upstreamGroups built.upstreamTag = some groups ∧
    0 < revision ∧ built.releaseTag = releaseTag family.tagStart built.upstreamTag revision
  guarded : ∀ built ∈ world.built, ∀ release ∈ world.published,
    release.version ≤ upstreamVersion built.upstreamTag ∨ built.commits ≤ release.commits
  listed : ∀ release ∈ world.published, ∃ object ∈ world.releases,
    publishedVersion family.tagStart object = some release.version
  placed : ∀ release ∈ world.published, Placed family world.repository release
  ordered : NeverBackwards world
  running : ∀ built stage, world.current = some (built, stage) →
    built ∈ world.built ∧ StageInvariant built.job ⟨world.repository, stage⟩ ∧ Running world built stage

/-! ### The head guard -/

theorem pinPath_not_mem_other (family : Family) (pin : Pin) : family.pinPath pin ∉ family.other.pinPaths := by
  cases family <;> cases pin <;> decide

theorem HasPins.unique {tree : Tree} {first second : Candidate} (one : HasPins family tree first)
    (two : HasPins family tree second) (pin : Pin) : first.pin pin = second.pin pin := by
  rw [← one pin, two pin]

/-- A direct child that changes the other family's pins has the pins of the event. -/
theorem HasPins.ofForeign {event head : Tree} {candidate : Candidate} (foreign : OnlyPins family.other event head)
    (pinned : HasPins family head candidate) : HasPins family event candidate := by
  intro pin
  rw [← pinned pin, foreign _ (pinPath_not_mem_other family pin)]

/-- The head guard of a run that was built before a higher version became public rejects every head, unless the run
has something to do with the pins of that version. -/
theorem validateFrozenHead_noneHigher {world : World} {built : Built} {head : Nat} (kept : Kept family world)
    (member : built ∈ world.built) (unrelated : Unrelated world built)
    (passed : validateFrozenHead sha256 built.job world.repository = .ok head) : NoneHigher world built := by
  intro release isPublic
  by_contra notBelow
  have higher := not_le.mp notBelow
  have ofFamily := kept.sameFamily built member
  obtain ⟨apart, pin, differ⟩ := unrelated release isPublic higher
  rw [ofFamily] at apart
  have placed := kept.placed release isPublic
  obtain ⟨commit, foundWrapper, pinned⟩ := placed.pinned
  -- The event is older than the release, and it is not its wrapper commit.
  have early : built.job.event < release.commits := by
    rcases kept.guarded built member release isPublic with lower | before
    · exact absurd lower notBelow
    · exact Nat.lt_of_lt_of_le (kept.known built member).1 before
  have notEvent : built.job.event ≠ release.wrapper := by
    intro same
    exact apart commit (same ▸ foundWrapper) pinned
  obtain ⟨isMain, isEvent | ⟨event, child, foundEvent, foundChild, direct⟩⟩ := validateFrozenHead_eq_ok passed
  · rcases placed.main with atWrapper | later
    · exact notEvent (isEvent.symm.trans (isMain.trans atWrapper))
    · omega
  · rcases placed.main with atWrapper | later
    · -- The head is the wrapper commit of the release.
      have isCommit : child = commit := by
        rw [isMain, atWrapper, foundWrapper] at foundChild
        exact (Option.some.inj foundChild).symm
      subst isCommit
      rcases direct.change with ⟨_, own⟩ | foreign
      · rw [ofFamily] at own
        exact differ (own.unique pinned pin)
      · rw [ofFamily] at foreign
        exact apart event foundEvent (HasPins.ofForeign foreign pinned)
    · -- The head is younger than the release, so its parent is the wrapper commit or younger too.
      obtain ⟨parent, isParent, descends⟩ := placed.chain head child (isMain ▸ later) foundChild
      rw [direct.parent] at isParent
      cases isParent
      rcases descends with same | younger
      · exact notEvent same
      · omega

/-! ### The steps -/

theorem resolveTag_eq_ok {releases : List Object} {upstreamTag tag : Text} {runNumber : Nat}
    (resolved : resolveTag family epoch releases upstreamTag runNumber = .ok tag) :
    (∃ groups revision, upstreamGroups upstreamTag = some groups ∧ 0 < revision ∧
      tag = releaseTag family.tagStart upstreamTag revision) ∧
      ∀ object ∈ releases, ∀ version, publishedVersion family.tagStart object = some version →
        version ≤ upstreamVersion upstreamTag := by
  obtain ⟨_, guarded, resolved⟩ := bind_eq_ok resolved
  obtain ⟨revision, chosen, resolved⟩ := bind_eq_ok resolved
  cases resolved
  obtain ⟨⟨groups, upstream⟩, notBelow⟩ := ensureNotDowngrade_le (familyPrefix_key family) guarded
  refine ⟨⟨groups, revision, upstream, ?_, rfl⟩, notBelow⟩
  rw [nextWrapperRevision_eq chosen]
  have atLeast := publicMaximum_le_append (family.tagStart ++ text "-" ++ upstreamTag ++ text "-w") [] releases
  exact Nat.lt_of_lt_of_le Nat.one_pos (Nat.le_trans atLeast (Nat.le_add_right _ _))

theorem buildStep_kept {world : World} {event runNumber : Nat} {upstreamTag : Text} {candidate : Candidate}
    {handoffSha : String} (kept : Kept family world) :
    Kept family (buildStep family epoch world event upstreamTag runNumber candidate handoffSha) := by
  unfold buildStep
  split
  · exact kept
  · rename_i tag resolved
    obtain ⟨tagged, notBelow⟩ := resolveTag_eq_ok resolved
    split
    · rename_i known
      exact {
        sameFamily := List.forall_mem_append.mpr ⟨kept.sameFamily, List.forall_mem_singleton.mpr rfl⟩
        known := List.forall_mem_append.mpr ⟨kept.known, List.forall_mem_singleton.mpr ⟨known, Nat.le_refl _⟩⟩
        tagged := List.forall_mem_append.mpr ⟨kept.tagged, List.forall_mem_singleton.mpr tagged⟩
        guarded := by
          intro built member release isPublic
          rcases List.mem_append.mp member with old | new
          · exact kept.guarded built old release isPublic
          · rw [List.mem_singleton.mp new]
            obtain ⟨object, isListed, version⟩ := kept.listed release isPublic
            exact Or.inl (notBelow object isListed _ version)
        listed := kept.listed
        placed := kept.placed
        ordered := kept.ordered
        running := by
          intro built stage isCurrent
          obtain ⟨member, invariant, running⟩ := kept.running built stage isCurrent
          refine ⟨List.mem_append_left _ member, invariant, ?_⟩
          cases stage <;> exact running }
    · exact kept

theorem startPublish_kept {world : World} {index : Nat} (kept : Kept family world)
    (admitted : NotOverlooked world (.startPublish index)) :
    Kept family (scheduleStep sha256 family epoch world (.startPublish index)) := by
  unfold scheduleStep
  dsimp only
  split
  · rename_i built idle found
    refine { kept with running := ?_ }
    intro other stage isCurrent
    cases isCurrent
    exact ⟨List.mem_of_getElem? found, trivial, admitted idle built found⟩
  · exact kept

theorem fail_kept {world : World} (kept : Kept family world) : Kept family { world with current := none } :=
  { kept with running := by simp }

/-- The publish job goes on without a change to the repository. -/
theorem Kept.moved {world : World} {built : Built} {stage next : Stage} (kept : Kept family world)
    (isCurrent : world.current = some (built, stage))
    (invariant : StageInvariant built.job ⟨world.repository, next⟩) (running : Running world built next) :
    Kept family { world with current := some (built, next) } := by
  refine { kept with running := ?_ }
  intro other arrived same
  cases same
  refine ⟨(kept.running built stage isCurrent).1, invariant, ?_⟩
  cases next <;> exact running

/-- The publish job adds the commit of its pins. -/
theorem Kept.grown {world : World} {built : Built} {stage : Stage} {repository : Repository} {staged : Tree}
    (kept : Kept family world) (isCurrent : world.current = some (built, stage))
    (commits : repository.commits = world.repository.commits ++ [⟨[world.repository.main], staged⟩])
    (moved : repository.main = world.repository.commits.length)
    (invariant : StageInvariant built.job ⟨repository, .pinned world.repository.commits.length⟩)
    (noneHigher : NoneHigher world built) :
    Kept family { world with
      repository := repository
      current := some (built, .pinned world.repository.commits.length) } := by
  refine { kept with known := ?_, placed := ?_, running := ?_ }
  · intro other member
    obtain ⟨event, before⟩ := kept.known other member
    refine ⟨event, Nat.le_trans before ?_⟩
    simp [commits]
  · intro release isPublic
    exact (kept.placed release isPublic).grown commits moved
  · intro other arrived same
    cases same
    exact ⟨(kept.running built stage isCurrent).1, invariant, moved, noneHigher⟩

theorem advance_kept {world : World} (kept : Kept family world) :
    Kept family (scheduleStep sha256 family epoch world .advance) := by
  unfold scheduleStep
  dsimp only
  split
  · exact kept
  · rename_i built stage isCurrent
    obtain ⟨member, invariant, running⟩ := kept.running built stage isCurrent
    have arrived := @advance_invariant sha256 built.job _ invariant
    have advanced := @advance_advanced sha256 built.job ⟨world.repository, stage⟩
    generalize advance sha256 built.job ⟨world.repository, stage⟩ = next at arrived advanced ⊢
    cases advanced with
    | failed message => exact kept.moved isCurrent trivial trivial
    | frozen passed =>
        have isMain := (validateFrozenHead_eq_ok passed).1
        exact kept.moved isCurrent arrived ⟨isMain.symm, validateFrozenHead_noneHigher kept member running passed⟩
    | pinned passed =>
        obtain ⟨isMain, noneHigher⟩ := running
        obtain ⟨_, _, _, _, ⟨sameRepository, sameCommit, _⟩ | ⟨commits, isLast, moved⟩⟩ := pinFrozenHead_eq_ok passed
        · subst sameRepository sameCommit
          exact kept.moved isCurrent arrived ⟨isMain, noneHigher⟩
        · subst isLast
          rw [← isMain] at commits
          exact kept.grown isCurrent commits moved arrived noneHigher
    | audited passed => exact kept.moved isCurrent arrived running
    | confirmed isMain => exact kept.moved isCurrent arrived running
    | waiting => exact kept.moved isCurrent arrived running

/-! ### The release -/

theorem Provenance.hasPins {job : Job} {repository : Repository} {wrapper : Nat}
    (provenance : Provenance job repository wrapper) :
    ∃ commit, repository.commit wrapper = some commit ∧ HasPins job.family commit.tree job.candidate := by
  have ofReplaced : ∀ {base tree}, Replaced job.family job.candidate base tree →
      HasPins job.family tree job.candidate := by
    intro base tree replaced pin
    obtain ⟨mode, content, found, isPin, _⟩ := replaced.own pin
    rw [found, isPin, Option.map_some]
  obtain ⟨event, commit, _, found, replaced | ⟨_, _, _, _, _, replaced⟩⟩ := provenance
  · exact ⟨commit, found, ofReplaced replaced⟩
  · exact ⟨commit, found, ofReplaced replaced⟩

theorem upstreamGroups_head {upstreamTag : Text} {groups : List Text}
    (upstream : upstreamGroups upstreamTag = some groups) : ∃ rest, upstreamTag = 118 :: rest := by
  unfold upstreamGroups takeVersion at upstream
  split at upstream
  · rename_i taken
    split at taken
    · exact ⟨_, rfl⟩
    · cases taken
  · cases upstream

/-- The release that the job makes public is listed under the version that it was built from. -/
theorem publishedVersion_publicRelease {upstreamTag : Text} {groups : List Text} {revision : Nat}
    (upstream : upstreamGroups upstreamTag = some groups) (positive : 0 < revision) :
    publishedVersion family.tagStart (publicRelease (releaseTag family.tagStart upstreamTag revision)) =
      some (upstreamVersion upstreamTag) := by
  have tagged : familyTag family.tagStart (publicRelease (releaseTag family.tagStart upstreamTag revision)) =
      some (releaseTag family.tagStart upstreamTag revision) := by
    obtain ⟨rest, named⟩ := upstreamGroups_head upstream
    have isVersion : (family.tagStart ++ text "-v") <+: releaseTag family.tagStart upstreamTag revision := by
      refine ⟨rest ++ text "-w" ++ decimal revision, ?_⟩
      simp [releaseTag, named, show text "-v" = text "-" ++ [118] by decide]
    exact if_pos isVersion
  unfold publishedVersion
  rw [tagged, Option.bind_some, publishedGroups_releaseTag upstream positive, upstreamVersion, upstream]
  rfl

theorem releaseStep_kept {world : World} (kept : Kept family world) : Kept family (releaseStep world) := by
  unfold releaseStep
  split
  · rename_i built wrapper isCurrent
    split
    · exact fail_kept kept
    · obtain ⟨member, invariant, isMain, noneHigher⟩ := kept.running built _ isCurrent
      obtain ⟨groups, revision, upstream, positive, tag⟩ := kept.tagged built member
      have ofFamily := kept.sameFamily built member
      exact {
        sameFamily := kept.sameFamily
        known := kept.known
        tagged := kept.tagged
        guarded := by
          intro other isBuilt release isPublic
          rcases List.mem_append.mp isPublic with old | new
          · exact kept.guarded other isBuilt release old
          · rw [List.mem_singleton.mp new]
            exact Or.inr (kept.known other isBuilt).2
        listed := by
          intro release isPublic
          rcases List.mem_append.mp isPublic with old | new
          · obtain ⟨object, isListed, version⟩ := kept.listed release old
            exact ⟨object, List.mem_append_left _ isListed, version⟩
          · rw [List.mem_singleton.mp new]
            refine ⟨publicRelease built.releaseTag, by simp, ?_⟩
            rw [tag]
            exact publishedVersion_publicRelease upstream positive
        placed := by
          intro release isPublic
          rcases List.mem_append.mp isPublic with old | new
          · exact kept.placed release old
          · rw [List.mem_singleton.mp new]
            refine ⟨?_, ?_, Nat.le_refl _, Or.inl isMain, ?_⟩
            · rw [← ofFamily]
              exact Provenance.hasPins invariant
            · exact isMain ▸ world.repository.mainKnown
            · intro id commit younger found
              exact absurd (Repository.commit_lt found) (Nat.not_lt.mpr younger)
        ordered := by
          unfold NeverBackwards
          rw [List.map_append, List.pairwise_append]
          refine ⟨kept.ordered, List.pairwise_singleton _ _, ?_⟩
          intro earlier isEarlier last isLast
          obtain ⟨release, isPublic, version⟩ := List.mem_map.mp isEarlier
          rw [← version, List.mem_singleton.mp isLast]
          exact noneHigher release isPublic
        running := by simp }
  · exact kept

/-! ### Schedules -/

theorem Kept.start (family : Family) (repository : Repository) (releases : List Object) :
    Kept family (World.start repository releases) := by
  constructor <;> simp [World.start, NeverBackwards]

theorem scheduleStep_kept {world : World} {call : ScheduleCall} (kept : Kept family world)
    (admitted : NotOverlooked world call) : Kept family (scheduleStep sha256 family epoch world call) := by
  cases call with
  | build event upstreamTag runNumber candidate handoffSha => exact buildStep_kept kept
  | startPublish index => exact startPublish_kept kept admitted
  | advance => exact advance_kept kept
  | publish => exact releaseStep_kept kept
  | fail => exact fail_kept kept

/-- The step with the digest of the sample handoff. -/
def sampleStep : World → ScheduleCall → World := scheduleStep (fun _ => sampleHandoffSha) .xray 1000

/-- A build of the sample candidate. -/
def sampleBuild : ScheduleCall := .build 0 (text "v26.3.27") 1 sampleJob.candidate sampleHandoffSha

/-- A build on the same commit of the candidate whose pins are those of the commit. -/
def samplePinnedBuild : ScheduleCall :=
  .build 0 (text "v26.4.0") 2 ⟨sampleJob.candidate.handoff, fun pin =>
    some (sampleFile (if pin = .goMod then 'a' else 'b')).content⟩ sampleHandoffSha

/-- The publish job of the lower version is run again after the higher version is public at the commit that both
started from. -/
def rerunSchedule : List ScheduleCall :=
  [sampleBuild, .startPublish 0, .fail, samplePinnedBuild,
    .startPublish 1, .advance, .advance, .advance, .advance, .publish,
    .startPublish 0, .advance, .advance, .advance, .advance, .publish]

end ExitfyCores.Release
