/-
Module: ExitfyCores.Proofs.PublishHead
Layer: Proofs
Purpose: The wrapper commit of a publish job that reaches the creation of its release comes from the workflow event,
  whatever others do to the branch in between.
Imports: ExitfyCores.Release.PublishHead
Trusted boundary: none
Main exports: DirectChild, validateFrozenHead_eq_ok, pinFrozenHead_eq_ok, pinFrozenHead_staged, advance_invariant, releasedProvenance
Open obligations: none
-/
import ExitfyCores.Release.PublishHead

namespace ExitfyCores.Release

open Git History

variable {sha256 : List UInt8 → String} {job : Job}

/-! ### The frozen head -/

/-- The head differs from the event in the pins of the family, with modes as they were. -/
structure OwnHead (family : Family) (event head : Tree) : Prop where
  only : OnlyPins family event head
  modes : ∀ path, (event.get path).map Entry.mode = (head.get path).map Entry.mode

theorem OwnHead.refl (family : Family) (tree : Tree) : OwnHead family tree tree :=
  ⟨fun _ _ => rfl, fun _ => rfl⟩

/-- What the guard says of the commit that the job goes on from. -/
def FrozenHead (job : Job) (repository : Repository) (head : Nat) : Prop :=
  ∃ event commit, repository.commit job.event = some event ∧ repository.commit head = some commit ∧
    (OwnHead job.family event.tree commit.tree ∨
      (commit.parents.head? = some job.event ∧ OnlyPins job.family.other event.tree commit.tree))

theorem countChange_eq_ok {family : Family} {old new : Tree} {counts next : Counts} {path : String}
    (counted : countChange family old new counts path = .ok next) :
    ModifiedRegular old new path ∧
      ((path ∈ family.pinPaths ∧ next = { counts with own := counts.own + 1 }) ∨
        (path ∉ family.pinPaths ∧ path ∈ family.other.pinPaths ∧
          next = { counts with foreign := counts.foreign + 1 })) := by
  unfold countChange at counted
  split at counted
  · cases counted
  · rename_i modified
    refine ⟨not_not.mp modified, ?_⟩
    split at counted
    · rename_i own
      exact Or.inl ⟨own, (Except.ok.inj counted).symm⟩
    · rename_i notOwn
      split at counted
      · rename_i foreign
        exact Or.inr ⟨notOwn, foreign, (Except.ok.inj counted).symm⟩
      · cases counted

/-- What the counts say of the paths that the loop has seen. -/
structure Counted (family : Family) (old new : Tree) (seen : List String) (counts : Counts) : Prop where
  modified : ∀ path ∈ seen, ModifiedRegular old new path
  own : ∀ path ∈ seen, path ∈ family.pinPaths → 0 < counts.own
  foreign : ∀ path ∈ seen, path ∉ family.pinPaths → path ∈ family.other.pinPaths ∧ 0 < counts.foreign

theorem countChange_counted {family : Family} {old new : Tree} {seen : List String} {counts next : Counts}
    {path : String} (counted : Counted family old new seen counts)
    (turn : countChange family old new counts path = .ok next) :
    Counted family old new (seen ++ [path]) next := by
  rcases countChange_eq_ok turn with ⟨modified, step⟩
  constructor
  · intro other member
    rcases List.mem_append.mp member with earlier | last
    · exact counted.modified other earlier
    · rw [List.mem_singleton.mp last]
      exact modified
  · intro other member isOwn
    rcases step with ⟨_, same⟩ | ⟨notOwn, _, same⟩
    · rw [same]
      exact Nat.succ_pos _
    · rw [same]
      rcases List.mem_append.mp member with earlier | last
      · exact counted.own other earlier isOwn
      · exact absurd (List.mem_singleton.mp last ▸ isOwn) notOwn
  · intro other member isForeign
    rcases step with ⟨own, same⟩ | ⟨_, foreign, same⟩
    · rw [same]
      rcases List.mem_append.mp member with earlier | last
      · exact counted.foreign other earlier isForeign
      · exact absurd own (List.mem_singleton.mp last ▸ isForeign)
    · rw [same]
      rcases List.mem_append.mp member with earlier | last
      · exact ⟨(counted.foreign other earlier isForeign).1, Nat.succ_pos _⟩
      · exact ⟨List.mem_singleton.mp last ▸ foreign, Nat.succ_pos _⟩

/-- What the guard says of a head that is not the event: a direct child that changes the pins of one family, and of
the own family to the candidate's. -/
structure DirectChild (job : Job) (event child : Commit) : Prop where
  parent : child.parents.head? = some job.event
  change : (OwnHead job.family event.tree child.tree ∧ HasPins job.family child.tree job.candidate) ∨
    OnlyPins job.family.other event.tree child.tree

/-- A direct child that passes changes pins of one family only, and no mode. -/
theorem validateDirectChild_direct {repository : Repository} {head : Nat}
    (passed : validateDirectChild job repository head = .ok ()) :
    ∃ event child, repository.commit job.event = some event ∧ repository.commit head = some child ∧
      DirectChild job event child := by
  unfold validateDirectChild at passed
  split at passed
  · rename_i event child foundEvent foundChild
    obtain ⟨_, direct, passed⟩ := bind_eq_ok passed
    obtain ⟨counts, counting, passed⟩ := bind_eq_ok passed
    obtain ⟨_, oneFamily, compared⟩ := bind_eq_ok passed
    rw [throwIf_eq_ok] at direct oneFamily
    have counted : Counted job.family event.tree child.tree (changedPaths event.tree child.tree) counts := by
      apply foldlM_done (Counted job.family event.tree child.tree) _ _ counting
      · intro done path counts next before turn
        exact countChange_counted before turn
      · exact ⟨by simp, by simp, by simp⟩
    have parent : child.parents.head? = some job.event := by
      by_contra other
      exact direct (Or.inr other)
    refine ⟨event, child, foundEvent, foundChild, parent, ?_⟩
    by_cases own : 0 < counts.own
    · left
      have noForeign : ¬ 0 < counts.foreign := fun foreign => oneFamily (Or.inr ⟨own, foreign⟩)
      rw [if_pos own] at compared
      constructor
      · constructor
        · intro path notOwn
          apply get_eq_of_not_mem_changedPaths
          intro changed
          exact noForeign (counted.foreign path changed notOwn).2
        · intro path
          by_cases changed : path ∈ changedPaths event.tree child.tree
          · obtain ⟨_, before, after⟩ := counted.modified path changed
            rw [before, after]
          · rw [get_eq_of_not_mem_changedPaths changed]
      · intro pin
        exact not_not.mp (throwIf_eq_ok.mp (forM_eq_ok compared pin (mem_pins pin)))
    · right
      intro path notForeign
      apply get_eq_of_not_mem_changedPaths
      intro changed
      by_cases isOwn : path ∈ job.family.pinPaths
      · exact own (counted.own path changed isOwn)
      · exact notForeign (counted.foreign path changed isOwn).1
  · cases passed

/-- The step goes on from main, which is the event or a direct child of it. -/
theorem validateFrozenHead_eq_ok {repository : Repository} {head : Nat}
    (passed : validateFrozenHead sha256 job repository = .ok head) :
    head = repository.main ∧ (head = job.event ∨
      ∃ event child, repository.commit job.event = some event ∧ repository.commit head = some child ∧
        DirectChild job event child) := by
  obtain ⟨_, _, passed⟩ := bind_eq_ok passed
  obtain ⟨_, _, passed⟩ := bind_eq_ok passed
  obtain ⟨_, guarded, passed⟩ := bind_eq_ok passed
  cases passed
  refine ⟨rfl, ?_⟩
  split at guarded
  · rename_i same
    exact Or.inl same
  · exact Or.inr (validateDirectChild_direct guarded)

theorem commit_main (repository : Repository) : ∃ commit, repository.commit repository.main = some commit :=
  ⟨_, List.getElem?_eq_getElem repository.mainKnown⟩

theorem validateFrozenHead_frozen {repository : Repository} {head : Nat}
    (passed : validateFrozenHead sha256 job repository = .ok head) : FrozenHead job repository head := by
  obtain ⟨isMain, isEvent | ⟨event, child, foundEvent, foundChild, direct⟩⟩ := validateFrozenHead_eq_ok passed
  · obtain ⟨commit, found⟩ := commit_main repository
    rw [← isMain] at found
    exact ⟨commit, commit, isEvent ▸ found, found, Or.inl (OwnHead.refl _ _)⟩
  · refine ⟨event, child, foundEvent, foundChild, ?_⟩
    rcases direct.change with ⟨own, _⟩ | foreign
    · exact Or.inl own
    · exact Or.inr ⟨direct.parent, foreign⟩

/-! ### The wrapper commit -/

/-- A pin in the tree is a link still, or the candidate's in the mode that the base has. -/
def Copied (job : Job) (base tree : Tree) (pin : Pin) : Prop :=
  (∃ target, tree.get (job.family.pinPath pin) = some ⟨.link, target⟩) ∨
    ∃ mode content, tree.get (job.family.pinPath pin) = some ⟨mode, content⟩ ∧
      job.candidate.pin pin = some content ∧
      ∀ old, base.get (job.family.pinPath pin) = some old → old.mode = mode

/-- The tree is the base with both pins copied. -/
structure Staged (job : Job) (base tree : Tree) : Prop where
  own : ∀ pin, Copied job base tree pin
  rest : OnlyPins job.family base tree

theorem stagePin_copied {base next : Tree} {pin : Pin} (staged : stagePin job base pin = .ok next) :
    Copied job base next pin ∧
      ∀ path, path ≠ job.family.pinPath pin → next.get path = base.get path := by
  unfold stagePin at staged
  dsimp only at staged
  split at staged
  · cases staged
  · rename_i content isPin
    split at staged
    · rename_i target isLink
      cases staged
      exact ⟨Or.inl ⟨target, isLink⟩, fun _ _ => rfl⟩
    · cases staged
    · rename_i mode old _ _ found
      cases staged
      constructor
      · refine Or.inr ⟨mode, content, Tree.get_set_same _ _ _, isPin, ?_⟩
        intro entry before
        rw [found] at before
        cases before
        rfl
      · intro path different
        exact Tree.get_set_other base _ different
    · rename_i absent
      split at staged
      · cases staged
      · split at staged
        · cases staged
          constructor
          · refine Or.inr ⟨.regular, content, Tree.get_set_same _ _ _, isPin, ?_⟩
            intro entry before
            rw [absent] at before
            cases before
          · intro path different
            exact Tree.get_set_other base _ different
        · cases staged

theorem pinPath_ne (family : Family) : family.pinPath .goMod ≠ family.pinPath .goSum := by
  cases family <;> decide

theorem pinPath_mem (family : Family) (pin : Pin) : family.pinPath pin ∈ family.pinPaths :=
  List.mem_map_of_mem (mem_pins pin)

theorem stagePins_staged {base tree : Tree} (staged : pins.foldlM (stagePin job) base = .ok tree) :
    Staged job base tree := by
  rcases bind_eq_ok staged with ⟨first, stagedMod, staged⟩
  rcases bind_eq_ok staged with ⟨second, stagedSum, staged⟩
  cases staged
  rcases stagePin_copied stagedMod with ⟨copiedMod, restMod⟩
  rcases stagePin_copied stagedSum with ⟨copiedSum, restSum⟩
  have different := pinPath_ne job.family
  constructor
  · intro pin
    cases pin with
    | goMod =>
        unfold Copied
        rw [restSum _ different]
        exact copiedMod
    | goSum =>
        unfold Copied
        rw [← restMod _ different.symm]
        exact copiedSum
  · intro path notPin
    have notMod : path ≠ job.family.pinPath .goMod := fun same => notPin (same ▸ pinPath_mem _ _)
    have notSum : path ≠ job.family.pinPath .goSum := fun same => notPin (same ▸ pinPath_mem _ _)
    rw [restSum path notSum, restMod path notMod]

/-- The step adds nothing where nothing is staged; otherwise it adds one child of the frozen head and moves main to
it. -/
theorem pinFrozenHead_eq_ok {repository next : Repository} {frozen wrapper : Nat}
    (pinned : pinFrozenHead job repository frozen = .ok (next, wrapper)) :
    ∃ commit staged, repository.commit frozen = some commit ∧ Staged job commit.tree staged ∧
      ((next = repository ∧ wrapper = frozen ∧ ∀ path, staged.get path = commit.tree.get path) ∨
        (next.commits = repository.commits ++ [⟨[frozen], staged⟩] ∧ wrapper = repository.commits.length ∧
          next.main = wrapper)) := by
  unfold pinFrozenHead at pinned
  split at pinned
  · cases pinned
  · rename_i commit found
    obtain ⟨staged, staging, pinned⟩ := bind_eq_ok pinned
    refine ⟨commit, staged, found, stagePins_staged staging, ?_⟩
    split at pinned
    · rename_i unchanged
      cases pinned
      refine Or.inl ⟨rfl, rfl, ?_⟩
      intro path
      apply get_eq_of_not_mem_changedPaths
      rw [unchanged]
      exact List.not_mem_nil
    · obtain ⟨_, _, pinned⟩ := bind_eq_ok pinned
      split at pinned
      · rename_i known
        obtain ⟨pushed, push, pinned⟩ := bind_eq_ok pinned
        cases pinned
        obtain ⟨commits, main⟩ := push_eq_ok push
        exact Or.inr ⟨commits, rfl, main⟩
      · cases pinned

/-- The commit of the pins keeps what was, and the wrapper commit stages both pins on the frozen head. -/
theorem pinFrozenHead_staged {repository next : Repository} {frozen wrapper : Nat}
    (pinned : pinFrozenHead job repository frozen = .ok (next, wrapper)) :
    repository.commits <+: next.commits ∧
      ∃ commit wrapped, repository.commit frozen = some commit ∧ next.commit wrapper = some wrapped ∧
        Staged job commit.tree wrapped.tree := by
  obtain ⟨commit, staged, found, copied, ⟨sameRepository, sameCommit, unchanged⟩ | ⟨commits, isLast, _⟩⟩ :=
    pinFrozenHead_eq_ok pinned
  · rw [sameRepository, sameCommit]
    refine ⟨List.prefix_rfl, commit, commit, found, found, ?_⟩
    constructor
    · intro pin
      have own := copied.own pin
      unfold Copied at own ⊢
      rw [unchanged] at own
      exact own
    · exact fun _ _ => rfl
  · refine ⟨?_, commit, ⟨[frozen], staged⟩, found, ?_, copied⟩
    · rw [commits]
      exact List.prefix_append _ _
    · simp [Repository.commit, commits, isLast]

/-! ### The run of the job -/

/-- The wrapper commit stages the pins on a head that passed the guard. -/
def PinnedHead (job : Job) (repository : Repository) (wrapper : Nat) : Prop :=
  ∃ head commit wrapped, FrozenHead job repository head ∧ repository.commit head = some commit ∧
    repository.commit wrapper = some wrapped ∧ Staged job commit.tree wrapped.tree

theorem FrozenHead.kept {repository next : Repository} {head : Nat} (frozen : FrozenHead job repository head)
    (kept : repository.commits <+: next.commits) : FrozenHead job next head := by
  rcases frozen with ⟨event, commit, foundEvent, found, relation⟩
  exact ⟨event, commit, commit_of_prefix kept foundEvent, commit_of_prefix kept found, relation⟩

theorem PinnedHead.kept {repository next : Repository} {wrapper : Nat} (pinned : PinnedHead job repository wrapper)
    (kept : repository.commits <+: next.commits) : PinnedHead job next wrapper := by
  rcases pinned with ⟨head, commit, wrapped, frozen, found, foundWrapper, staged⟩
  exact ⟨head, commit, wrapped, frozen.kept kept, commit_of_prefix kept found, commit_of_prefix kept foundWrapper,
    staged⟩

theorem Provenance.kept {repository next : Repository} {wrapper : Nat} (provenance : Provenance job repository wrapper)
    (kept : repository.commits <+: next.commits) : Provenance job next wrapper := by
  rcases provenance with ⟨event, commit, foundEvent, found, replaced | ⟨id, child, foundChild, direct⟩⟩
  · exact ⟨event, commit, commit_of_prefix kept foundEvent, commit_of_prefix kept found, Or.inl replaced⟩
  · exact ⟨event, commit, commit_of_prefix kept foundEvent, commit_of_prefix kept found,
      Or.inr ⟨id, child, commit_of_prefix kept foundChild, direct⟩⟩

/-- The audit leaves no link in the tree, so both pins are the candidate's. -/
theorem Staged.replaced {base : Tree} {commit : Commit} (staged : Staged job base commit.tree)
    (regular : ∀ entry ∈ commit.tree.entries, entry.2.mode ∈ regularGitModes) :
    Replaced job.family job.candidate base commit.tree := by
  refine ⟨?_, staged.rest⟩
  intro pin
  rcases staged.own pin with ⟨target, isLink⟩ | copied
  · exact absurd (regular _ (Tree.mem_of_get isLink)) (by simp [regularGitModes])
  · exact copied

theorem Replaced.ofOwnHead {family : Family} {candidate : Candidate} {event head tree : Tree}
    (own : OwnHead family event head) (replaced : Replaced family candidate head tree) :
    Replaced family candidate event tree := by
  constructor
  · intro pin
    rcases replaced.own pin with ⟨mode, content, found, isPin, kept⟩
    refine ⟨mode, content, found, isPin, ?_⟩
    intro old before
    have same := own.modes (family.pinPath pin)
    rw [before] at same
    rcases Option.map_eq_some_iff.mp same.symm with ⟨entry, after, mode⟩
    rw [← mode]
    exact kept entry after
  · intro path notPin
    rw [replaced.rest path notPin, own.only path notPin]

theorem PinnedHead.provenance {repository : Repository} {wrapper : Nat} (pinned : PinnedHead job repository wrapper)
    (audited : auditTree repository wrapper = .ok ()) : Provenance job repository wrapper := by
  rcases pinned with ⟨head, commit, wrapped, ⟨event, frozen, foundEvent, foundHead, relation⟩, found, foundWrapper,
    staged⟩
  have same : frozen = commit := Option.some.inj (foundHead.symm.trans found)
  subst same
  unfold auditTree at audited
  rw [foundWrapper] at audited
  have regular : ∀ entry ∈ wrapped.tree.entries, entry.2.mode ∈ regularGitModes := by
    intro entry member
    by_contra irregular
    exact throwIf_eq_ok.mp audited ⟨entry, member, irregular⟩
  have replaced := staged.replaced regular
  refine ⟨event, wrapped, foundEvent, foundWrapper, ?_⟩
  rcases relation with own | ⟨parent, foreign⟩
  · exact Or.inl (Replaced.ofOwnHead own replaced)
  · exact Or.inr ⟨head, frozen, foundHead, parent, foreign, replaced⟩

/-- What holds of the job at each of its stages. -/
def StageInvariant (job : Job) (publication : Publication) : Prop :=
  match publication.stage with
  | .checkedOut => True
  | .frozen head => FrozenHead job publication.repository head
  | .pinned wrapper => PinnedHead job publication.repository wrapper
  | .audited wrapper => Provenance job publication.repository wrapper
  | .releasing wrapper => Provenance job publication.repository wrapper
  | .failed _ => True

/-- What one step of the job can do. -/
inductive Advanced (sha256 : List UInt8 → String) (job : Job) : Publication → Publication → Prop where
  | failed {repository : Repository} {stage : Stage} (message : String) :
      Advanced sha256 job ⟨repository, stage⟩ ⟨repository, .failed message⟩
  | frozen {repository : Repository} {head : Nat} (passed : validateFrozenHead sha256 job repository = .ok head) :
      Advanced sha256 job ⟨repository, .checkedOut⟩ ⟨repository, .frozen head⟩
  | pinned {repository pushed : Repository} {head wrapper : Nat}
      (passed : pinFrozenHead job repository head = .ok (pushed, wrapper)) :
      Advanced sha256 job ⟨repository, .frozen head⟩ ⟨pushed, .pinned wrapper⟩
  | audited {repository : Repository} {wrapper : Nat} (passed : auditTree repository wrapper = .ok ()) :
      Advanced sha256 job ⟨repository, .pinned wrapper⟩ ⟨repository, .audited wrapper⟩
  | confirmed {repository : Repository} {wrapper : Nat} (isMain : repository.main = wrapper) :
      Advanced sha256 job ⟨repository, .audited wrapper⟩ ⟨repository, .releasing wrapper⟩
  | waiting {repository : Repository} {wrapper : Nat} :
      Advanced sha256 job ⟨repository, .releasing wrapper⟩ ⟨repository, .releasing wrapper⟩

/-- A step that only reads fails or arrives at the stage that its outcome gives. -/
theorem reading_advanced {α : Type} {repository : Repository} {stage : Stage} {outcome : Except String α}
    {next : α → Stage}
    (arrives : ∀ a, outcome = .ok a → Advanced sha256 job ⟨repository, stage⟩ ⟨repository, next a⟩) :
    Advanced sha256 job ⟨repository, stage⟩ (reading repository outcome next) := by
  cases outcome with
  | error message => exact .failed message
  | ok a => exact arrives a rfl

theorem advance_advanced (publication : Publication) :
    Advanced sha256 job publication (advance sha256 job publication) := by
  obtain ⟨repository, stage⟩ := publication
  cases stage with
  | checkedOut => exact reading_advanced fun head passed => .frozen passed
  | frozen head =>
      unfold advance
      dsimp only
      split
      · rename_i pushed wrapper passed
        exact .pinned passed
      · exact .failed _
  | pinned wrapper => exact reading_advanced fun _ passed => .audited passed
  | audited wrapper => exact reading_advanced fun _ passed => .confirmed (not_not.mp (throwIf_eq_ok.mp passed))
  | releasing wrapper => exact .waiting
  | failed message => exact .failed message

theorem advance_invariant {publication : Publication} (invariant : StageInvariant job publication) :
    StageInvariant job (advance sha256 job publication) := by
  have advanced := @advance_advanced sha256 job publication
  generalize advance sha256 job publication = next at advanced ⊢
  cases advanced with
  | failed message => trivial
  | frozen passed => exact validateFrozenHead_frozen passed
  | pinned passed =>
      obtain ⟨kept, commit, wrapped, found, foundWrapper, staged⟩ := pinFrozenHead_staged passed
      exact ⟨_, commit, wrapped, FrozenHead.kept invariant kept, commit_of_prefix kept found, foundWrapper, staged⟩
  | audited passed => exact PinnedHead.provenance invariant passed
  | confirmed isMain => exact invariant
  | waiting => exact invariant

theorem publishStep_invariant {publication : Publication} {call : PublishCall}
    (invariant : StageInvariant job publication) : StageInvariant job (publishStep sha256 job publication call) := by
  cases call with
  | advance => exact advance_invariant invariant
  | fail message => trivial
  | others next =>
      unfold publishStep
      dsimp only
      split
      · rename_i kept
        rcases publication with ⟨repository, stage⟩
        cases stage with
        | checkedOut => trivial
        | frozen head => exact FrozenHead.kept invariant kept
        | pinned wrapper => exact PinnedHead.kept invariant kept
        | audited wrapper => exact Provenance.kept invariant kept
        | releasing wrapper => exact Provenance.kept invariant kept
        | failed message => trivial
      · exact invariant

/-! ### The confirmation -/

/-- Only the confirmation leads to the creation of the release. -/
theorem publishStep_releasing {publication : Publication} {call : PublishCall} {wrapper : Nat}
    (arrived : (publishStep sha256 job publication call).stage = .releasing wrapper) :
    publication.stage = .releasing wrapper ∨
      (call = .advance ∧ publication.stage = .audited wrapper ∧ publication.repository.main = wrapper) := by
  cases call with
  | fail message => cases arrived
  | others next =>
      left
      unfold publishStep at arrived
      dsimp only at arrived
      split at arrived <;> exact arrived
  | advance =>
      change (advance sha256 job publication).stage = .releasing wrapper at arrived
      have advanced := @advance_advanced sha256 job publication
      generalize advance sha256 job publication = next at advanced arrived
      cases advanced with
      | confirmed isMain =>
          cases arrived
          exact Or.inr ⟨rfl, rfl, isMain⟩
      | waiting => exact Or.inl arrived
      | _ => cases arrived

/-- In the history of a job that has reached the creation of its release, main was the wrapper commit when the
confirmation ran. -/
theorem confirmed_of_releasing {start : Repository} {calls : List PublishCall} {wrapper : Nat}
    (arrived : (run (publishStep sha256 job) ⟨start, .checkedOut⟩ calls).stage = .releasing wrapper) :
    ∃ before after, calls = before ++ .advance :: after ∧
      (run (publishStep sha256 job) ⟨start, .checkedOut⟩ before).stage = .audited wrapper ∧
      (run (publishStep sha256 job) ⟨start, .checkedOut⟩ before).repository.main = wrapper := by
  induction calls using List.reverseRecOn with
  | nil => cases arrived
  | append_singleton calls call ih =>
      rw [run_append] at arrived
      rcases publishStep_releasing arrived with earlier | ⟨same, audited, main⟩
      · rcases ih earlier with ⟨before, after, split, confirmed⟩
        exact ⟨before, after ++ [call], by simp [split], confirmed⟩
      · exact ⟨calls, [], by rw [same], audited, main⟩

/-- Whatever others do to the repository between the steps, a job that reaches the creation of its release releases
a wrapper commit that comes from its event, and main was that commit at the confirmation. -/
theorem releasedProvenance (sha256 : List UInt8 → String) (job : Job) (start : Repository)
    (calls : List PublishCall) (wrapper : Nat)
    (arrived : (run (publishStep sha256 job) ⟨start, .checkedOut⟩ calls).stage = .releasing wrapper) :
    Provenance job (run (publishStep sha256 job) ⟨start, .checkedOut⟩ calls).repository wrapper ∧
      ∃ before after, calls = before ++ .advance :: after ∧
        (run (publishStep sha256 job) ⟨start, .checkedOut⟩ before).stage = .audited wrapper ∧
        (run (publishStep sha256 job) ⟨start, .checkedOut⟩ before).repository.main = wrapper := by
  constructor
  · have invariant : StageInvariant job (run (publishStep sha256 job) ⟨start, .checkedOut⟩ calls) := by
      apply run_invariant
      · trivial
      · intro publication call kept
        exact publishStep_invariant kept
    unfold StageInvariant at invariant
    rw [arrived] at invariant
    exact invariant
  · exact confirmed_of_releasing arrived

/-! ### A run -/

/-- A regular file of one line. -/
def sampleFile (letter : Char) : Entry := ⟨.regular, [UInt8.ofNat letter.toNat, 10]⟩

def sampleTree : Tree :=
  ⟨[("README.md", sampleFile 'r'), ("go.mod", sampleFile 'a'), ("go.sum", sampleFile 'b'),
    ("singbox/go.mod", sampleFile 'c'), ("singbox/go.sum", sampleFile 'd')], by decide⟩

def sampleRepository : Repository where
  commits := [⟨[], sampleTree⟩]
  older := by
    intro id known parent member
    obtain rfl : id = 0 := Nat.lt_one_iff.mp known
    cases member
  main := 0
  mainKnown := by decide

/-- The other family has pinned another module. -/
def sampleOthers : Repository :=
  { sampleRepository.add 0 (by decide) (sampleTree.set "singbox/go.mod" (sampleFile 'e')) with
    main := 1
    mainKnown := by decide }

/-- The digest of the handoff `{}` and a line feed. -/
def sampleHandoffSha : String := "ca3d163bab055381827226140568f3bef7eaac187cebd76878e0b63e9e442356"

def sampleJob : Job where
  family := .xray
  event := 0
  candidate := ⟨some [123, 125, 10], fun pin => some (sampleFile (if pin = .goMod then 'f' else 'b')).content⟩
  handoffSha := sampleHandoffSha

def sampleCalls : List PublishCall := [.others sampleOthers, .advance, .advance, .advance, .advance]

theorem releasedProvenance_foreignChild :
    Provenance sampleJob
        (run (publishStep (fun _ => sampleHandoffSha) sampleJob) ⟨sampleRepository, .checkedOut⟩ sampleCalls).repository
        2 ∧
      ∃ before after, sampleCalls = before ++ .advance :: after ∧
        (run (publishStep (fun _ => sampleHandoffSha) sampleJob) ⟨sampleRepository, .checkedOut⟩ before).stage =
          .audited 2 ∧
        (run (publishStep (fun _ => sampleHandoffSha) sampleJob) ⟨sampleRepository, .checkedOut⟩
          before).repository.main = 2 :=
  releasedProvenance _ sampleJob sampleRepository sampleCalls 2 (by decide)

end ExitfyCores.Release
