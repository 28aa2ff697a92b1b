/-
Module: ExitfyCores.Release.Reservation
Layer: Release
Purpose: The attempts of a family's workflow runs on the public releases, in any order. A contents:read token sees
  no draft, so an attempt leaves nothing that another attempt reads; a release counts once it is published.
Imports: ExitfyCores.Release.DraftState, ExitfyCores.Lib.History
Trusted boundary: human-reviewed spec
Main exports: Attempt, Board, Call, step, DistinctRevisions, NotOvertaken
Open obligations: none
-/
import ExitfyCores.Release.DraftState
import ExitfyCores.Lib.History

namespace ExitfyCores.Release

open Py

/-- An attempt of a workflow run: the releases that it read, and what `next-revision` gave. -/
structure Attempt where
  runNumber : Nat
  tagPrefix : Text
  releases : List Object
  chosen : Except Text Nat

/-- The public releases, and the attempts so far. -/
structure Board where
  releases : List Object
  attempts : List Attempt

/-- A release becomes public, or a run resolves its revision. -/
inductive Call where
  | publish (release : Object)
  | attempt (runNumber : Nat) (tagPrefix : Text)

/-- `run_offset=$((WRAPPER_REVISION_EPOCH + GITHUB_RUN_NUMBER))` -/
def runOffset (epoch runNumber : Nat) : Nat := epoch + runNumber

/-- The `resolve` step of a run on the releases that it reads. -/
def attempted (epoch runNumber : Nat) (tagPrefix : Text) (releases : List Object) : Attempt where
  runNumber := runNumber
  tagPrefix := tagPrefix
  releases := releases
  chosen := nextWrapperRevision releases tagPrefix (.int (runOffset epoch runNumber))

def step (epoch : Nat) (board : Board) : Call → Board
  | .publish release => { board with releases := board.releases ++ [release] }
  | .attempt runNumber tagPrefix =>
      { board with attempts := board.attempts ++ [attempted epoch runNumber tagPrefix board.releases] }

/-- Attempts of different runs that choose under one prefix choose different revisions. -/
def Attempt.Differ (first second : Attempt) : Prop :=
  first.runNumber ≠ second.runNumber → first.tagPrefix = second.tagPrefix →
    ∀ revision, first.chosen = .ok revision → second.chosen ≠ .ok revision

/-- No two attempts of different runs chose one revision for one prefix. -/
def DistinctRevisions (board : Board) : Prop := board.attempts.Pairwise Attempt.Differ

/-- The call is no attempt of an older run that finds the public maximum grown, since an attempt of a newer run, by
exactly the distance of the two runs. -/
def NotOvertaken (board : Board) : Call → Prop
  | .publish _ => True
  | .attempt runNumber tagPrefix =>
      ∀ earlier ∈ board.attempts, earlier.tagPrefix = tagPrefix → runNumber < earlier.runNumber →
        publicMaximum tagPrefix board.releases ≠
          publicMaximum tagPrefix earlier.releases + (earlier.runNumber - runNumber)

end ExitfyCores.Release
