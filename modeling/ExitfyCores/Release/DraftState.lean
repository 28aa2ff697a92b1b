/-
Module: ExitfyCores.Release.DraftState
Layer: Release
Purpose: `next_wrapper_revision` and `ensure_not_downgrade` of `scripts/release_draft_state.py` on a decoded
  release list.
Imports: ExitfyCores.Lib.PyJson, ExitfyCores.Lib.Raise, Mathlib.Data.List.Induction, Mathlib.Data.List.Lex
Trusted boundary: human-reviewed spec; reading the list from its file is left out
Main exports: maxRevision, RevisionScan, reserve, revisionStep, nextWrapperRevision, reservedRevision, publicMaximum,
  nextWrapperRevision_eq, ensureNotDowngrade, publishedVersion, ensureNotDowngrade_le
Open obligations: none
-/
import ExitfyCores.Lib.PyJson
import ExitfyCores.Lib.Raise
import Mathlib.Data.List.Induction
import Mathlib.Data.List.Lex

namespace ExitfyCores.Release

open Py

/-! ### What a draft must carry -/

/-- The ids of the assets, each of which must be a positive integer. -/
def assetIds (invalid : Text) (assets : List Value) : Except Text (List Nat) :=
  assets.mapM fun asset =>
    match (asset.get "id").positiveInt with
    | some id => .ok id
    | none => .error invalid

/-- `draft is True` or `draft is False` -/
def draftState (invalid : Text) (release : Object) : Except Text Bool :=
  match release.get "draft" with
  | .bool draft => .ok draft
  | _ => .error invalid

/-- `release.get("prerelease") is not False` raises. -/
def notPrerelease (invalid : Text) (release : Object) : Except Text Unit :=
  match release.get "prerelease" with
  | .bool false => .ok ()
  | _ => .error invalid

/-- The checks on a draft that reserves a revision. -/
def checkReservingDraft (tag : Text) (release : Object) : Except Text Unit := do
  notPrerelease (text "matching draft must not be a prerelease: " ++ tag) release
  match (release.get "id").positiveInt, release.get "assets" with
  | some _, .list assets =>
      let ids ← assetIds (text "matching draft contains an invalid asset id: " ++ tag) assets
      throwIf (¬ ids.Nodup) (text "matching draft contains duplicate asset ids: " ++ tag)
  | _, _ => throw (text "matching draft is malformed: " ++ tag)

/-! ### The next revision -/

/-- The greatest run offset and the greatest revision. -/
def maxRevision : Nat := 2147483647

/-- The locals of the loop: `maximum` and `seen_tags`. -/
structure RevisionScan where
  maximum : Nat
  seenTags : List Text

/-- The turn of the loop for a tag that is `prefix` followed by `number`. -/
def reserve (scan : RevisionScan) (release : Object) (tag number : Text) : Except Text RevisionScan := do
  throwIf (isNumeral number = false) (text "matching wrapper tag is malformed: " ++ tag)
  let draft ← draftState (text "matching wrapper release has invalid draft state: " ++ tag) release
  throwIf (tag ∈ scan.seenTags) (text "matching wrapper release is duplicated: " ++ tag)
  (if draft then checkReservingDraft tag release else .ok ())
  let revision ← parseInt number
  return { maximum := max scan.maximum revision, seenTags := tag :: scan.seenTags }

/-- One turn of the loop. -/
def revisionStep (tagPrefix : Text) (scan : RevisionScan) (release : Object) : Except Text RevisionScan :=
  match release.get "tag_name" with
  | .str tag =>
      match stripStart tagPrefix tag with
      | some number => reserve scan release tag number
      | none => .ok scan
  | _ => .ok scan

/-- `type(run_offset) is int` between its bounds. -/
def validRunOffset : Value → Option Nat
  | .int offset => if offset < 1 ∨ (maxRevision : Int) < offset then none else some offset.toNat
  | _ => none

/-- `next_wrapper_revision(releases, prefix, run_offset)` -/
def nextWrapperRevision (releases : List Object) (tagPrefix : Text) (runOffset : Value) : Except Text Nat := do
  throwIf (tagPrefix = [] ∨ tagPrefix.any Py.isSpace) (text "release prefix is invalid")
  match validRunOffset runOffset with
  | none => throw (text "wrapper run offset is invalid")
  | some offset =>
      let scan ← releases.foldlM (revisionStep tagPrefix) { maximum := 1, seenTags := [] }
      let revision := scan.maximum + offset
      throwIf (maxRevision < revision) (text "next wrapper revision exceeds the supported range")
      return revision

/-! ### The maximum -/

/-- The revision that the tag of a release reserves under a prefix. -/
def reservedRevision (tagPrefix : Text) (release : Object) : Option Nat :=
  match release.get "tag_name" with
  | .str tag => ((stripStart tagPrefix tag).filter isNumeral).map numeralValue
  | _ => none

/-- The greatest revision that the releases reserve under a prefix, or 1. -/
def publicMaximum (tagPrefix : Text) (releases : List Object) : Nat :=
  releases.foldl (fun maximum release => max maximum ((reservedRevision tagPrefix release).getD 0)) 1

theorem publicMaximum_append (tagPrefix : Text) (releases : List Object) (release : Object) :
    publicMaximum tagPrefix (releases ++ [release]) =
      max (publicMaximum tagPrefix releases) ((reservedRevision tagPrefix release).getD 0) := by
  simp [publicMaximum]

theorem publicMaximum_le_append (tagPrefix : Text) (releases later : List Object) :
    publicMaximum tagPrefix releases ≤ publicMaximum tagPrefix (releases ++ later) := by
  induction later using List.reverseRecOn with
  | nil => simp
  | append_singleton later release ih =>
      rw [← List.append_assoc, publicMaximum_append]
      exact Nat.le_trans ih (Nat.le_max_left _ _)

/-- A turn of the loop that reserves takes the number of the tag into the maximum. -/
theorem reserve_maximum {scan next : RevisionScan} {release : Object} {tag number : Text}
    (turn : reserve scan release tag number = .ok next) :
    isNumeral number = true ∧ next.maximum = max scan.maximum (numeralValue number) := by
  rcases bind_eq_ok turn with ⟨_, numeral, turn⟩
  rcases bind_eq_ok turn with ⟨draft, _, turn⟩
  rcases bind_eq_ok turn with ⟨_, _, turn⟩
  rcases bind_eq_ok turn with ⟨_, _, turn⟩
  rcases bind_eq_ok turn with ⟨revision, parsed, turn⟩
  rw [throwIf_eq_ok, Bool.not_eq_false] at numeral
  cases turn
  exact ⟨numeral, by rw [parseInt_eq_ok parsed]⟩

/-- A turn of the loop takes the reserved revision into the maximum. -/
theorem revisionStep_maximum {tagPrefix : Text} {scan next : RevisionScan} {release : Object}
    (turn : revisionStep tagPrefix scan release = .ok next) :
    next.maximum = max scan.maximum ((reservedRevision tagPrefix release).getD 0) := by
  unfold revisionStep at turn
  unfold reservedRevision
  cases named : release.get "tag_name" with
  | str tag =>
      rw [named] at turn
      cases stripped : stripStart tagPrefix tag with
      | none =>
          simp only [stripped] at turn
          cases turn
          simp [stripped]
      | some number =>
          simp only [stripped] at turn
          rcases reserve_maximum turn with ⟨numeral, maximum⟩
          simp [stripped, Option.filter, numeral, maximum]
  | _ =>
      rw [named] at turn
      cases turn
      simp

theorem validRunOffset_eq_some {offset accepted : Nat} (valid : validRunOffset (.int offset) = some accepted) :
    accepted = offset := by
  change (if _ then none else some offset) = some accepted at valid
  split at valid
  · cases valid
  · exact (Option.some.inj valid).symm

/-- What the function returns is the maximum that the releases reserve, plus the offset of the run. -/
theorem nextWrapperRevision_eq {releases : List Object} {tagPrefix : Text} {offset revision : Nat}
    (chosen : nextWrapperRevision releases tagPrefix (.int offset) = .ok revision) :
    revision = publicMaximum tagPrefix releases + offset := by
  rcases bind_eq_ok chosen with ⟨_, _, chosen⟩
  cases valid : validRunOffset (.int offset) with
  | none =>
      rw [valid] at chosen
      cases chosen
  | some accepted =>
      rw [valid] at chosen
      rcases bind_eq_ok chosen with ⟨scan, scanned, chosen⟩
      rcases bind_eq_ok chosen with ⟨_, _, chosen⟩
      cases chosen
      have maximum := foldlM_done (fun done scan => scan.maximum = publicMaximum tagPrefix done) ?_ rfl scanned
      · rw [maximum, validRunOffset_eq_some valid]
      · intro done release state next reached turn
        rw [revisionStep_maximum turn, reached, publicMaximum_append]

/-! ### The downgrade guard -/

/-- `FAMILY_PREFIXES` -/
def familyPrefix (family : Text) : Option Text :=
  if family = text "sing_box" then some (text "sb")
  else if family = text "xray" then some (text "xray")
  else none

/-- `([0-9]+)` at the start of a text, and what follows it. -/
def takeNumber (value : Text) : Option (Text × Text) :=
  if value.takeWhile isDigit = [] then none else some (value.takeWhile isDigit, value.dropWhile isDigit)

/-- `\.([0-9]+)` -/
def takeDotNumber : Text → Option (Text × Text)
  | 46 :: value => takeNumber value
  | _ => none

/-- `v([0-9]+)\.([0-9]+)\.([0-9]+)` -/
def takeVersion : Text → Option (List Text × Text)
  | 118 :: value => do
      let (major, value) ← takeNumber value
      let (minor, value) ← takeDotNumber value
      let (patch, value) ← takeDotNumber value
      return ([major, minor, patch], value)
  | _ => none

/-- The groups of an upstream tag. -/
def upstreamGroups (upstreamTag : Text) : Option (List Text) :=
  match takeVersion upstreamTag with
  | some (groups, []) => some groups
  | _ => none

/-- The groups of a published tag behind its family prefix: the version, and `(?:-w([1-9][0-9]*))?`. -/
def publishedGroups (start tag : Text) : Option (List Text × Option Text) :=
  match (stripStart (start ++ text "-") tag).bind takeVersion with
  | some (groups, []) => some (groups, none)
  | some (groups, 45 :: 119 :: wrapper) => if isNumeral wrapper then some (groups, some wrapper) else none
  | _ => none

/-- `candidate = (version, wrapper, tag)`; versions are compared as tuples. -/
structure PublishedTag where
  version : List Nat
  wrapper : Nat
  tag : Text

/-- `candidate[:2] > highest[:2]` -/
def PublishedTag.Above (candidate highest : PublishedTag) : Prop :=
  highest.version < candidate.version ∨ (highest.version = candidate.version ∧ highest.wrapper < candidate.wrapper)

instance (candidate highest : PublishedTag) : Decidable (candidate.Above highest) :=
  inferInstanceAs (Decidable (_ ∨ _))

/-- `highest` after a published tag of the family. -/
def takeHighest (start family : Text) (highest : Option PublishedTag) (tag : Text) :
    Except Text (Option PublishedTag) :=
  match publishedGroups start tag with
  | none => .error (text "published " ++ family ++ text " tag is malformed: " ++ tag)
  | some (groups, wrapper) => do
      let version ← groups.mapM parseInt
      let number ← wrapper.elim (.ok 0) parseInt
      let candidate : PublishedTag := ⟨version, number, tag⟩
      return match highest with
        | none => some candidate
        | some old => if candidate.Above old then some candidate else some old

/-- The tag of a release that is no draft and whose tag is of the family. -/
def familyTag (start : Text) (release : Object) : Option Text :=
  match release.get "draft", release.get "tag_name" with
  | .bool false, .str tag => if (start ++ text "-v") <+: tag then some tag else none
  | _, _ => none

/-- One turn of the loop. -/
def highestStep (start family : Text) (highest : Option PublishedTag) (release : Object) :
    Except Text (Option PublishedTag) :=
  match familyTag start release with
  | some tag => takeHighest start family highest tag
  | none => .ok highest

/-- `ensure_not_downgrade(releases, family, upstream_tag)` -/
def ensureNotDowngrade (releases : List Object) (family upstreamTag : Text) : Except Text Unit :=
  match familyPrefix family, upstreamGroups upstreamTag with
  | none, _ => .error (text "core family is invalid")
  | some _, none => .error (text "upstream tag is invalid")
  | some start, some groups => do
      let target ← groups.mapM parseInt
      let highest ← releases.foldlM (highestStep start family) none
      match highest with
      | none => return ()
      | some top =>
          throwIf (target < top.version)
            (text "upstream downgrade is forbidden: " ++ upstreamTag ++ text " < " ++ top.tag)

/-! ### What the guard keeps out -/

/-- The version that an upstream tag names. -/
def upstreamVersion (upstreamTag : Text) : List Nat := ((upstreamGroups upstreamTag).getD []).map numeralValue

/-- The version of a published release of the family. -/
def publishedVersion (start : Text) (release : Object) : Option (List Nat) :=
  ((familyTag start release).bind (publishedGroups start)).map fun groups => groups.1.map numeralValue

theorem mapM_parseInt {groups : List Text} {version : List Nat} (parsed : groups.mapM parseInt = .ok version) :
    version = groups.map numeralValue := by
  induction groups generalizing version with
  | nil => cases parsed; rfl
  | cons first rest ih =>
      rw [List.mapM_cons] at parsed
      obtain ⟨head, parsedHead, parsed⟩ := bind_eq_ok parsed
      obtain ⟨tail, parsedTail, parsed⟩ := bind_eq_ok parsed
      cases parsed
      simp [parseInt_eq_ok parsedHead, ih parsedTail]

/-- A turn of the loop raises the highest tag to every version that it sees. -/
theorem highestStep_le {start family : Text} {highest next : Option PublishedTag} {release : Object}
    (turn : highestStep start family highest release = .ok next) :
    (∀ old, highest = some old → ∃ top, next = some top ∧ old.version ≤ top.version) ∧
      ∀ version, publishedVersion start release = some version → ∃ top, next = some top ∧ version ≤ top.version := by
  unfold highestStep at turn
  unfold publishedVersion
  cases tagged : familyTag start release with
  | none =>
      simp only [tagged] at turn
      cases turn
      exact ⟨fun old isOld => ⟨old, isOld, le_refl _⟩, by simp⟩
  | some tag =>
      simp only [tagged, takeHighest] at turn
      cases parsed : publishedGroups start tag with
      | none =>
          simp only [parsed] at turn
          cases turn
      | some groups =>
          simp only [parsed] at turn
          obtain ⟨version, versions, turn⟩ := bind_eq_ok turn
          obtain ⟨number, _, turn⟩ := bind_eq_ok turn
          cases turn
          have seen : groups.1.map numeralValue = version := (mapM_parseInt versions).symm
          cases highest with
          | none => simp [parsed, seen]
          | some old =>
              by_cases above : PublishedTag.Above ⟨version, number, tag⟩ old
              · have raised : old.version ≤ version := by
                  rcases above with less | ⟨same, _⟩
                  · exact le_of_lt less
                  · exact same ▸ le_refl _
                simp [parsed, seen, above, raised]
              · have kept : version ≤ old.version := not_lt.mp fun less => above (Or.inl less)
                simp [parsed, seen, above, kept]

/-- Where the guard passes, no published release of the family is of a higher version. -/
theorem ensureNotDowngrade_le {releases : List Object} {family upstreamTag start : Text}
    (known : familyPrefix family = some start) (passed : ensureNotDowngrade releases family upstreamTag = .ok ()) :
    (∃ groups, upstreamGroups upstreamTag = some groups) ∧
      ∀ release ∈ releases, ∀ version, publishedVersion start release = some version →
        version ≤ upstreamVersion upstreamTag := by
  unfold ensureNotDowngrade at passed
  rw [known] at passed
  unfold upstreamVersion
  cases target : upstreamGroups upstreamTag with
  | none =>
      rw [target] at passed
      cases passed
  | some groups =>
      rw [target] at passed
      refine ⟨⟨groups, rfl⟩, ?_⟩
      obtain ⟨version, parsed, passed⟩ := bind_eq_ok passed
      obtain ⟨highest, scanned, passed⟩ := bind_eq_ok passed
      have above : ∀ release ∈ releases, ∀ version, publishedVersion start release = some version →
          ∃ top, highest = some top ∧ version ≤ top.version := by
        apply foldlM_done (fun done highest => ∀ release ∈ done, ∀ version,
          publishedVersion start release = some version → ∃ top, highest = some top ∧ version ≤ top.version) _ _ scanned
        · intro done release before next holds turn other member seen found
          obtain ⟨kept, raised⟩ := highestStep_le turn
          rcases List.mem_append.mp member with earlier | last
          · obtain ⟨top, isTop, below⟩ := holds other earlier seen found
            obtain ⟨newTop, isNewTop, raisedTop⟩ := kept top isTop
            exact ⟨newTop, isNewTop, below.trans raisedTop⟩
          · rw [List.mem_singleton.mp last] at found
            exact raised seen found
        · simp
      intro release member seen found
      obtain ⟨top, isTop, below⟩ := above release member seen found
      subst isTop
      have notLess : ¬ version < top.version := throwIf_eq_ok.mp passed
      rw [Option.getD_some, ← mapM_parseInt parsed]
      exact below.trans (not_lt.mp notLess)

/-! ### The tag of a release -/

theorem takeNumber_append {value digits rest : Text} (more : Text) (taken : takeNumber value = some (digits, rest))
    (ends : ∀ c ∈ more.head?, isDigit c = false) : takeNumber (value ++ more) = some (digits, rest ++ more) := by
  have split : (value ++ more).takeWhile isDigit = value.takeWhile isDigit ∧
      (value ++ more).dropWhile isDigit = value.dropWhile isDigit ++ more := by
    clear taken
    induction value with
    | nil => cases more <;> simp_all
    | cons c value ih =>
        by_cases digit : isDigit c = true
        · simp [digit, ih]
        · simp [digit]
  unfold takeNumber at taken ⊢
  rw [split.1, split.2]
  split at taken
  · cases taken
  · rename_i some
    cases taken
    rw [if_neg some]

/-- A version is read up to what is no digit. -/
theorem takeVersion_append {value more : Text} {groups : List Text} (taken : takeVersion value = some (groups, []))
    (ends : ∀ c ∈ more.head?, isDigit c = false) : takeVersion (value ++ more) = some (groups, more) := by
  have dotted : ∀ {value digits rest}, takeDotNumber value = some (digits, rest) →
      takeDotNumber (value ++ more) = some (digits, rest ++ more) := by
    intro value digits rest taken
    unfold takeDotNumber at taken ⊢
    split at taken
    · exact takeNumber_append more taken ends
    · cases taken
  unfold takeVersion at taken ⊢
  split at taken
  · obtain ⟨⟨major, afterMajor⟩, isMajor, taken⟩ := Option.bind_eq_some_iff.mp taken
    obtain ⟨⟨minor, afterMinor⟩, isMinor, taken⟩ := Option.bind_eq_some_iff.mp taken
    obtain ⟨⟨patch, afterPatch⟩, isPatch, taken⟩ := Option.bind_eq_some_iff.mp taken
    cases taken
    simp [takeNumber_append more isMajor ends, dotted isMinor, dotted isPatch]
  · cases taken

/-- `release_tag="$prefix$revision"` behind `prefix="xray-$upstream_tag-w"` or its sibling. -/
def releaseTag (start upstreamTag : Text) (revision : Nat) : Text :=
  start ++ text "-" ++ upstreamTag ++ text "-w" ++ decimal revision

/-- The tag of a release names the upstream version that it was built from. -/
theorem publishedGroups_releaseTag {start upstreamTag : Text} {groups : List Text} {revision : Nat}
    (upstream : upstreamGroups upstreamTag = some groups) (positive : 0 < revision) :
    publishedGroups start (releaseTag start upstreamTag revision) = some (groups, some (decimal revision)) := by
  have taken : takeVersion upstreamTag = some (groups, []) := by
    unfold upstreamGroups at upstream
    split at upstream
    · cases upstream
      assumption
    · cases upstream
  have stripped : stripStart (start ++ text "-") (releaseTag start upstreamTag revision) =
      some (upstreamTag ++ (45 :: 119 :: decimal revision)) := by
    rw [stripStart_eq_some]
    simp [releaseTag, show text "-w" = [45, 119] by decide]
  unfold publishedGroups
  rw [stripped, Option.bind_some, takeVersion_append taken (by simp [isDigit])]
  simp [isNumeral_decimal positive]

end ExitfyCores.Release
