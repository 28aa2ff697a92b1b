/-
Module: ExitfyCores.Proofs.TopologyCheck
Layer: Proofs
Purpose: What the one-pass topology check accepts: the sorted sequences of some files with all directories above
  them. The stack of open directories carries the invariant `Scan`.
Imports: ExitfyCores.Bundle.Topology, Mathlib.Data.List.Dedup
Trusted boundary: none
Main exports: Scan, visitPath_scan, emptyDirectories_iff, eq_canonicalSequence, topology_iff
Open obligations: none
-/
import ExitfyCores.Bundle.Topology
import Mathlib.Data.List.Dedup

namespace ExitfyCores.Bundle

open PathOrder

/-! ### The stack of open directories -/

/-- What the scan knows after the paths `done`, in front of the paths `todo`: the open directories lie in one line,
their marks say where files were seen, and closed directories are behind. -/
structure Scan (kinds : List (Parts × Kind)) (done todo : List Parts) (state : OpenDirectories) : Prop where
  opened : ∀ entry ∈ state.active, entry.1 ∈ done ∧ (entry.1, Kind.directory) ∈ kinds
  line : state.active.Pairwise fun upper lower => Below lower.1 upper.1
  sound : ∀ entry ∈ state.active, entry.2 = true →
    ∃ file ∈ done, (file, Kind.file) ∈ kinds ∧ Below entry.1 file
  complete : ∀ file ∈ done, (file, Kind.file) ∈ kinds → ∀ entry ∈ state.active, Below entry.1 file →
    ∃ marked ∈ state.active, marked.2 = true ∧ entry.1 <+: marked.1 ∧ Below marked.1 file
  closed : ∀ directory ∈ done, (directory, Kind.directory) ∈ kinds →
    directory ∉ state.active.map Prod.fst → ∀ later ∈ todo, ¬ directory <+: later
  failures : state.failures = [] ↔ ∀ directory ∈ done, (directory, Kind.directory) ∈ kinds →
    directory ∉ state.active.map Prod.fst → ∃ file ∈ done, (file, Kind.file) ∈ kinds ∧ Below directory file

/-- The top of the stack with a mark. -/
def markTop : List (Parts × Bool) → List (Parts × Bool)
  | [] => []
  | (parent, _) :: above => (parent, true) :: above

@[simp] theorem map_fst_markTop (active : List (Parts × Bool)) :
    (markTop active).map Prod.fst = active.map Prod.fst := by
  cases active with
  | nil => rfl
  | cons top above => rfl

/-- An entry of the marked stack stands for one of the stack. -/
theorem mem_markTop {active : List (Parts × Bool)} {entry : Parts × Bool} (member : entry ∈ markTop active) :
    entry ∈ active ∨ ∃ top above, active = top :: above ∧ entry = (top.1, true) := by
  cases active with
  | nil => exact absurd member List.not_mem_nil
  | cons top above =>
      rcases List.mem_cons.mp member with rfl | inAbove
      · exact Or.inr ⟨top, above, rfl, rfl⟩
      · exact Or.inl (List.mem_cons_of_mem top inAbove)

/-- Marking changes no path. -/
theorem path_mem_of_mem_markTop {active : List (Parts × Bool)} {entry : Parts × Bool}
    (member : entry ∈ markTop active) : ∃ before ∈ active, before.1 = entry.1 := by
  rcases mem_markTop member with unmarked | ⟨top, above, rfl, rfl⟩
  · exact ⟨entry, unmarked, rfl⟩
  · exact ⟨top, List.mem_cons_self, rfl⟩

/-- A marked entry stays. -/
theorem mem_markTop_of_marked {active : List (Parts × Bool)} {path : Parts} (member : (path, true) ∈ active) :
    (path, true) ∈ markTop active := by
  cases active with
  | nil => exact member
  | cons top above =>
      rcases List.mem_cons.mp member with rfl | inAbove
      · exact List.mem_cons_self
      · exact List.mem_cons_of_mem _ inAbove

theorem pairwise_markTop {active : List (Parts × Bool)}
    (line : active.Pairwise fun upper lower => Below lower.1 upper.1) :
    (markTop active).Pairwise fun upper lower => Below lower.1 upper.1 := by
  cases active with
  | nil => exact line
  | cons top above =>
      rw [List.pairwise_cons] at line
      exact List.pairwise_cons.mpr line

/-- Every entry of a marked stack is at or above its top. -/
theorem prefix_top_of_mem {top : Parts × Bool} {above : List (Parts × Bool)} {entry : Parts × Bool}
    (line : (top :: above).Pairwise fun upper lower => Below lower.1 upper.1)
    (member : entry ∈ markTop (top :: above)) : entry.1 <+: top.1 := by
  rcases List.mem_cons.mp member with rfl | inAbove
  · exact List.prefix_refl top.1
  · exact ((List.pairwise_cons.mp line).1 entry inAbove).1

theorem closeDirectory_cons_false (failures : List String) (path : Parts) (rest : List (Parts × Bool)) :
    closeDirectory { failures := failures, active := (path, false) :: rest } =
      { failures := failures ++ [s!"empty archive directory is not emitted by builder: {partsText path}"]
        active := rest } := rfl

theorem closeDirectory_cons_true (failures : List String) (path : Parts) (rest : List (Parts × Bool)) :
    closeDirectory { failures := failures, active := (path, true) :: rest } =
      { failures := failures, active := markTop rest } := by
  cases rest with
  | nil => rfl
  | cons top above => rfl

/-- Closing the top, when nothing below it follows. -/
theorem closeDirectory_scan {kinds : List (Parts × Kind)} {done todo : List Parts} {failures : List String}
    {path : Parts} {hasFile : Bool} {rest : List (Parts × Bool)}
    (scan : Scan kinds done todo { failures := failures, active := (path, hasFile) :: rest })
    (behind : ∀ later ∈ todo, ¬ path <+: later) :
    Scan kinds done todo (closeDirectory { failures := failures, active := (path, hasFile) :: rest }) := by
  have top := scan.opened (path, hasFile) List.mem_cons_self
  have line := List.pairwise_cons.mp scan.line
  have notInRest : path ∉ rest.map Prod.fst := by
    intro inRest
    rcases List.mem_map.mp inRest with ⟨entry, member, same⟩
    exact (line.1 entry member).2 same
  have closedBehind : ∀ directory ∈ done, (directory, Kind.directory) ∈ kinds →
      directory ∉ rest.map Prod.fst → ∀ later ∈ todo, ¬ directory <+: later := by
    intro directory member isDirectory notOpen
    by_cases same : directory = path
    · rw [same]
      exact behind
    · apply scan.closed directory member isDirectory
      rw [List.map_cons, List.mem_cons, not_or]
      exact ⟨same, notOpen⟩
  cases hasFile with
  | false =>
      rw [closeDirectory_cons_false]
      have noFile : ¬ ∃ file ∈ done, (file, Kind.file) ∈ kinds ∧ Below path file := by
        rintro ⟨file, member, isFile, below⟩
        rcases scan.complete file member isFile _ List.mem_cons_self below with ⟨marked, isOpen, mark, isPrefix, _⟩
        rcases List.mem_cons.mp isOpen with rfl | inRest
        · cases mark
        · have shorter := (below_iff_length.mp (line.1 marked inRest)).2
          exact absurd isPrefix.length_le (Nat.not_le_of_lt shorter)
      refine ⟨?_, line.2, ?_, ?_, closedBehind, ?_⟩
      · exact fun entry member => scan.opened entry (List.mem_cons_of_mem _ member)
      · exact fun entry member => scan.sound entry (List.mem_cons_of_mem _ member)
      · intro file member isFile entry inRest below
        rcases scan.complete file member isFile entry (List.mem_cons_of_mem _ inRest) below with
          ⟨marked, isOpen, mark, isPrefix, markedBelow⟩
        rcases List.mem_cons.mp isOpen with rfl | markedInRest
        · cases mark
        · exact ⟨marked, markedInRest, mark, isPrefix, markedBelow⟩
      · apply iff_of_false
        · exact List.append_ne_nil_of_right_ne_nil _ (List.cons_ne_nil _ _)
        · intro all
          exact noFile (all path top.1 top.2 notInRest)
  | true =>
      rw [closeDirectory_cons_true]
      rcases scan.sound _ List.mem_cons_self rfl with ⟨below, inDone, isFile, belowPath⟩
      refine ⟨?_, pairwise_markTop line.2, ?_, ?_, ?_, ?_⟩
      · intro entry member
        rcases mem_markTop member with inRest | ⟨parent, above, rfl, rfl⟩
        · exact scan.opened entry (List.mem_cons_of_mem _ inRest)
        · exact scan.opened parent (List.mem_cons_of_mem _ List.mem_cons_self)
      · intro entry member mark
        rcases mem_markTop member with inRest | ⟨parent, above, rfl, rfl⟩
        · exact scan.sound entry (List.mem_cons_of_mem _ inRest) mark
        · exact ⟨below, inDone, isFile, (line.1 parent List.mem_cons_self).trans belowPath⟩
      · intro file member fileKind entry inMarked belowEntry
        rcases path_mem_of_mem_markTop inMarked with ⟨before, inRest, same⟩
        rcases scan.complete file member fileKind before (List.mem_cons_of_mem _ inRest) (same ▸ belowEntry) with
          ⟨marked, isOpen, mark, isPrefix, markedBelow⟩
        rcases List.mem_cons.mp isOpen with rfl | markedInRest
        · -- the closed top vouched for the file, and hands the mark on
          cases rest with
          | nil => exact absurd inRest List.not_mem_nil
          | cons parent above =>
              exact ⟨(parent.1, true), List.mem_cons_self, rfl, @prefix_top_of_mem parent above entry line.2 inMarked,
                (line.1 parent List.mem_cons_self).trans markedBelow⟩
        · refine ⟨marked, ?_, mark, same ▸ isPrefix, markedBelow⟩
          have split : marked = (marked.1, true) := by rw [← mark]
          rw [split] at markedInRest ⊢
          exact mem_markTop_of_marked markedInRest
      · rw [map_fst_markTop]
        exact closedBehind
      · rw [map_fst_markTop, scan.failures]
        constructor
        · intro all directory member isDirectory notOpen
          by_cases same : directory = path
          · rw [same]
            exact ⟨below, inDone, isFile, belowPath⟩
          · apply all directory member isDirectory
            rw [List.map_cons, List.mem_cons, not_or]
            exact ⟨same, notOpen⟩
        · intro all directory member isDirectory notOpen
          rw [List.map_cons, List.mem_cons, not_or] at notOpen
          exact all directory member isDirectory notOpen.2

/-- Closing directories up to `stop`, when nothing that follows lies below a directory that it does not name. -/
theorem closeUntil_scan {kinds : List (Parts × Kind)} {done todo : List Parts} {stop : Parts → Prop}
    [DecidablePred stop] {turns : Nat} {state : OpenDirectories} (scan : Scan kinds done todo state)
    (enough : state.active.length ≤ turns)
    (behind : ∀ directory ∈ done, ¬ stop directory → ∀ later ∈ todo, ¬ directory <+: later) :
    Scan kinds done todo (closeUntil stop turns state) ∧
      ∀ entry ∈ (closeUntil stop turns state).active.head?, stop entry.1 := by
  induction turns generalizing state with
  | zero =>
      have empty := List.length_eq_zero_iff.mp (Nat.le_zero.mp enough)
      refine ⟨scan, ?_⟩
      rw [closeUntil, empty]
      intro entry none
      cases none
  | succ turns ih =>
      rcases state with ⟨failures, active⟩
      cases active with
      | nil =>
          refine ⟨scan, ?_⟩
          intro entry none
          cases none
      | cons top rest =>
          rcases top with ⟨path, hasFile⟩
          rw [closeUntil]
          dsimp only
          by_cases stops : stop path
          · rw [if_pos stops]
            refine ⟨scan, ?_⟩
            intro entry isTop
            cases isTop
            exact stops
          · rw [if_neg stops]
            have opened := scan.opened (path, hasFile) List.mem_cons_self
            apply ih (closeDirectory_scan scan (behind path opened.1 stops))
            cases hasFile with
            | false => exact Nat.le_of_succ_le_succ enough
            | true =>
                rw [closeDirectory_cons_true, ← List.length_map Prod.fst, map_fst_markTop, List.length_map]
                exact Nat.le_of_succ_le_succ enough

/-- The paths are members of one kind each. -/
def OneKind (kinds : List (Parts × Kind)) : Prop :=
  ∀ path, ¬ ((path, Kind.directory) ∈ kinds ∧ (path, Kind.file) ∈ kinds)

/-- All open directories lie above a path when the top does. -/
theorem Scan.below_of_top {kinds : List (Parts × Kind)} {done todo : List Parts} {state : OpenDirectories}
    (scan : Scan kinds done todo state) {path : Parts}
    (top : ∀ entry ∈ state.active.head?, Below entry.1 path) : ∀ entry ∈ state.active, Below entry.1 path := by
  intro entry member
  cases active : state.active with
  | nil =>
      rw [active] at member
      exact absurd member List.not_mem_nil
  | cons first rest =>
      have belowFirst := top first (by rw [active]; rfl)
      have line := scan.line
      rw [active] at member line
      rcases List.mem_cons.mp member with rfl | inRest
      · exact belowFirst
      · exact ((List.pairwise_cons.mp line).1 entry inRest).trans belowFirst

/-- A directory is pushed on the stack. -/
theorem Scan.push {kinds : List (Parts × Kind)} {done todo : List Parts} {path : Parts}
    {state : OpenDirectories} (scan : Scan kinds done (path :: todo) state)
    (isDirectory : (path, Kind.directory) ∈ kinds) (notFile : (path, Kind.file) ∉ kinds)
    (before : ∀ earlier ∈ done, earlier < path) (above : ∀ entry ∈ state.active, Below entry.1 path) :
    Scan kinds (done ++ [path]) todo { state with active := (path, false) :: state.active } := by
  have seen : ∀ file ∈ done ++ [path], (file, Kind.file) ∈ kinds → file ∈ done := by
    intro file member isFile
    rcases List.mem_append.mp member with earlier | last
    · exact earlier
    · rw [List.mem_singleton.mp last] at isFile
      exact absurd isFile notFile
  have behindTop : ∀ directory ∈ done ++ [path],
      directory ∉ ((path, false) :: state.active).map Prod.fst →
      directory ∈ done ∧ directory ∉ state.active.map Prod.fst := by
    intro directory member notOpen
    rw [List.map_cons, List.mem_cons, not_or] at notOpen
    rcases List.mem_append.mp member with earlier | last
    · exact ⟨earlier, notOpen.2⟩
    · exact absurd (List.mem_singleton.mp last) notOpen.1
  refine ⟨?_, List.pairwise_cons.mpr ⟨above, scan.line⟩, ?_, ?_, ?_, ?_⟩
  · intro entry member
    rcases List.mem_cons.mp member with rfl | inActive
    · exact ⟨List.mem_append_right done (List.mem_singleton_self path), isDirectory⟩
    · exact ⟨List.mem_append_left _ (scan.opened entry inActive).1, (scan.opened entry inActive).2⟩
  · intro entry member mark
    rcases List.mem_cons.mp member with rfl | inActive
    · cases mark
    · rcases scan.sound entry inActive mark with ⟨file, earlier, isFile, below⟩
      exact ⟨file, List.mem_append_left _ earlier, isFile, below⟩
  · intro file member isFile entry inStack below
    have earlier := seen file member isFile
    rcases List.mem_cons.mp inStack with rfl | inActive
    · exact absurd (before file earlier) (lt_asymm below.lt)
    · rcases scan.complete file earlier isFile entry inActive below with ⟨marked, markedOpen, rest⟩
      exact ⟨marked, List.mem_cons_of_mem _ markedOpen, rest⟩
  · intro directory member isDirectory notOpen later follows
    rcases behindTop directory member notOpen with ⟨earlier, closed⟩
    exact scan.closed directory earlier isDirectory closed later (List.mem_cons_of_mem path follows)
  · rw [scan.failures]
    constructor
    · intro all directory member isDirectory notOpen
      rcases behindTop directory member notOpen with ⟨earlier, closed⟩
      rcases all directory earlier isDirectory closed with ⟨file, inDone, isFile, below⟩
      exact ⟨file, List.mem_append_left _ inDone, isFile, below⟩
    · intro all directory earlier isDirectory closed
      have notOpen : directory ∉ ((path, false) :: state.active).map Prod.fst := by
        rw [List.map_cons, List.mem_cons, not_or]
        exact ⟨(before directory earlier).ne, closed⟩
      rcases all directory (List.mem_append_left _ earlier) isDirectory notOpen with ⟨file, member, isFile, below⟩
      exact ⟨file, seen file member isFile, isFile, below⟩

/-- A file marks the directory it lies in. -/
theorem Scan.mark {kinds : List (Parts × Kind)} {done todo : List Parts} {path : Parts}
    {state : OpenDirectories} (scan : Scan kinds done (path :: todo) state)
    (isFile : (path, Kind.file) ∈ kinds) (notDirectory : (path, Kind.directory) ∉ kinds)
    (above : ∀ entry ∈ state.active, Below entry.1 path) :
    Scan kinds (done ++ [path]) todo { state with active := markTop state.active } := by
  have seen : ∀ directory ∈ done ++ [path], (directory, Kind.directory) ∈ kinds → directory ∈ done := by
    intro directory member isDirectory
    rcases List.mem_append.mp member with earlier | last
    · exact earlier
    · rw [List.mem_singleton.mp last] at isDirectory
      exact absurd isDirectory notDirectory
  have lastSeen : path ∈ done ++ [path] := List.mem_append_right done (List.mem_singleton_self path)
  refine ⟨?_, pairwise_markTop scan.line, ?_, ?_, ?_, ?_⟩
  · intro entry member
    rcases path_mem_of_mem_markTop member with ⟨before, inActive, same⟩
    rw [← same]
    exact ⟨List.mem_append_left _ (scan.opened before inActive).1, (scan.opened before inActive).2⟩
  · intro entry member mark
    rcases path_mem_of_mem_markTop member with ⟨before, inActive, same⟩
    exact ⟨path, lastSeen, isFile, same ▸ above before inActive⟩
  · intro file member fileKind entry inMarked below
    rcases path_mem_of_mem_markTop inMarked with ⟨before, inActive, same⟩
    rcases List.mem_append.mp member with earlier | last
    · rcases scan.complete file earlier fileKind before inActive (same ▸ below) with
        ⟨⟨marked, mark⟩, isOpen, rfl, isPrefix, markedBelow⟩
      exact ⟨(marked, true), mem_markTop_of_marked isOpen, rfl, same ▸ isPrefix, markedBelow⟩
    · rw [List.mem_singleton.mp last]
      -- the top of the stack is marked now, and it is at or below the entry
      have line := scan.line
      cases active : state.active with
      | nil =>
          rw [active] at inActive
          exact absurd inActive List.not_mem_nil
      | cons top rest =>
          rw [active] at inMarked line
          exact ⟨(top.1, true), List.mem_cons_self, rfl, @prefix_top_of_mem top rest entry line inMarked,
            above top (active ▸ List.mem_cons_self)⟩
  · intro directory member isDirectory notOpen later follows
    rw [map_fst_markTop] at notOpen
    exact scan.closed directory (seen directory member isDirectory) isDirectory notOpen later
      (List.mem_cons_of_mem path follows)
  · rw [scan.failures, map_fst_markTop]
    constructor
    · intro all directory member isDirectory closed
      rcases all directory (seen directory member isDirectory) isDirectory closed with
        ⟨file, earlier, fileKind, below⟩
      exact ⟨file, List.mem_append_left _ earlier, fileKind, below⟩
    · intro all directory earlier isDirectory closed
      rcases all directory (List.mem_append_left _ earlier) isDirectory closed with
        ⟨file, member, fileKind, below⟩
      rcases List.mem_append.mp member with inDone | last
      · exact ⟨file, inDone, fileKind, below⟩
      · -- a closed directory has nothing below it among what follows
        rw [List.mem_singleton.mp last] at below
        exact absurd below.1 (scan.closed directory earlier isDirectory closed path List.mem_cons_self)

/-- One turn of the scan: the path moves from what follows to what was seen. -/
theorem visitPath_scan {kinds : List (Parts × Kind)} {done todo : List Parts} {path : Parts}
    {state : OpenDirectories} (oneKind : OneKind kinds) (scan : Scan kinds done (path :: todo) state)
    (kind : (path, Kind.file) ∈ kinds ∨ (path, Kind.directory) ∈ kinds)
    (sorted : (done ++ path :: todo).Pairwise (· < ·)) :
    Scan kinds (done ++ [path]) todo (visitPath kinds state path) := by
  have before : ∀ directory ∈ done, directory < path := fun directory member =>
    (List.pairwise_append.mp sorted).2.2 directory member path List.mem_cons_self
  have after : ∀ later ∈ todo, path < later := (List.pairwise_cons.mp (List.pairwise_append.mp sorted).2.1).1
  have behind : ∀ directory ∈ done,
      ¬ (directory.length < path.length ∧ path.take directory.length = directory) →
      ∀ later ∈ path :: todo, ¬ directory <+: later := by
    intro directory member notAbove later follows isPrefix
    have atPath : directory <+: path := by
      rcases List.mem_cons.mp follows with rfl | inTodo
      · exact isPrefix
      · exact prefix_of_between (before directory member).le (after later inTodo).le isPrefix
    apply notAbove
    refine ⟨(below_iff_length.mp ⟨atPath, (before directory member).ne⟩).2, ?_⟩
    exact (List.prefix_iff_eq_take.mp atPath).symm
  rcases closeUntil_scan scan (Nat.le_refl _) behind with ⟨closedScan, stops⟩
  unfold visitPath
  dsimp only
  generalize closeUntil (fun parent => parent.length < path.length ∧ path.take parent.length = parent)
    state.active.length state = closed at closedScan stops ⊢
  have above : ∀ entry ∈ closed.active, Below entry.1 path := by
    apply closedScan.below_of_top
    intro entry isTop
    have stopped := stops entry isTop
    exact below_iff_length.mpr ⟨List.prefix_iff_eq_take.mpr stopped.2.symm, stopped.1⟩
  rcases kind with isFile | isDirectory
  · have notDirectory : (path, Kind.directory) ∉ kinds := fun both => oneKind path ⟨both, isFile⟩
    rw [if_neg notDirectory]
    have marked := closedScan.mark isFile notDirectory above
    cases active : closed.active with
    | nil =>
        rw [active, markTop] at marked
        rcases closed with ⟨failures, _⟩
        cases active
        exact marked
    | cons top rest =>
        rw [active] at marked above
        dsimp only
        rw [if_pos ⟨isFile, (above top List.mem_cons_self).2⟩]
        exact marked
  · have notFile : (path, Kind.file) ∉ kinds := fun both => oneKind path ⟨isDirectory, both⟩
    rw [if_pos isDirectory]
    dsimp only
    rw [if_neg fun both => notFile both.1]
    exact closedScan.push isDirectory notFile before above

/-- The whole scan. -/
theorem foldl_visitPath_scan {kinds : List (Parts × Kind)} {done todo : List Parts} {state : OpenDirectories}
    (oneKind : OneKind kinds) (scan : Scan kinds done todo state)
    (kind : ∀ path ∈ todo, (path, Kind.file) ∈ kinds ∨ (path, Kind.directory) ∈ kinds)
    (sorted : (done ++ todo).Pairwise (· < ·)) :
    Scan kinds (done ++ todo) [] (todo.foldl (visitPath kinds) state) := by
  induction todo generalizing done state with
  | nil =>
      rw [List.append_nil]
      exact scan
  | cons path rest ih =>
      have stepped := visitPath_scan oneKind scan (kind path List.mem_cons_self) sorted
      have split : done ++ path :: rest = (done ++ [path]) ++ rest := by
        rw [List.append_assoc, List.singleton_append]
      rw [split] at sorted ⊢
      exact ih stepped (fun later member => kind later (List.mem_cons_of_mem path member)) sorted

/-- The scan reports nothing when every directory has a file below it. -/
theorem emptyDirectories_iff {kinds : List (Parts × Kind)} {paths : List Parts} {visited : OpenDirectories}
    (oneKind : OneKind kinds)
    (kind : ∀ path ∈ paths, (path, Kind.file) ∈ kinds ∨ (path, Kind.directory) ∈ kinds)
    (sorted : paths.Pairwise (· < ·))
    (run : paths.foldl (visitPath kinds) { failures := [], active := [] } = visited) :
    (closeUntil (fun _ => False) visited.active.length visited).failures = [] ↔
      ∀ directory ∈ paths, (directory, Kind.directory) ∈ kinds →
        ∃ file ∈ paths, (file, Kind.file) ∈ kinds ∧ Below directory file := by
  have start : Scan kinds [] paths { failures := [], active := [] } := by
    refine ⟨?_, List.Pairwise.nil, ?_, ?_, ?_, ?_⟩
    · exact fun entry member => absurd member List.not_mem_nil
    · exact fun entry member => absurd member List.not_mem_nil
    · exact fun file member => absurd member List.not_mem_nil
    · exact fun directory member => absurd member List.not_mem_nil
    · exact iff_of_true rfl fun directory member => absurd member List.not_mem_nil
  have scanned := foldl_visitPath_scan oneKind start kind sorted
  rw [List.nil_append, run] at scanned
  rcases closeUntil_scan scanned (Nat.le_refl visited.active.length)
    (fun directory _ (_ : ¬ (fun _ => False) directory) later follows => absurd follows List.not_mem_nil) with
    ⟨final, noTop⟩
  have allClosed : (closeUntil (fun _ => False) visited.active.length visited).active = [] := by
    cases active : (closeUntil (fun _ => False) visited.active.length visited).active with
    | nil => rfl
    | cons top rest => exact absurd (noTop top (by rw [active]; rfl)) id
  rw [final.failures, allClosed]
  constructor
  · exact fun all directory member isDirectory => all directory member isDirectory List.not_mem_nil
  · exact fun all directory member isDirectory _ => all directory member isDirectory

/-! ### The auditor's check -/

theorem eraseDups_of_nodup {paths : List Parts} (nodup : paths.Nodup) : paths.eraseDups = paths := by
  induction paths with
  | nil => rfl
  | cons path rest ih =>
      rw [List.nodup_cons] at nodup
      have others : (rest.filter fun other => !other == path) = rest := by
        apply List.filter_eq_self.mpr
        intro other member
        have different : other ≠ path := fun same => nodup.1 (same ▸ member)
        simpa using different
      rw [List.eraseDups_cons, others, ih nodup.2]

theorem mem_sortedParts {paths : List Parts} {path : Parts} : path ∈ sortedParts paths ↔ path ∈ paths :=
  List.mem_insertionSort (· ≤ ·)

/-- Distinct paths are sorted strictly. -/
theorem pairwise_sortedParts {paths : List Parts} (nodup : paths.Nodup) :
    (sortedParts paths).Pairwise (· < ·) := by
  have sorted := List.pairwise_insertionSort (· ≤ ·) paths
  have distinct : (sortedParts paths).Nodup := (List.perm_insertionSort (· ≤ ·) paths).nodup_iff.mpr nodup
  exact (List.Pairwise.and sorted distinct).imp fun both => lt_of_le_of_ne both.1 both.2

/-- A sorted list of paths is determined by its members. -/
theorem eq_sortedParts {paths others : List Parts} (sorted : paths.Pairwise (· < ·)) (nodup : others.Nodup)
    (same : ∀ path, path ∈ paths ↔ path ∈ others) : paths = sortedParts others :=
  sorted.eq_of_mem_iff (pairwise_sortedParts nodup) fun path => (same path).trans mem_sortedParts.symm

theorem sortedParts_of_sorted {paths : List Parts} (sorted : paths.Pairwise (· < ·)) :
    sortedParts paths = paths :=
  List.Pairwise.insertionSort_eq (sorted.imp le_of_lt)

/-- The files of a sequence of members. -/
def filesOf (sequence : List (Parts × Kind)) : List Parts :=
  (sequence.filter fun entry => entry.2 = Kind.file).map Prod.fst

theorem mem_filesOf {sequence : List (Parts × Kind)} {path : Parts} :
    path ∈ filesOf sequence ↔ (path, Kind.file) ∈ sequence := by
  rw [filesOf, List.mem_map]
  constructor
  · rintro ⟨⟨other, kind⟩, member, rfl⟩
    rw [List.mem_filter, decide_eq_true_eq] at member
    rcases member with ⟨member, rfl⟩
    exact member
  · intro member
    exact ⟨(path, Kind.file), List.mem_filter.mpr ⟨member, decide_eq_true rfl⟩, rfl⟩

/-- A path occurs once, so it has one kind. -/
theorem oneKind_of_nodup {sequence : List (Parts × Kind)} (distinct : (sequence.map Prod.fst).Nodup) :
    OneKind sequence := by
  intro path both
  have same := List.inj_on_of_nodup_map distinct both.1 both.2 rfl
  cases same

/-- When the parent of every deeper member is a directory among the members, so are all directories above. -/
theorem ancestors_mem_of_parents {sequence : List (Parts × Kind)}
    (parents : ∀ path ∈ sequence.map Prod.fst, 2 < path.length → (path.dropLast, Kind.directory) ∈ sequence)
    {path : Parts} (member : path ∈ sequence.map Prod.fst) {above : Parts} (below : Below above path)
    (deep : 2 ≤ above.length) : (above, Kind.directory) ∈ sequence := by
  induction path using List.reverseRecOn with
  | nil => exact absurd (List.prefix_nil.mp below.1) below.2
  | append_singleton front last ih =>
      have isPrefix : above <+: front := by
        rcases List.prefix_concat_iff.mp below.1 with same | shorter
        · exact absurd same below.2
        · exact shorter
      have parent : (front, Kind.directory) ∈ sequence := by
        have found := parents (front ++ [last]) member (by
          rw [List.length_append, List.length_singleton]
          exact Nat.lt_succ_of_le (deep.trans isPrefix.length_le))
        rw [List.dropLast_concat] at found
        exact found
      by_cases same : above = front
      · rw [same]
        exact parent
      · exact ih (List.mem_map.mpr ⟨_, parent, rfl⟩) ⟨isPrefix, same⟩

/-- The paths of the canonical sequence before they are sorted. -/
def canonicalPaths (files : List Parts) : List Parts := (files ++ files.flatMap (ancestors 2)).dedup

theorem mem_canonicalPaths {files : List Parts} {path : Parts} :
    path ∈ canonicalPaths files ↔ path ∈ files ∨ ∃ file ∈ files, Below path file ∧ 2 ≤ path.length := by
  rw [canonicalPaths, List.mem_dedup, List.mem_append, List.mem_flatMap]
  simp only [mem_ancestors]

/-- The entry of a path in the canonical sequence. -/
def canonicalEntry (files : List Parts) (path : Parts) : Parts × Kind :=
  (path, if path ∈ files then Kind.file else Kind.directory)

theorem canonicalSequence_eq (files : List Parts) :
    canonicalSequence files = (sortedParts (canonicalPaths files)).map (canonicalEntry files) := rfl

theorem map_fst_canonicalSequence (files : List Parts) :
    (canonicalSequence files).map Prod.fst = sortedParts (canonicalPaths files) := by
  rw [canonicalSequence_eq, List.map_map]
  exact List.map_id _

/-- The members of the canonical sequence. -/
theorem mem_canonicalSequence {files : List Parts} {path : Parts} {kind : Kind} :
    (path, kind) ∈ canonicalSequence files ↔
      path ∈ files ∧ kind = Kind.file ∨
      path ∉ files ∧ kind = Kind.directory ∧ ∃ file ∈ files, Below path file ∧ 2 ≤ path.length := by
  rw [canonicalSequence_eq, List.mem_map]
  constructor
  · rintro ⟨other, member, same⟩
    cases same
    rw [mem_sortedParts, mem_canonicalPaths] at member
    by_cases isFile : path ∈ files
    · rw [if_pos isFile]
      exact Or.inl ⟨isFile, rfl⟩
    · rw [if_neg isFile]
      exact Or.inr ⟨isFile, rfl, member.resolve_left isFile⟩
  · rintro (⟨isFile, rfl⟩ | ⟨notFile, rfl, above⟩)
    · refine ⟨path, mem_sortedParts.mpr (mem_canonicalPaths.mpr (Or.inl isFile)), ?_⟩
      rw [canonicalEntry, if_pos isFile]
    · refine ⟨path, mem_sortedParts.mpr (mem_canonicalPaths.mpr (Or.inr above)), ?_⟩
      rw [canonicalEntry, if_neg notFile]

/-- A sorted sequence with the right members is the canonical one. -/
theorem eq_canonicalSequence {sequence : List (Parts × Kind)} {files : List Parts}
    (sorted : (sequence.map Prod.fst).Pairwise (· < ·))
    (kinds : ∀ entry ∈ sequence, entry.2 = Kind.file ∨ entry.2 = Kind.directory)
    (isFile : ∀ path, (path, Kind.file) ∈ sequence ↔ path ∈ files)
    (isDirectory : ∀ path, (path, Kind.directory) ∈ sequence ↔
      path ∉ files ∧ ∃ file ∈ files, Below path file ∧ 2 ≤ path.length) :
    sequence = canonicalSequence files := by
  have entries : sequence = (sequence.map Prod.fst).map (canonicalEntry files) := by
    rw [List.map_map]
    refine (List.map_id sequence).symm.trans (List.map_congr_left fun entry member => ?_)
    rcases entry with ⟨path, kind⟩
    rcases kinds _ member with file | directory
    · cases file
      rw [Function.comp_apply, canonicalEntry, if_pos ((isFile path).mp member), id]
    · cases directory
      rw [Function.comp_apply, canonicalEntry, if_neg ((isDirectory path).mp member).1, id]
  have paths : sequence.map Prod.fst = sortedParts (canonicalPaths files) := by
    refine eq_sortedParts sorted (List.nodup_dedup _) fun path => ?_
    rw [mem_canonicalPaths]
    constructor
    · intro member
      rcases List.mem_map.mp member with ⟨⟨other, kind⟩, inSequence, rfl⟩
      rcases kinds _ inSequence with file | directory
      · cases file
        exact Or.inl ((isFile other).mp inSequence)
      · cases directory
        exact Or.inr ((isDirectory other).mp inSequence).2
    · intro member
      by_cases file : path ∈ files
      · exact List.mem_map.mpr ⟨_, (isFile path).mpr file, rfl⟩
      · exact List.mem_map.mpr ⟨_, (isDirectory path).mpr ⟨file, member.resolve_left file⟩, rfl⟩
  exact entries.trans (congrArg (List.map (canonicalEntry files)) paths)

/-- What the check looks at, on distinct paths. -/
theorem validateBuilderTopology_eq_nil {sequence : List (Parts × Kind)}
    (distinct : (sequence.map Prod.fst).Nodup)
    (kinds : ∀ entry ∈ sequence, entry.2 = Kind.file ∨ entry.2 = Kind.directory) :
    validateBuilderTopology (sequence.map Prod.fst) sequence = [] ↔
      (∀ path ∈ sequence.map Prod.fst, path.length ≠ 1) ∧
      (sequence.map Prod.fst).Pairwise (· < ·) ∧
      (∀ path ∈ sequence.map Prod.fst, 2 < path.length → (path.dropLast, Kind.directory) ∈ sequence) ∧
      ∀ directory, (directory, Kind.directory) ∈ sequence →
        ∃ file, (file, Kind.file) ∈ sequence ∧ Below directory file := by
  have ordered : sequence.map Prod.fst = sortedParts (sequence.map Prod.fst) ↔
      (sequence.map Prod.fst).Pairwise (· < ·) := by
    constructor
    · intro same
      rw [same]
      exact pairwise_sortedParts distinct
    · exact fun sorted => (sortedParts_of_sorted sorted).symm
  have kind : ∀ path ∈ sortedParts (sequence.map Prod.fst),
      (path, Kind.file) ∈ sequence ∨ (path, Kind.directory) ∈ sequence := by
    intro path member
    rcases List.mem_map.mp (mem_sortedParts.mp member) with ⟨⟨other, which⟩, inSequence, rfl⟩
    rcases kinds _ inSequence with isFile | isDirectory
    · exact Or.inl (isFile ▸ inSequence)
    · exact Or.inr (isDirectory ▸ inSequence)
  have scanned := emptyDirectories_iff (oneKind_of_nodup distinct) kind (pairwise_sortedParts distinct) rfl
  have inPaths : ∀ {path which}, (path, which) ∈ sequence → path ∈ sortedParts (sequence.map Prod.fst) :=
    fun member => mem_sortedParts.mpr (List.mem_map.mpr ⟨_, member, rfl⟩)
  have emptyDirectories : (∀ directory ∈ sortedParts (sequence.map Prod.fst),
      (directory, Kind.directory) ∈ sequence → ∃ file ∈ sortedParts (sequence.map Prod.fst),
        (file, Kind.file) ∈ sequence ∧ Below directory file) ↔
      ∀ directory, (directory, Kind.directory) ∈ sequence →
        ∃ file, (file, Kind.file) ∈ sequence ∧ Below directory file := by
    constructor
    · intro all directory isDirectory
      rcases all directory (inPaths isDirectory) isDirectory with ⟨file, _, isFile, below⟩
      exact ⟨file, isFile, below⟩
    · intro all directory _ isDirectory
      rcases all directory isDirectory with ⟨file, isFile, below⟩
      exact ⟨file, inPaths isFile, isFile, below⟩
  have parents : ((sequence.map Prod.fst).flatMap fun path =>
      failIf (2 < path.length ∧ (path.dropLast, Kind.directory) ∉ sequence)
        s!"archive parent directory is missing: {partsText path.dropLast}") = [] ↔
      ∀ path ∈ sequence.map Prod.fst, 2 < path.length → (path.dropLast, Kind.directory) ∈ sequence := by
    rw [List.flatMap_eq_nil_iff]
    simp only [failIf_eq_nil, not_and, not_not]
  unfold validateBuilderTopology
  dsimp only
  rw [eraseDups_of_nodup distinct, List.append_eq_nil_iff, List.append_eq_nil_iff, List.append_eq_nil_iff,
    failIf_eq_nil, failIf_eq_nil, parents, scanned, not_not, ordered, emptyDirectories, and_assoc, and_assoc]
  refine and_congr_left' ?_
  constructor
  · exact fun none path member one => none ⟨path, member, one⟩
  · rintro all ⟨path, member, one⟩
    exact all path member one

/-- The check accepts exactly the canonical sequences. -/
theorem topology_iff {sequence : List (Parts × Kind)} (distinct : (sequence.map Prod.fst).Nodup)
    (nonempty : ∀ entry ∈ sequence, entry.1 ≠ [])
    (kinds : ∀ entry ∈ sequence, entry.2 = Kind.file ∨ entry.2 = Kind.directory) :
    validateBuilderTopology (sequence.map Prod.fst) sequence = [] ↔
      ∃ files : List Parts, (∀ file ∈ files, 2 ≤ file.length) ∧
        (∀ file ∈ files, ∀ other ∈ files, ¬ Below file other) ∧ sequence = canonicalSequence files := by
  rw [validateBuilderTopology_eq_nil distinct kinds]
  constructor
  · rintro ⟨notRoot, sorted, parents, nonemptyDirectories⟩
    have deep : ∀ entry ∈ sequence, 2 ≤ entry.1.length := by
      intro entry member
      have positive := List.length_pos_of_ne_nil (nonempty entry member)
      have notOne := notRoot entry.1 (List.mem_map.mpr ⟨entry, member, rfl⟩)
      omega
    have above : ∀ file ∈ filesOf sequence, ∀ directory, Below directory file → 2 ≤ directory.length →
        (directory, Kind.directory) ∈ sequence := by
      intro file isFile directory below long
      exact ancestors_mem_of_parents parents (List.mem_map.mpr ⟨_, mem_filesOf.mp isFile, rfl⟩) below long
    have oneKind := oneKind_of_nodup distinct
    refine ⟨filesOf sequence, ?_, ?_, ?_⟩
    · exact fun file isFile => deep _ (mem_filesOf.mp isFile)
    · intro file isFile other isOther below
      have isDirectory := above other isOther file below (deep _ (mem_filesOf.mp isFile))
      exact oneKind file ⟨isDirectory, mem_filesOf.mp isFile⟩
    · refine eq_canonicalSequence sorted kinds (fun path => mem_filesOf.symm) fun path => ?_
      constructor
      · intro isDirectory
        rcases nonemptyDirectories path isDirectory with ⟨file, isFile, below⟩
        exact ⟨fun both => oneKind path ⟨isDirectory, mem_filesOf.mp both⟩, file, mem_filesOf.mpr isFile, below,
          deep _ isDirectory⟩
      · rintro ⟨_, file, isFile, below, long⟩
        exact above file isFile path below long
  · rintro ⟨files, deep, apart, rfl⟩
    refine ⟨?_, ?_, ?_, ?_⟩
    · intro path member one
      rw [map_fst_canonicalSequence, mem_sortedParts, mem_canonicalPaths] at member
      rcases member with isFile | ⟨file, _, _, long⟩
      · exact absurd (deep path isFile) (by omega)
      · omega
    · rw [map_fst_canonicalSequence]
      exact pairwise_sortedParts (List.nodup_dedup _)
    · intro path member long
      rw [map_fst_canonicalSequence, mem_sortedParts, mem_canonicalPaths] at member
      have parentBelow : Below path.dropLast path := by
        rw [below_iff_length]
        refine ⟨List.dropLast_prefix path, ?_⟩
        rw [List.length_dropLast]
        omega
      have parentLong : 2 ≤ path.dropLast.length := by
        rw [List.length_dropLast]
        omega
      have fileBelow : ∃ file ∈ files, Below path.dropLast file := by
        rcases member with isFile | ⟨file, isFile, below, _⟩
        · exact ⟨path, isFile, parentBelow⟩
        · exact ⟨file, isFile, parentBelow.trans below⟩
      rcases fileBelow with ⟨file, isFile, below⟩
      exact mem_canonicalSequence.mpr
        (Or.inr ⟨fun both => apart _ both file isFile below, rfl, file, isFile, below, parentLong⟩)
    · intro directory member
      rcases mem_canonicalSequence.mp member with ⟨_, isFile⟩ | ⟨_, _, file, isFile, below, _⟩
      · cases isFile
      · exact ⟨file, mem_canonicalSequence.mpr (Or.inl ⟨isFile, rfl⟩), below⟩

end ExitfyCores.Bundle
