/-
Module: ExitfyCores.Proofs.NdkVersions
Layer: Proofs
Purpose: The comparison of versions is the order of their components, filled up with zeros, and the search keeps a
  greatest version.
Imports: ExitfyCores.Lib.Raise, ExitfyCores.Ndk.Discovery
Trusted boundary: none
Main exports: components, Version, greaterFrom_iff, exitfyNumericVersionGreater_iff, greatest_scan, versionOrder
Open obligations: none
-/
import ExitfyCores.Lib.Raise
import ExitfyCores.Ndk.Discovery

namespace ExitfyCores.Ndk

open Numerals WeakOrder

/-- The number that a part of a version spells. -/
def component (part : Bytes) : Nat := value 10 (part.map digitOf)

/-- The components of a version. -/
def components (text : Bytes) : List Nat := (text.splitOn (byte '.')).map component

/-- A dotted numeric version. -/
structure Version where
  text : Bytes
  numeric : isNumericVersion text = true

/-! ### One component -/

/-- A part as the expression admits it. -/
structure IsPart (part : Bytes) : Prop where
  filled : part ≠ []
  digits : part.all isDigit = true

theorem isNumericVersion_iff {text : Bytes} :
    isNumericVersion text = true ↔ ∀ part ∈ text.splitOn (byte '.'), IsPart part := by
  unfold isNumericVersion
  rw [List.all_eq_true]
  constructor
  · intro all part member
    have both := all part member
    simp only [Bool.and_eq_true, Bool.not_eq_true', List.isEmpty_eq_false_iff] at both
    exact ⟨both.1, both.2⟩
  · intro all part member
    simp [(all part member).filled, (all part member).digits]

/-- What is left of a part without zeros in front. -/
structure Stripped (part stripped : Bytes) : Prop extends IsPart stripped where
  same : component stripped = component part
  leads : Leads (stripped.map digitOf)

theorem stripped_stripZeros {part : Bytes} (isPart : IsPart part) : Stripped part (stripZeros part) := by
  induction part with
  | nil => exact absurd rfl isPart.filled
  | cons b rest ih =>
      rw [stripZeros]
      split
      · next zero =>
          have digits := isPart.digits
          rw [List.all_cons, Bool.and_eq_true] at digits
          have tail := ih ⟨zero.1, digits.2⟩
          have dropped : component rest = component (b :: rest) := by
            rw [zero.2]
            exact value_zero_cons.symm
          exact ⟨tail.toIsPart, tail.same.trans dropped, tail.leads⟩
      · next kept =>
          refine ⟨isPart, rfl, leads_map isPart.digits fun zero => ?_⟩
          have alone : rest = [] := by
            by_contra more
            exact kept ⟨more, Option.some.inj zero⟩
          rw [alone]
          rfl

/-- The comparison of two parts is the comparison of the numbers they spell. -/
theorem compareParts_stripZeros {left right : Bytes} (isLeft : IsPart left) (isRight : IsPart right) :
    compareParts (stripZeros left) (stripZeros right) =
      if component right < component left then some true
      else if component left < component right then some false else none := by
  have one := stripped_stripZeros isLeft
  have two := stripped_stripZeros isRight
  rw [← one.same, ← two.same]
  have longer : ∀ {a b : Bytes} {a' b' : Bytes}, Stripped a a' → Stripped b b' → a'.length < b'.length →
      component a' < component b' := by
    intro a b a' b' first second more
    exact value_lt_of_longer (by decide) (isDigits_map first.digits) (by simpa using first.filled) second.leads
      (by simpa using more)
  unfold compareParts
  rcases Nat.lt_trichotomy (stripZeros left).length (stripZeros right).length with less | same | more
  · have below := longer one two less
    simp [Nat.not_lt_of_lt less, less, below, Nat.not_lt_of_lt below]
  · have order : ∀ {a b a' b' : Bytes}, Stripped a a' → Stripped b b' → a'.length = b'.length →
        (component a' < component b' ↔ a' < b') := by
      intro a b a' b' first second equal
      rw [← map_digitOf_lt_iff first.digits second.digits]
      exact value_lt_iff (by decide) (isDigits_map first.digits) (isDigits_map second.digits) (by simpa using equal)
    simp only [same, Nat.lt_irrefl, if_false, order one two same, order two one same.symm]
  · have above := longer two one more
    simp [more, above]

/-! ### The loop -/

/-- The component at an index, zero behind the last. -/
def componentAt (parts : List Bytes) (index : Nat) : Nat := component (partAt parts index)

theorem isPart_partAt {parts : List Bytes} (all : ∀ part ∈ parts, IsPart part) (index : Nat) :
    IsPart (partAt parts index) := by
  unfold partAt
  simp only
  split
  · exact ⟨by simp, by decide⟩
  · next filled =>
      rw [List.getD_eq_getElem?_getD] at filled ⊢
      cases found : parts[index]? with
      | none => simp [found] at filled
      | some part => exact all part (List.mem_of_getElem? found)

/-- The loop succeeds at the first component that differs, if it is greater on the left. -/
theorem greaterFrom_iff {left right : List Bytes} (allLeft : ∀ part ∈ left, IsPart part)
    (allRight : ∀ part ∈ right, IsPart part) {turns index : Nat} :
    greaterFrom left right turns index = true ↔
      ∃ i, index ≤ i ∧ i < index + turns ∧ (∀ j, index ≤ j → j < i → componentAt right j = componentAt left j) ∧
        componentAt right i < componentAt left i := by
  induction turns generalizing index with
  | zero =>
      simp only [greaterFrom, Bool.false_eq_true, false_iff]
      rintro ⟨i, above, below, _⟩
      omega
  | succ turns ih =>
      have compared : compareParts (stripZeros (partAt left index)) (stripZeros (partAt right index)) =
          if componentAt right index < componentAt left index then some true
          else if componentAt left index < componentAt right index then some false else none :=
        compareParts_stripZeros (isPart_partAt allLeft index) (isPart_partAt allRight index)
      rw [greaterFrom, compared]
      rcases Nat.lt_trichotomy (componentAt right index) (componentAt left index) with greater | same | less
      · simp only [greater, if_true, true_iff]
        exact ⟨index, Nat.le_refl _, by omega, fun j above below => by omega, greater⟩
      · simp only [same, Nat.lt_irrefl, if_false, ih]
        constructor
        · rintro ⟨i, above, below, equal, first⟩
          refine ⟨i, by omega, by omega, fun j from_ before => ?_, first⟩
          rcases Nat.eq_or_lt_of_le from_ with rfl | later
          · exact same
          · exact equal j later before
        · rintro ⟨i, above, below, equal, first⟩
          have later : index ≠ i := by
            rintro rfl
            omega
          exact ⟨i, by omega, by omega, fun j from_ before => equal j (by omega) before, first⟩
      · simp only [Nat.not_lt_of_lt less, if_false, less, if_true, Bool.false_eq_true, false_iff]
        rintro ⟨i, above, below, equal, first⟩
        rcases Nat.eq_or_lt_of_le above with rfl | later
        · omega
        · exact absurd (equal index (Nat.le_refl _) later) (Nat.ne_of_gt less)

/-! ### Versions -/

/-- What stands in a text is the separator or stands in a part. -/
theorem mem_part {b separator : UInt8} {text : Bytes} (member : b ∈ text) :
    b = separator ∨ ∃ part ∈ text.splitOn separator, b ∈ part := by
  induction text with
  | nil => cases member
  | cons c text ih =>
      rw [List.splitOn_cons_eq_if_modifyHead]
      split
      · next same =>
          rcases List.mem_cons.mp member with rfl | later
          · exact Or.inl (eq_of_beq same)
          · rcases ih later with isSeparator | ⟨part, inside, here⟩
            · exact Or.inl isSeparator
            · exact Or.inr ⟨part, List.mem_cons_of_mem _ inside, here⟩
      · cases parts : text.splitOn separator with
        | nil => exact absurd parts (List.splitOn_ne_nil _ _)
        | cons first rest =>
            rw [parts] at ih
            rcases List.mem_cons.mp member with rfl | later
            · exact Or.inr ⟨b :: first, List.mem_cons_self, List.mem_cons_self⟩
            · rcases ih later with isSeparator | ⟨part, inside, here⟩
              · exact Or.inl isSeparator
              · rcases List.mem_cons.mp inside with rfl | other
                · exact Or.inr ⟨c :: part, List.mem_cons_self, List.mem_cons_of_mem c here⟩
                · exact Or.inr ⟨part, List.mem_cons_of_mem _ other, here⟩

/-- The shell reads the parts of a version. -/
theorem readParts_version (version : Version) : readParts version.text = version.text.splitOn (byte '.') := by
  have parts := isNumericVersion_iff.mp version.numeric
  have plain : ∀ b ∈ version.text, decide (b ≠ 0x0A) = true := by
    intro b member
    rw [decide_eq_true_eq]
    rcases @mem_part b (byte '.') _ member with rfl | ⟨part, inside, here⟩
    · decide
    · have range := isDigit_iff.mp (List.all_eq_true.mp (parts part inside).digits b here)
      rintro rfl
      exact absurd range (by decide)
  have ended : (version.text.splitOn (byte '.')).getLast? ≠ some [] := by
    intro last
    exact (parts [] (List.mem_of_getLast? last)).filled rfl
  have oneLine : version.text.takeWhile (· ≠ 0x0A) = version.text := by
    have taken := @List.takeWhile_append_of_pos _ (fun b => decide (b ≠ 0x0A)) version.text [] plain
    simpa only [List.append_nil, List.takeWhile_nil] using taken
  rw [readParts, oneLine, fields]
  exact if_neg ended

/-- The components that the loop compares are those of the version. -/
theorem componentAt_version (version : Version) (index : Nat) :
    componentAt (readParts version.text) index = (components version.text).getD index 0 := by
  have parts := isNumericVersion_iff.mp version.numeric
  rw [readParts_version]
  simp only [componentAt, components, partAt, List.getD_eq_getElem?_getD, List.getElem?_map]
  cases found : (version.text.splitOn (byte '.'))[index]? with
  | none => decide
  | some part => simp [(parts part (List.mem_of_getElem? found)).filled]

theorem length_components (version : Version) : (components version.text).length = (readParts version.text).length := by
  rw [readParts_version, components, List.length_map]

/-- The comparison, on the components as if zeros went on behind them. -/
theorem greater_iff_padded (left right : Version) : exitfyNumericVersionGreater left.text right.text = true ↔
    padded 0 (components right.text) < padded 0 (components left.text) := by
  have allLeft := isNumericVersion_iff.mp left.numeric
  have allRight := isNumericVersion_iff.mp right.numeric
  rw [← readParts_version] at allLeft allRight
  rw [exitfyNumericVersionGreater, greaterFrom_iff allLeft allRight, padded_lt_iff]
  simp only [componentAt_version]
  constructor
  · rintro ⟨i, _, _, equal, less⟩
    exact ⟨i, fun j before => equal j (Nat.zero_le j) before, less⟩
  · rintro ⟨i, equal, less⟩
    have inside : i < (components left.text).length := by
      by_contra beyond
      rw [List.getD_eq_default (components left.text) 0 (Nat.le_of_not_lt beyond)] at less
      exact absurd less (Nat.not_lt_zero _)
    rw [length_components] at inside
    exact ⟨i, Nat.zero_le i, by omega, fun j _ before => equal j before, less⟩

/-- The comparison, on the components filled up with zeros to one length. -/
theorem exitfyNumericVersionGreater_iff (left right : Version) :
    let count := max (components left.text).length (components right.text).length
    exitfyNumericVersionGreater left.text right.text = true ↔
      padTo 0 count (components right.text) < padTo 0 count (components left.text) := by
  intro count
  rw [greater_iff_padded, padTo_lt_iff (Nat.le_max_right _ _) (Nat.le_max_left _ _)]

theorem strictWeakOrder_version :
    IsStrictWeakOrder Version fun left right => exitfyNumericVersionGreater left.text right.text = true :=
  strictWeakOrder_of_key (fun version => padded 0 (components version.text)) greater_iff_padded

/-! ### The search -/

def Candidate.version (candidate : Candidate) : Version := ⟨candidate.revision, candidate.numeric⟩

/-- The order in which the search compares directories. -/
def newer (left right : Candidate) : Bool := exitfyNumericVersionGreater left.revision right.revision

instance : IsStrictWeakOrder Candidate fun left right => newer left right = true :=
  strictWeakOrder_of_key (fun candidate => padded 0 (components candidate.revision)) fun left right =>
    greater_iff_padded left.version right.version

/-- The directories that take part. -/
def candidates (fs : FileSystem) (directory : Bytes) : List Candidate :=
  (fs.listing directory).filterMap (candidate? fs directory)

theorem scan_eq (fs : FileSystem) (directory : Bytes) :
    scan fs directory = (candidates fs directory).foldl (keepGreatest newer) none := by
  rw [scan, candidates, List.foldl_filterMap]
  congr 1
  funext best name
  rw [scanName]
  cases candidate? fs directory name with
  | none => rfl
  | some candidate => cases best <;> rfl

/-- The scan keeps a greatest version, in whatever order the names come. -/
theorem greatest_scan (fs : FileSystem) (directory : Bytes) :
    Greatest newer (candidates fs directory) (scan fs directory) :=
  scan_eq fs directory ▸ greatest_keepGreatest (candidates fs directory)

/-- Where nothing is pinned and no NDK is set, the path that is printed is a greatest version of an SDK directory. -/
theorem searchSdk_unpinned {fs : FileSystem} {sdk found : Bytes} (search : searchSdk fs [] sdk = .ok (some found)) :
    ∃ best ∈ candidates fs (sdk ++ lit "/ndk"), found = best.path ∧
      ∀ other ∈ candidates fs (sdk ++ lit "/ndk"), newer other best = false := by
  have greatest := greatest_scan fs (sdk ++ lit "/ndk")
  unfold searchSdk at search
  simp only [ne_eq, not_true_eq_false, if_false] at search
  split at search
  · cases best : scan fs (sdk ++ lit "/ndk") with
    | none =>
        rw [best] at search
        cases search
    | some candidate =>
        rw [best] at search greatest
        rcases bind_eq_ok search with ⟨_, _, printed⟩
        cases printed
        exact ⟨candidate, greatest.1, rfl, greatest.2⟩
  · cases search

theorem searchSdks_found {fs : FileSystem} {ndkVersion found : Bytes} {sdks : List Bytes}
    (search : searchSdks fs ndkVersion sdks = .ok (some found)) :
    ∃ sdk ∈ sdks, sdk ≠ [] ∧ searchSdk fs ndkVersion sdk = .ok (some found) := by
  induction sdks with
  | nil => cases search
  | cons sdk rest ih =>
      rw [searchSdks] at search
      split at search
      · rcases ih search with ⟨other, member, searched⟩
        exact ⟨other, List.mem_cons_of_mem sdk member, searched⟩
      · next filled =>
          rcases bind_eq_ok search with ⟨outcome, searched, later⟩
          cases outcome with
          | some printed =>
              cases later
              exact ⟨sdk, List.mem_cons_self, filled, searched⟩
          | none =>
              rcases ih later with ⟨other, member, searched⟩
              exact ⟨other, List.mem_cons_of_mem sdk member, searched⟩

/-- The comparison is the numeric order of the components, a strict weak order, and what the search prints is a greatest
version of an SDK directory. -/
theorem numericVersionOrder :
    (∀ left right : Version,
      exitfyNumericVersionGreater left.text right.text = true ↔
        padTo 0 (max (components left.text).length (components right.text).length) (components right.text) <
          padTo 0 (max (components left.text).length (components right.text).length) (components left.text)) ∧
    (IsStrictWeakOrder Version fun left right => exitfyNumericVersionGreater left.text right.text = true) ∧
    (∀ fs directory, Greatest newer (candidates fs directory) (scan fs directory)) ∧
    ∀ fs vars found, vars.ndkVersion = [] → vars.androidNdkHome = [] → vars.androidNdkRoot = [] →
      exitfyFindNdk fs vars = .ok found →
        ∃ sdk ∈ [vars.androidSdkRoot, vars.androidHome], ∃ best ∈ candidates fs (sdk ++ lit "/ndk"),
          found = best.path ∧ ∀ other ∈ candidates fs (sdk ++ lit "/ndk"), newer other best = false := by
  refine ⟨exitfyNumericVersionGreater_iff, strictWeakOrder_version, greatest_scan, ?_⟩
  intro fs vars found unpinned noHome noRoot run
  unfold exitfyFindNdk at run
  simp only [unpinned, noHome, noRoot, ne_eq, not_true_eq_false, false_and, if_false, decide_false, List.find?_cons,
    List.find?_nil] at run
  rcases bind_eq_ok run with ⟨outcome, searched, printed⟩
  cases outcome with
  | none => cases printed
  | some path =>
      cases printed
      rcases searchSdks_found searched with ⟨sdk, member, _, inside⟩
      exact ⟨sdk, member, searchSdk_unpinned inside⟩

end ExitfyCores.Ndk
