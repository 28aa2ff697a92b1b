/-
Module: ExitfyCores.Proofs.PublicFile
Layer: Proofs
Purpose: A file passes the public audit exactly when it is clean: what the searches and the regular expressions of
  `_audit_bytes` find is what `CleanFile` forbids.
Imports: Mathlib.Data.List.Infix, ExitfyCores.Public.Checkout
Trusted boundary: none
Main exports: containsText_iff, containsLocalHostPath_iff, unpinned_eq_false_iff, auditBytes_eq_nil_iff
Open obligations: none
-/
import Mathlib.Data.List.Infix
import ExitfyCores.Public.Checkout

namespace ExitfyCores.Public

open ExitfyCores.Bundle

/-! ### Text within text -/

theorem exists_tail_prefix_iff {α : Type} {word text : List α} :
    (∃ tail ∈ text.tails, word <+: tail) ↔ word <:+: text := by
  simp only [List.mem_tails]
  rw [List.infix_iff_prefix_suffix]
  exact ⟨fun ⟨tail, suffix, starts⟩ => ⟨tail, starts, suffix⟩, fun ⟨tail, starts, suffix⟩ => ⟨tail, suffix, starts⟩⟩

theorem containsText_iff {needle text : List Char} : containsText needle text = true ↔ needle <:+: text := by
  unfold containsText
  rw [List.any_eq_true, ← exists_tail_prefix_iff]
  simp only [List.isPrefixOf_iff_prefix]

theorem forbiddenNamespacePath_iff {relative : Bytes} :
    forbiddenNamespacePath relative = true ↔
      ∃ forbidden ∈ [["com".toList, "exteragram".toList], ["org".toList, "telegram".toList]],
        forbidden <:+: (posixPath relative).parts.map lowerText := by
  unfold forbiddenNamespacePath
  rw [List.any_eq_true]
  simp only [List.mem_cons, List.not_mem_nil, or_false, exists_eq_or_imp, exists_eq_left, Bool.or_eq_true,
    List.isPrefixOf_iff_prefix]
  constructor
  · rintro ⟨tail, member, starts | starts⟩
    · exact .inl (exists_tail_prefix_iff.mp ⟨tail, member, starts⟩)
    · exact .inr (exists_tail_prefix_iff.mp ⟨tail, member, starts⟩)
  · rintro (found | found)
    · obtain ⟨tail, member, starts⟩ := exists_tail_prefix_iff.mpr found
      exact ⟨tail, member, .inl starts⟩
    · obtain ⟨tail, member, starts⟩ := exists_tail_prefix_iff.mpr found
      exact ⟨tail, member, .inr starts⟩

/-! ### Host paths -/

theorem exactly_matches {word : String} {before : Option Char} {read after : List Char} :
    (exactly word).Matches before read after ↔ read = word.toList := by
  have shape : exactly word = .seqs ((word.toList.map fun c => (· == c)).map Regex.sat) := by
    simp [exactly, List.map_map, Function.comp_def]
  rw [shape, Regex.matches_seqs_sat, List.forall₂_map_left_iff]
  constructor
  · intro same
    exact (List.forall₂_eq_eq_eq ▸ same.imp (fun c d equal => (beq_iff_eq.mp equal).symm) : word.toList = read).symm
  · rintro rfl
    exact List.forall₂_same.mpr fun c _ => beq_self_eq_true c

/-- Behind a word symbol, a slash or the end of a word follows where no word symbol does. -/
theorem pathEnd_matches {isLetter : Char → Bool} {last : Char} (word : isWord isLetter last = true)
    {text : List Char} :
    (∃ read after, text = read ++ after ∧ (pathEnd isLetter).Matches (some last) read after) ↔
      ∀ c ∈ text.head?, isWord isLetter c = false := by
  have slash : isWord isLetter '/' = false := by simp [isWord, isWordASCII]
  simp only [pathEnd, Regex.matches_alts, List.mem_cons, List.not_mem_nil, or_false, exists_eq_or_imp, exists_eq_left,
    exactly_matches]
  constructor
  · rintro ⟨read, after, rfl, rfl | ⟨rfl, differ⟩⟩
    · intro c head
      obtain rfl : '/' = c := Option.some.inj head
      exact slash
    · intro c head
      rw [List.nil_append] at head
      rw [show after.head? = some c from head] at differ
      simpa [Regex.wordSide, word] using differ
  · intro ended
    refine ⟨[], text, rfl, .inr ⟨rfl, ?_⟩⟩
    cases head : text.head? with
    | none => simp [Regex.wordSide, word]
    | some c => simp [Regex.wordSide, word, ended c head]

/-- A slash, a name and the end of a path. -/
theorem pathPattern_ends {isLetter : Char → Bool} {names : Regex Char} {words : List String}
    (reads : ∀ before read after, names.Matches before read after ↔ ∃ word ∈ words, read = word.toList)
    (letters : ∀ word ∈ words, ∃ front last, word.toList = front ++ [last] ∧ isWord isLetter last = true)
    {before : Option Char} {text : List Char} :
    (Regex.seqs [exactly "/", names, pathEnd isLetter]).ends before text ≠ [] ↔
      ∃ word ∈ words, ∃ after, text = '/' :: word.toList ++ after ∧ ∀ c ∈ after.head?, isWord isLetter c = false := by
  rw [Regex.ends_ne_nil_iff]
  simp only [Regex.matches_seqs_cons, exactly_matches]
  constructor
  · rintro ⟨read, after, rfl, left, right, rfl, rfl, name, stop, rfl, named, tail, nothing, rfl, ended, rfl⟩
    obtain ⟨word, member, rfl⟩ := (reads _ _ _).mp named
    obtain ⟨front, last, spelled, letter⟩ := letters word member
    refine ⟨word, member, tail ++ after, by simp, ?_⟩
    rw [spelled, Regex.advance_concat] at ended
    exact (pathEnd_matches letter).mp ⟨tail, after, rfl, by simpa using ended⟩
  · rintro ⟨word, member, after, rfl, ended⟩
    obtain ⟨front, last, spelled, letter⟩ := letters word member
    obtain ⟨tail, rest, rfl, matched⟩ := (pathEnd_matches letter).mpr ended
    refine ⟨'/' :: word.toList ++ tail, rest, by simp, ['/'], word.toList ++ tail, rfl, rfl, word.toList, tail, rfl,
      (reads _ _ _).mpr ⟨word, member, rfl⟩, tail, [], by simp, ?_, rfl⟩
    rw [spelled, Regex.advance_concat]
    simpa using matched

/-- A pattern of `LOCAL_HOST_PATHS` reads a host path and its end. -/
theorem localHostPaths_roots {isLetter : Char → Bool} (before : Option Char) {text : List Char} :
    (∃ pattern ∈ localHostPaths isLetter, pattern.ends before text ≠ []) ↔
      ∃ root ∈ hostRoots, ∃ after, text = root.toList ++ after ∧ ∀ c ∈ after.head?, isWord isLetter c = false := by
  have first : ∀ before read after, (Regex.alts [exactly "home", exactly "root"]).Matches before read after ↔
      ∃ word ∈ ["home", "root"], read = word.toList := by
    intro before read after
    simp [Regex.matches_alts, exactly_matches]
  have second : ∀ before read after,
      (Regex.alts [.seq (exactly "private") (.seq (exactly "/") (.alts [exactly "tmp", exactly "var/folders"])),
        exactly "opt/homebrew"]).Matches before read after ↔
      ∃ word ∈ ["private/tmp", "private/var/folders", "opt/homebrew"], read = word.toList := by
    intro before read after
    simp only [Regex.matches_alts, Regex.Matches, exactly_matches, List.mem_cons, List.not_mem_nil, or_false,
      exists_eq_or_imp, exists_eq_left]
    constructor
    · rintro (⟨_, _, rfl, rfl, _, _, rfl, rfl, rfl | rfl⟩ | rfl)
      · exact .inl rfl
      · exact .inr (.inl rfl)
      · exact .inr (.inr rfl)
    · rintro (rfl | rfl | rfl)
      · exact .inl ⟨_, _, rfl, rfl, _, _, rfl, rfl, .inl rfl⟩
      · exact .inl ⟨_, _, rfl, rfl, _, _, rfl, rfl, .inr rfl⟩
      · exact .inr rfl
  have letters : ∀ word ∈ ["home", "root", "private/tmp", "private/var/folders", "opt/homebrew"],
      ∃ front last, word.toList = front ++ [last] ∧ isWord isLetter last = true := by
    intro word member
    have ends : word.toList.getLast?.any (fun last => last.toNat < 128 && isWordASCII last) = true := by
      revert word
      decide
    obtain ⟨last, isLast, letter⟩ := Option.any_eq_true _ _ |>.mp ends
    obtain ⟨front, spelled⟩ := List.getLast?_eq_some_iff.mp isLast
    rw [Bool.and_eq_true, decide_eq_true_eq] at letter
    exact ⟨front, last, spelled, by rw [isWord, if_pos letter.1, letter.2]⟩
  unfold localHostPaths
  simp only [List.mem_cons, List.not_mem_nil, or_false, exists_eq_or_imp, exists_eq_left]
  rw [pathPattern_ends first (fun word member => letters word (by revert word; decide)),
    pathPattern_ends second (fun word member => letters word (by revert word; decide))]
  have spelled : ∀ word : String, ("/" ++ word).toList = '/' :: word.toList := fun word => String.toList_append
  have roots : hostRoots =
      (["home", "root"] ++ ["private/tmp", "private/var/folders", "opt/homebrew"]).map ("/" ++ ·) := by
    decide
  rw [roots]
  simp only [List.mem_map, List.mem_append, exists_exists_and_eq_and, or_and_right, exists_or, spelled]

theorem hostPathAt_iff (isLetter : Char → Bool) {before text : List Char} :
    (∃ pattern ∈ localHostPaths isLetter, hostPathAt pattern before.getLast? text = true) ↔
      (∀ c ∈ before.getLast?, isWordASCII c = false) ∧
        ∃ root ∈ hostRoots, ∃ after, text = root.toList ++ after ∧ ∀ c ∈ after.head?, isWord isLetter c = false := by
  have looked : Regex.wordSide isWordASCII before.getLast? = false ↔ ∀ c ∈ before.getLast?, isWordASCII c = false := by
    cases before.getLast? <;> simp [Regex.wordSide]
  rw [← localHostPaths_roots before.getLast?, ← looked]
  simp only [hostPathAt, Bool.and_eq_true, Bool.not_eq_true', List.isEmpty_eq_false_iff]
  constructor
  · rintro ⟨pattern, member, free, found⟩
    exact ⟨free, pattern, member, found⟩
  · rintro ⟨free, pattern, member, found⟩
    exact ⟨pattern, member, free, found⟩

theorem advance_eq_getLast? (text : List Char) : Regex.advance none text = text.getLast? := by
  rcases List.eq_nil_or_concat text with rfl | ⟨front, last, rfl⟩
  · rfl
  · rw [List.concat_eq_append, Regex.advance_concat, List.getLast?_concat]

theorem containsLocalHostPath_iff {isLetter : Char → Bool} {text : List Char} :
    containsLocalHostPath isLetter text = true ↔ ∃ root ∈ hostRoots, HostPath isLetter root text := by
  unfold containsLocalHostPath
  rw [List.any_eq_true]
  constructor
  · rintro ⟨pattern, member, found⟩
    obtain ⟨start, located⟩ := Option.isSome_iff_exists.mp found
    obtain ⟨_, _, occurs, _⟩ := Window.search_eq_some_iff.mp located
    rw [Window.occursAt, advance_eq_getLast?] at occurs
    obtain ⟨free, root, isRoot, after, rest, ended⟩ := (hostPathAt_iff isLetter).mp ⟨pattern, member, occurs⟩
    refine ⟨root, isRoot, text.take start, after, ?_, free, ended⟩
    rw [List.append_assoc, ← rest, List.take_append_drop]
  · rintro ⟨root, isRoot, before, after, rfl, free, ended⟩
    obtain ⟨pattern, member, occurs⟩ :=
      (hostPathAt_iff isLetter).mpr ⟨free, root, isRoot, after, rfl, ended⟩
    refine ⟨pattern, member, ?_⟩
    by_contra missed
    rw [Bool.not_eq_true, Option.isSome_eq_false_iff, Option.isNone_iff_eq_none, Window.search_eq_none_iff] at missed
    have here := missed before.length (Nat.zero_le _) (by simp)
    rw [Window.occursAt, advance_eq_getLast?, List.append_assoc, List.take_left, List.drop_left, occurs] at here
    cases here

/-! ### Actions -/

theorem isFullCommit_noAt {text : List Char} (full : isFullCommit text = true) : '@' ∉ text := by
  intro member
  rw [isFullCommit, Bool.and_eq_true, List.all_eq_true] at full
  exact absurd (full.2 '@' member) (by decide)

/-- `reference.rsplit("@", 1)` -/
theorem unpinned_split {action revision : List Char} (last : '@' ∉ revision)
    (remote : ¬ "./".toList <+: action ++ '@' :: revision) :
    unpinned (action ++ '@' :: revision) = false ↔ action ≠ [] ∧ isFullCommit revision = true := by
  have cut : ((action ++ '@' :: revision).reverse.takeWhile (· ≠ '@')).reverse = revision := by
    have all : ∀ c ∈ revision.reverse, decide (c ≠ '@') = true := by
      intro c member
      rw [List.mem_reverse] at member
      exact decide_eq_true fun same => last (same ▸ member)
    rw [List.reverse_append, List.reverse_cons, List.append_assoc, List.takeWhile_append_of_pos all]
    simp
  have front :
      (action ++ '@' :: revision).take ((action ++ '@' :: revision).length - revision.length - 1) = action := by
    have size : (action ++ '@' :: revision).length - revision.length - 1 = action.length := by
      simp only [List.length_append, List.length_cons]
      omega
    rw [size, List.take_left]
  have member : '@' ∈ action ++ '@' :: revision := by simp
  unfold unpinned
  rw [if_neg (by simpa using remote), if_neg (not_not_intro member)]
  simp only [cut, front, Bool.or_eq_false_iff, decide_eq_false_iff_not, Bool.not_eq_false']

/-- Only a full commit behind the last `@` pins a reference. -/
theorem unpinned_eq_false_iff {reference : List Char} : unpinned reference = false ↔ Pinned reference := by
  by_cases inside : "./".toList <+: reference
  · have skipped : unpinned reference = false := by
      rw [unpinned, if_pos (List.isPrefixOf_iff_prefix.mpr inside)]
    exact iff_of_true skipped (.inl inside)
  constructor
  · intro pinned
    by_cases at' : '@' ∈ reference
    · obtain ⟨before, behind, split, first⟩ := List.eq_append_cons_of_mem (List.mem_reverse.mpr at')
      have parts : reference = behind.reverse ++ '@' :: before.reverse := by
        rw [← reference.reverse_reverse, split]
        simp
      rw [parts] at inside pinned ⊢
      obtain ⟨filled, full⟩ := (unpinned_split (by simpa using first) inside).mp pinned
      exact .inr ⟨_, _, filled, rfl, full⟩
    · rw [unpinned, if_neg (by simpa using inside), if_pos at'] at pinned
      cases pinned
  · rintro (inRepository | ⟨action, revision, filled, rfl, full⟩)
    · exact absurd inRepository inside
    · exact (unpinned_split (isFullCommit_noAt full) inside).mpr ⟨filled, full⟩

/-! ### One file -/

/-- A check that returns early passes when it is not met and what comes behind it passes. -/
theorem returnIf_eq_nil {condition : Prop} [Decidable condition] {message : String} {rest : List String} :
    (if condition then [message] else rest) = [] ↔ ¬ condition ∧ rest = [] := by
  by_cases met : condition
  · rw [if_pos met]
    exact iff_of_false (List.cons_ne_nil _ _) (fun passed => passed.1 met)
  · rw [if_neg met, and_iff_right met]

theorem actionFailures_eq_nil {uses : Prop} [Decidable uses] {references : List (List Char)}
    {message : List Char → String} {rest : List String} :
    (if uses then references.flatMap (fun reference => failIf (unpinned reference = true) (message reference)) ++ rest
      else []) = [] ↔ (uses → ∀ reference ∈ references, Pinned reference) ∧ (uses → rest = []) := by
  by_cases met : uses
  · simp only [if_pos met, List.append_eq_nil_iff, List.flatMap_eq_nil_iff, failIf_eq_nil, Bool.not_eq_true,
      unpinned_eq_false_iff]
    exact ⟨fun passed => ⟨fun _ => passed.1, fun _ => passed.2⟩, fun passed => ⟨passed.1 met, passed.2 met⟩⟩
  · rw [if_neg met]
    exact iff_of_true rfl ⟨fun uses => absurd uses met, fun uses => absurd uses met⟩

theorem auditBytes_eq_nil_iff {isLetter : Char → Bool} {label : String} {relative data : Bytes} :
    auditBytes isLetter label relative data = [] ↔ CleanFile isLetter relative data := by
  unfold auditBytes
  dsimp only
  simp only [List.append_eq_nil_iff, failIf_eq_nil, returnIf_eq_nil, actionFailures_eq_nil, not_or, not_not,
    forbiddenNamespacePath_iff, containsText_iff, containsLocalHostPath_iff, List.any_eq_true,
    List.isPrefixOf_iff_prefix, not_exists, not_and]
  constructor
  · rintro ⟨noPointer, suffix, ⟨source, namespaces⟩, ⟨noNul, format⟩, utf8, ⟨references, hostPaths⟩, pinned, emulator⟩
    exact ⟨noPointer, suffix, source, namespaces, noNul, format, utf8, references, hostPaths, pinned, emulator⟩
  · intro clean
    exact ⟨clean.noPointer, clean.suffix, ⟨clean.source, clean.namespaces⟩, ⟨clean.noNul, clean.format⟩, clean.utf8,
      ⟨clean.references, clean.hostPaths⟩, clean.pinned, clean.emulator⟩

end ExitfyCores.Public
