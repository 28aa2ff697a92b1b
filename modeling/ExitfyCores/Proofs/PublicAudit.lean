/-
Module: ExitfyCores.Proofs.PublicAudit
Layer: Proofs
Purpose: The public audit of a checkout passes exactly when every commit it looks at, the index and the working tree
  are clean, whatever Git lists and in whatever order.
Imports: Mathlib.Data.List.Dedup, ExitfyCores.Proofs.PublicFile, ExitfyCores.Proofs.PublicListing
Trusted boundary: none
Main exports: auditTree_passes_iff, auditIndex_passes_iff, auditWorktree_passes_iff, auditRepository_passes_iff
Open obligations: none
-/
import Mathlib.Data.List.Dedup
import ExitfyCores.Proofs.PublicFile
import ExitfyCores.Proofs.PublicListing

namespace ExitfyCores.Public

open ExitfyCores.Bundle CommitGraph

/-! ### Reports without failures -/

/-- An audit found nothing. -/
def Passes (run : Except Stopped Report) : Prop := ∃ count, run = .ok ⟨[], count⟩

theorem mapM_flatten_nil {α : Type} {body : α → Except Stopped (List String)} {items : List α} :
    (∃ results, items.mapM body = .ok results ∧ results.flatten = []) ↔ ∀ a ∈ items, body a = .ok [] := by
  constructor
  · rintro ⟨results, run, empty⟩ a member
    have each := forall₂_mem (mapM_eq_ok run)
    obtain ⟨b, among, done⟩ : ∃ b ∈ results, body a = .ok b := by
      obtain ⟨b, among, _, done⟩ := exists_of_forall₂ each.flip a member
      exact ⟨b, among, done⟩
    rw [done, List.flatten_eq_nil_iff.mp empty b among]
  · intro each
    refine ⟨items.map fun _ => [], mapM_ok each, ?_⟩
    rw [List.flatten_eq_nil_iff]
    intro result member
    obtain ⟨_, _, rfl⟩ := List.mem_map.mp member
    rfl

theorem joined_mapM_passes {α : Type} {body : α → Except Stopped Report} {items : List α} :
    (∃ reports, items.mapM body = .ok reports ∧ (joined reports).failures = []) ↔ ∀ a ∈ items, Passes (body a) := by
  constructor
  · rintro ⟨reports, run, empty⟩ a member
    have each := forall₂_mem (mapM_eq_ok run)
    obtain ⟨report, among, _, done⟩ := exists_of_forall₂ each.flip a member
    have clean : report.failures = [] := List.flatMap_eq_nil_iff.mp empty report among
    refine ⟨report.count, ?_⟩
    rw [done, ← clean]
  · intro each
    choose! count done using each
    refine ⟨items.map fun a => ⟨[], count a⟩, mapM_ok done, ?_⟩
    rw [joined, List.flatMap_eq_nil_iff]
    intro report member
    obtain ⟨_, _, rfl⟩ := List.mem_map.mp member
    rfl

/-! ### Entries -/

variable {isLetter : Char → Bool} {objects : Objects} {checkout : Checkout} {commands : Commands}

theorem git_eq_ok {arguments : List String} {output : Bytes} :
    git commands arguments = .ok output ↔ commands arguments = some output := by
  unfold git
  split
  · rename_i same
    rw [same]
    exact ⟨fun equal => congrArg some (Except.ok.inj equal), fun equal => congrArg _ (Option.some.inj equal)⟩
  · rename_i same
    rw [same]
    exact iff_of_false (by simp) (by simp)

/-- A public file is small enough for its size to be a number. -/
theorem digits_of_fits {n : Nat} (fits : n ≤ maxPublicFileBytes) :
    (Nat.toDigits 10 n).length ≤ Py.maxStrDigits := by
  have short : (Nat.toDigits 10 n).length ≤ 8 := by
    rw [Nat.length_toDigits_le_iff (by decide) (by decide)]
    unfold maxPublicFileBytes at fits
    omega
  exact short.trans (by decide)

theorem auditGitEntry_passes_iff (documents : Documents objects checkout commands) (label : String)
    {entry : GitEntry} (decodes : DecodesStrictly entry.path) :
    auditGitEntry isLetter commands label entry = .ok [] ↔ CleanEntry isLetter objects entry := by
  unfold auditGitEntry
  split
  · rename_i link
    refine iff_of_false (by simp) ?_
    rintro ⟨regular, _⟩
    rw [link] at regular
    revert regular
    decide
  split
  · rename_i unsupported
    refine iff_of_false (by simp) ?_
    rintro ⟨regular, blob, _⟩
    rcases unsupported with mode | type
    · exact mode regular
    · exact type blob
  rename_i supported
  rw [not_or, not_not, not_not] at supported
  rw [bind_eq_ok_iff]
  constructor
  · rintro ⟨output, sized, run⟩
    split at run
    · cases run
    rename_i size parsed
    split at run
    · cases run
    rename_i fits
    obtain ⟨data, content, run⟩ := bind_eq_ok run
    rw [git_eq_ok, documents.content] at content
    rw [git_eq_ok, documents.size _ _ content, Option.some.injEq] at sized
    rw [← sized, readSize_line] at parsed
    split at parsed
    · obtain rfl := Option.some.inj parsed
      refine ⟨supported.1, supported.2, decodes, data, content, by omega, ?_⟩
      exact auditBytes_eq_nil_iff.mp (Except.ok.inj run)
    · cases parsed
  · rintro ⟨_, _, _, data, content, fits, clean⟩
    refine ⟨_, git_eq_ok.mpr (documents.size _ _ content), ?_⟩
    rw [readSize_line, if_pos (digits_of_fits fits)]
    have within : ¬ ((data.length : Int) < 0 ∨ (data.length : Int) > maxPublicFileBytes) := by omega
    simp only [if_neg within]
    rw [git_eq_ok.mpr ((documents.content _).trans content), ok_bind, auditBytes_eq_nil_iff.mpr clean]

theorem renderRecord_stored {first second third : String} {path : Bytes} (one : Word first) (two : Word second)
    (three : Word third) (stored : StoredPath path) :
    renderRecord first second third path ≠ [] ∧ 0 ∉ renderRecord first second third path := by
  constructor
  · simp [renderRecord]
  · simp only [renderRecord, List.mem_append, List.mem_cons]
    rintro (among | blank | among | blank | among | tab | among)
    · exact one.not_mem (by decide) among
    · exact absurd blank (by decide)
    · exact two.not_mem (by decide) among
    · exact absurd blank (by decide)
    · exact three.not_mem (by decide) among
    · exact absurd tab (by decide)
    · exact stored.2 among

theorem auditTreeRecord_passes_iff (documents : Documents objects checkout commands) {label : String}
    {entry : GitEntry} (stored : entry.Stored) :
    auditTreeRecord isLetter commands label
        (renderRecord entry.mode entry.objectType entry.objectId entry.path) = .ok [] ↔
      CleanEntry isLetter objects entry := by
  unfold auditTreeRecord
  rw [readRecord_renderRecord stored.1 stored.2.1 stored.2.2.1]
  split
  · rename_i malformed
    refine iff_of_false (by simp) ?_
    rintro ⟨_, _, decodes, _⟩
    rw [if_pos decodes] at malformed
    cases malformed
  · rename_i listed found
    split at found
    · rename_i decodes
      obtain rfl := Option.some.inj found
      exact auditGitEntry_passes_iff documents label decodes
    · cases found

theorem auditTree_passes_iff (documents : Documents objects checkout commands) {commit label : String}
    (available : checkout.available commit) :
    Passes (auditTree isLetter commands commit label) ↔ CleanCommit isLetter objects commit := by
  have stored := documents.treeStored commit available
  have listed : records ((objects.tree commit).flatMap GitEntry.render) =
      (objects.tree commit).map fun entry =>
        renderRecord entry.mode entry.objectType entry.objectId entry.path :=
    records_flatMap fun entry member =>
      renderRecord_stored (stored entry member).1 (stored entry member).2.1 (stored entry member).2.2.1
        (stored entry member).2.2.2
  have each : (∀ record ∈ records ((objects.tree commit).flatMap GitEntry.render),
      auditTreeRecord isLetter commands label record = .ok []) ↔ CleanCommit isLetter objects commit := by
    rw [listed, List.forall_mem_map]
    exact forall₂_congr fun entry member => auditTreeRecord_passes_iff documents (stored entry member)
  rw [← each, ← mapM_flatten_nil]
  unfold Passes auditTree
  rw [git_eq_ok.mpr (documents.tree commit available), ok_bind]
  simp only [bind_eq_ok_iff, Except.ok.injEq, Report.mk.injEq]
  constructor
  · rintro ⟨_, results, run, empty, _⟩
    exact ⟨results, run, empty⟩
  · rintro ⟨results, run, empty⟩
    exact ⟨_, results, run, empty, rfl⟩

theorem auditIndexRecord_passes_iff (documents : Documents objects checkout commands) {entry : IndexEntry}
    (stored : entry.Stored) :
    auditIndexRecord isLetter commands (renderRecord entry.mode entry.objectId entry.stage entry.path) = .ok [] ↔
      entry.stage = "0" ∧ CleanEntry isLetter objects ⟨entry.mode, "blob", entry.objectId, entry.path⟩ := by
  unfold auditIndexRecord
  rw [readRecord_renderRecord stored.1 stored.2.1 stored.2.2.1]
  split
  · rename_i malformed
    refine iff_of_false (by simp) ?_
    rintro ⟨_, _, _, decodes, _⟩
    rw [if_pos decodes] at malformed
    cases malformed
  · rename_i listed found
    split at found
    · rename_i decodes
      obtain rfl := Option.some.inj found
      rw [bind_eq_ok_iff, ← auditGitEntry_passes_iff documents
        (if entry.stage = "0" then "index" else s!"index-stage-{entry.stage}") decodes]
      constructor
      · rintro ⟨failures, run, empty⟩
        rw [Except.ok.injEq, List.append_eq_nil_iff, failIf_eq_nil, not_not] at empty
        exact ⟨empty.1, empty.2 ▸ run⟩
      · rintro ⟨stage, run⟩
        refine ⟨[], run, ?_⟩
        rw [List.append_nil, Except.ok.injEq, failIf_eq_nil, not_not]
        exact stage
    · cases found

theorem auditIndex_passes_iff (documents : Documents objects checkout commands) :
    Passes (auditIndex isLetter commands) ↔ CleanIndex isLetter objects checkout.index := by
  have stored := documents.indexStored
  have listed : records (checkout.index.flatMap IndexEntry.render) =
      checkout.index.map fun entry => renderRecord entry.mode entry.objectId entry.stage entry.path :=
    records_flatMap fun entry member =>
      renderRecord_stored (stored entry member).1 (stored entry member).2.1 (stored entry member).2.2.1
        (stored entry member).2.2.2
  have each : (∀ record ∈ records (checkout.index.flatMap IndexEntry.render),
      auditIndexRecord isLetter commands record = .ok []) ↔ CleanIndex isLetter objects checkout.index := by
    rw [listed, List.forall_mem_map]
    exact forall₂_congr fun entry member => auditIndexRecord_passes_iff documents (stored entry member)
  rw [← each, ← mapM_flatten_nil]
  unfold Passes auditIndex
  rw [git_eq_ok.mpr documents.index, ok_bind]
  simp only [bind_eq_ok_iff, Except.ok.injEq, Report.mk.injEq]
  constructor
  · rintro ⟨_, results, run, empty, _⟩
    exact ⟨results, run, empty⟩
  · rintro ⟨results, run, empty⟩
    exact ⟨_, results, run, empty, rfl⟩

/-! ### The working tree -/

theorem mapError_eq_ok {α ε δ : Type} {f : ε → δ} {run : Except ε α} {a : α} :
    run.mapError f = .ok a ↔ run = .ok a := by
  cases run with
  | error e => exact iff_of_false (by simp [Except.mapError]) (by simp)
  | ok b => simp [Except.mapError]

theorem readOpened_eq_ok {before : FileStat} {observed : Observed} {data : Bytes} :
    readOpened before observed = .ok data ↔
      (∃ after, observed.after = .ok after ∧ after.kind = .regular ∧ before.device = after.device ∧
        before.inode = after.inode ∧ 0 ≤ after.size ∧ after.size ≤ maxPublicFileBytes) ∧
      observed.content = .ok data ∧ data.length ≤ maxPublicFileBytes := by
  unfold readOpened
  simp only [bind_eq_ok_iff, exists_unit, mapError_eq_ok, raiseIf_eq_ok, not_or, not_not, Int.not_lt, not_lt,
    Except.ok.injEq, gt_iff_lt]
  constructor
  · rintro ⟨after, answered, ⟨kind, device, inode⟩, ⟨low, high⟩, content, read, short, rfl⟩
    have whole : content.take (maxPublicFileBytes + 1) = content := by
      apply List.take_of_length_le
      rw [List.length_take] at short
      omega
    rw [whole] at short ⊢
    exact ⟨⟨after, answered, kind, device, inode, low, high⟩, read, short⟩
  · rintro ⟨⟨after, answered, kind, device, inode, low, high⟩, read, short⟩
    have whole : data.take (maxPublicFileBytes + 1) = data := List.take_of_length_le (by omega)
    refine ⟨after, answered, ⟨kind, device, inode⟩, ⟨low, high⟩, data, read, ?_, whole⟩
    rw [whole]
    exact short

theorem readRegularWorktreeFile_eq_ok {observed : Observed} {data : Bytes} :
    readRegularWorktreeFile observed = .ok data ↔
      (∃ before after, observed.before = .ok before ∧ observed.after = .ok after ∧ before.kind = .regular ∧
        after.kind = .regular ∧ before.device = after.device ∧ before.inode = after.inode ∧
        0 ≤ after.size ∧ after.size ≤ maxPublicFileBytes) ∧
      observed.opening = .ok () ∧ observed.content = .ok data ∧ data.length ≤ maxPublicFileBytes ∧
      observed.closing = .ok () := by
  unfold readRegularWorktreeFile
  simp only [bind_eq_ok_iff, exists_unit, mapError_eq_ok, raiseIf_eq_ok, not_not]
  constructor
  · rintro ⟨before, asked, _, regular, opened, run⟩
    split at run
    · cases run
    rename_i closed
    obtain ⟨⟨after, answered, kind, facts⟩, read, short⟩ := readOpened_eq_ok.mp run
    exact ⟨⟨before, after, asked, answered, regular, kind, facts⟩, opened, read, short, closed⟩
  · rintro ⟨⟨before, after, asked, answered, regular, kind, facts⟩, opened, read, short, closed⟩
    refine ⟨before, asked, by simp [regular], regular, opened, ?_⟩
    simp only [closed]
    exact readOpened_eq_ok.mpr ⟨⟨after, answered, kind, facts⟩, read, short⟩

theorem auditWorktreeFile_passes_iff {observe : Bytes → Observed} {path : Bytes} (decodes : DecodesStrictly path) :
    Passes (auditWorktreeFile isLetter observe (posixPath path)) ↔ CleanWorktreeFile isLetter observe path := by
  unfold auditWorktreeFile CleanWorktreeFile
  dsimp only
  split
  · rename_i rooted
    exact iff_of_false (by rintro ⟨_, run⟩; cases run) fun clean => rooted clean.2.1
  rename_i relative
  rw [not_not] at relative
  simp only [decodes, relative, true_and]
  split
  · rename_i error unlisted
    split
    · rename_i missing
      exact iff_of_true ⟨0, rfl⟩ (.inl ⟨error, unlisted, missing⟩)
    · rename_i present
      refine iff_of_false (by rintro ⟨_, run⟩; cases run) ?_
      rintro (⟨other, same, missing⟩ | ⟨data, whole, _⟩)
      · rw [unlisted] at same
        cases same
        exact present missing
      · obtain ⟨metadata, listed, _⟩ := whole.listing
        rw [unlisted] at listed
        cases listed
  rename_i metadata listed
  split
  · rename_i link
    refine iff_of_false (by rintro ⟨_, run⟩; cases run) ?_
    rintro (⟨error, unlisted, _⟩ | ⟨data, whole, _⟩)
    · rw [listed] at unlisted
      cases unlisted
    · obtain ⟨other, same, file⟩ := whole.listing
      rw [listed] at same
      cases same
      exact file link
  rename_i file
  split
  · rename_i error unread
    refine iff_of_false (by rintro ⟨_, run⟩; cases run) ?_
    rintro (⟨error, unlisted, _⟩ | ⟨data, whole, _⟩)
    · rw [listed] at unlisted
      cases unlisted
    · rw [readRegularWorktreeFile_eq_ok.mpr ⟨whole.identity, whole.opening, whole.content, whole.fits, whole.closing⟩]
        at unread
      cases unread
  · rename_i data read
    obtain ⟨identity, opening, content, fits, closing⟩ := readRegularWorktreeFile_eq_ok.mp read
    constructor
    · rintro ⟨_, run⟩
      have empty : auditBytes isLetter "working" (posixPath path).asPosix data = [] :=
        congrArg Report.failures (Except.ok.inj run)
      exact .inr ⟨data, ⟨⟨metadata, listed, file⟩, identity, opening, content, fits, closing⟩,
        auditBytes_eq_nil_iff.mp empty⟩
    · rintro (⟨error, unlisted, _⟩ | ⟨other, whole, clean⟩)
      · rw [listed] at unlisted
        cases unlisted
      · have same : data = other := Except.ok.inj (content.symm.trans whole.content)
        exact ⟨1, by rw [same, auditBytes_eq_nil_iff.mpr clean]⟩

/-- The paths of the public files, each once, or no paths at all where one of them is not UTF-8. -/
theorem publicFiles_iff (documents : Documents objects checkout commands) {holds : PosixPath → Prop} :
    (∃ paths, publicFiles commands = .ok paths ∧ ∀ path ∈ paths, holds path) ↔
      ∀ path ∈ checkout.files, DecodesStrictly path ∧ holds (posixPath path) := by
  have listed : records (checkout.files.flatMap fun path => path ++ [0]) = checkout.files := by
    rw [records_flatMap documents.filesStored, List.map_id']
  unfold publicFiles
  rw [git_eq_ok.mpr documents.files, ok_bind, listed]
  simp only [bind_eq_ok_iff, Except.ok.injEq, mapM_iff]
  constructor
  · rintro ⟨_, ⟨paths, each, rfl⟩, all⟩ path member
    obtain ⟨parsed, among, _, done⟩ := exists_of_forall₂ (forall₂_mem each).flip path member
    split at done
    · rename_i decodes
      obtain rfl := Except.ok.inj done
      exact ⟨decodes, all _ (List.mem_mergeSort.mpr (List.mem_dedup.mpr among))⟩
    · cases done
  · intro all
    refine ⟨_, ⟨checkout.files.map posixPath, ?_, rfl⟩, ?_⟩
    · rw [List.forall₂_map_right_iff]
      apply List.forall₂_same.mpr
      intro path member
      rw [if_pos (all path member).1]
    · intro path member
      rw [List.mem_mergeSort, List.mem_dedup] at member
      obtain ⟨stored, among, rfl⟩ := List.mem_map.mp member
      exact (all stored among).2

theorem auditWorktree_passes_iff (documents : Documents objects checkout commands) {observe : Bytes → Observed} :
    Passes (auditWorktree isLetter commands observe) ↔ CleanWorktree isLetter observe checkout.files := by
  have each : (∃ paths, publicFiles commands = .ok paths ∧
      ∀ path ∈ paths, Passes (auditWorktreeFile isLetter observe path)) ↔
      CleanWorktree isLetter observe checkout.files := by
    rw [publicFiles_iff documents]
    refine forall₂_congr fun path member => ⟨?_, ?_⟩
    · rintro ⟨decodes, passes⟩
      exact (auditWorktreeFile_passes_iff decodes).mp passes
    · intro clean
      exact ⟨clean.1, (auditWorktreeFile_passes_iff clean.1).mpr clean⟩
  rw [← each]
  unfold Passes auditWorktree
  simp only [bind_eq_ok_iff, Except.ok.injEq]
  constructor
  · rintro ⟨count, paths, listed, reports, run, same⟩
    exact ⟨paths, listed, joined_mapM_passes.mp ⟨reports, run, congrArg Report.failures same⟩⟩
  · rintro ⟨paths, listed, passes⟩
    obtain ⟨reports, run, empty⟩ := joined_mapM_passes.mpr passes
    exact ⟨(joined reports).count, paths, listed, reports, run, by rw [← empty]⟩

/-! ### The history -/

theorem Documents.word (documents : Documents objects checkout commands) {commit : String}
    (available : checkout.available commit) : Word commit :=
  word_of_fullCommit (documents.names commit available)

theorem headCommit_documented (documents : Documents objects checkout commands) :
    headCommit commands = .ok checkout.head := by
  unfold headCommit
  rw [documents.head]
  cases head : checkout.head with
  | none => rfl
  | some commit =>
      change (outputText (line commit)).map _ = _
      rw [outputText_line (documents.word (documents.headAvailable commit head))]
      exact congrArg _ (congrArg some String.ofList_toList)

/-- What an available commit reaches is available. -/
theorem Documents.reached (documents : Documents objects checkout commands) {commit older : String}
    (available : checkout.available commit) (reaches : Reaches objects.parents commit older) :
    checkout.available older := by
  induction reaches with
  | refl => exact available
  | tail _ parent ih => exact documents.complete _ ih _ parent

theorem validateBase_eq_ok (documents : Documents objects checkout commands) {base value : String} :
    validateBase commands base = .ok value ↔ value = base ∧ checkout.available base := by
  unfold validateBase
  simp only [bind_eq_ok_iff, exists_unit, throwIf_eq_ok, not_not, Except.ok.injEq]
  constructor
  · rintro ⟨full, present, rfl⟩
    exact ⟨rfl, (documents.existence base full).mp present⟩
  · rintro ⟨rfl, available⟩
    exact ⟨documents.names _ available, (documents.existence _ (documents.names _ available)).mpr available, rfl⟩

theorem revList_lines {range : String} {commits : List String}
    (printed : commands ["rev-list", "--reverse", range] = some (commits.flatMap line))
    (words : ∀ commit ∈ commits, Word commit) : revList commands range = .ok commits := by
  unfold revList
  rw [git_eq_ok.mpr printed, ok_bind]
  have read := splitSpaces_lines words
  cases decoded : decodeASCII (commits.flatMap line) with
  | none =>
      rw [decoded] at read
      cases read
  | some text =>
      rw [decoded, Option.map_some, Option.some.injEq] at read
      change Except.ok ((splitSpaces text).map String.ofList) = _
      rw [read, List.map_map]
      refine congrArg _ ((List.map_congr_left fun commit _ => ?_).trans (List.map_id commits))
      exact String.ofList_toList

/-- The commits beside `HEAD` are those of the range, or of the whole history. -/
theorem historyCommits_documented (documents : Documents objects checkout commands) (history : HistoryBase)
    {head : String} (current : checkout.head = some head) :
    (∃ commits, historyCommits commands (some head) history = .ok commits ∧ ∀ commit, commit ∈ commits ↔
        (∃ base, history.base = some base ∧ InRange objects.parents base head commit) ∨
          history.base = none ∧ history.scanAll = true ∧ Reaches objects.parents head commit) ∧
      (∀ base, history.base = some base → checkout.available base) ∨
    (∃ error, historyCommits commands (some head) history = .error error) ∧
      ∃ base, history.base = some base ∧ ¬ checkout.available base := by
  have here := documents.headAvailable head current
  unfold historyCommits
  cases start : history.base with
  | some base =>
      by_cases available : checkout.available base
      · obtain ⟨commits, printed, listed⟩ := documents.range base head available here
        have words : ∀ commit ∈ commits, Word commit :=
          fun commit member => documents.word (documents.reached here ((listed commit).mp member).1)
        refine .inl ⟨⟨commits, ?_, fun commit => ?_⟩, ?_⟩
        · change (validateBase commands base >>= fun _ => revList commands s!"{base}..{head}") = _
          rw [(validateBase_eq_ok documents).mpr ⟨rfl, available⟩, ok_bind, revList_lines printed words]
        · rw [listed]
          simp
        · intro other same
          exact Option.some.inj same ▸ available
      · refine .inr ⟨?_, base, rfl, available⟩
        cases checked : validateBase commands base with
        | error error => exact ⟨error, by simp [checked, bind, Except.bind]⟩
        | ok value => exact absurd ((validateBase_eq_ok documents).mp checked).2 available
  | none =>
      cases whole : history.scanAll with
      | true =>
          obtain ⟨commits, printed, listed⟩ := documents.history head here
          have words : ∀ commit ∈ commits, Word commit :=
            fun commit member => documents.word (documents.reached here ((listed commit).mp member))
          refine .inl ⟨⟨commits, ?_, fun commit => ?_⟩, by simp⟩
          · exact revList_lines printed words
          · rw [listed]
            simp
      | false => exact .inl ⟨⟨[], rfl, by simp⟩, by simp⟩

/-! ### The audit -/

theorem sortedSet_eq_nil {failures : List String} {le : String → String → Bool} :
    failures.dedup.mergeSort le = [] ↔ failures = [] := by
  rw [← List.length_eq_zero_iff, List.length_mergeSort, List.length_eq_zero_iff, List.dedup_eq_nil]

theorem joined_cons_nil {report : Report} {reports : List Report} :
    (joined (report :: reports)).failures = [] ↔ report.failures = [] ∧ (joined reports).failures = [] := by
  rw [joined, List.flatMap_cons, List.append_eq_nil_iff]
  rfl

theorem passes_of_ok {run : Except Stopped Report} {report : Report} (done : run = .ok report)
    (empty : report.failures = []) : Passes run := ⟨report.count, by rw [done, ← empty]⟩

/-- The audit passes where each of its parts does. -/
theorem auditRepository_parts (documents : Documents objects checkout commands) {observe : Bytes → Observed}
    {history : HistoryBase} :
    Passes (auditRepository isLetter commands observe history) ↔
      Passes (auditHead isLetter commands checkout.head) ∧ Passes (auditIndex isLetter commands) ∧
        Passes (auditWorktree isLetter commands observe) ∧
        ∃ commits, historyCommits commands checkout.head history = .ok commits ∧
          ∀ commit ∈ commits, some commit ≠ checkout.head →
            Passes (auditTree isLetter commands commit (commitLabel commit)) := by
  have older : ∀ commits : List String,
      (∃ reports, (commits.filter fun commit => some commit ≠ checkout.head).mapM (fun commit =>
          auditTree isLetter commands commit (commitLabel commit)) = .ok reports ∧ (joined reports).failures = []) ↔
        ∀ commit ∈ commits, some commit ≠ checkout.head →
          Passes (auditTree isLetter commands commit (commitLabel commit)) := by
    intro commits
    rw [joined_mapM_passes]
    simp only [List.mem_filter, decide_eq_true_eq, and_imp]
  unfold auditRepository
  rw [headCommit_documented documents, ok_bind]
  constructor
  · rintro ⟨count, run⟩
    obtain ⟨checkedOut, head, run⟩ := bind_eq_ok run
    obtain ⟨index, indexed, run⟩ := bind_eq_ok run
    obtain ⟨worktree, worked, run⟩ := bind_eq_ok run
    obtain ⟨commits, listed, run⟩ := bind_eq_ok run
    obtain ⟨reports, audited, run⟩ := bind_eq_ok run
    have empty := sortedSet_eq_nil.mp (congrArg Report.failures (Except.ok.inj run))
    rw [joined_cons_nil, joined_cons_nil, joined_cons_nil] at empty
    exact ⟨passes_of_ok head empty.1, passes_of_ok indexed empty.2.1, passes_of_ok worked empty.2.2.1, commits, listed,
      (older commits).mp ⟨reports, audited, empty.2.2.2⟩⟩
  · rintro ⟨⟨first, head⟩, ⟨second, indexed⟩, ⟨third, worked⟩, commits, listed, each⟩
    obtain ⟨reports, audited, empty⟩ := (older commits).mpr each
    have all : (joined (⟨[], first⟩ :: ⟨[], second⟩ :: ⟨[], third⟩ :: reports)).failures = [] := by
      rw [joined_cons_nil, joined_cons_nil, joined_cons_nil]
      exact ⟨rfl, rfl, rfl, empty⟩
    rw [head, ok_bind, indexed, ok_bind, worked, ok_bind, listed, ok_bind, audited, ok_bind]
    exact passes_of_ok rfl (sortedSet_eq_nil.mpr all)

/-- The audit of a checkout finds nothing exactly when each commit that it looks at, the index and the working tree
    are clean and the base is there. -/
theorem auditRepository_passes_iff (documents : Documents objects checkout commands) (isLetter : Char → Bool)
    (observe : Bytes → Observed) (history : HistoryBase) :
    Passes (auditRepository isLetter commands observe history) ↔
      (∀ commit, Audits objects checkout history commit → CleanCommit isLetter objects commit) ∧
        CleanIndex isLetter objects checkout.index ∧ CleanWorktree isLetter observe checkout.files ∧
        ∀ base, checkout.head ≠ none → history.base = some base → checkout.available base := by
  rw [auditRepository_parts documents, auditIndex_passes_iff documents, auditWorktree_passes_iff documents]
  cases current : checkout.head with
  | none =>
      have listed : historyCommits commands none history = .ok [] := by
        unfold historyCommits
        cases history.base <;> rfl
      constructor
      · rintro ⟨_, index, worktree, _⟩
        refine ⟨?_, index, worktree, fun _ absent => absurd rfl absent⟩
        rintro commit ⟨head, same, _⟩
        rw [current] at same
        cases same
      · rintro ⟨_, index, worktree, _⟩
        exact ⟨⟨0, rfl⟩, index, worktree, [], listed, by simp⟩
  | some head =>
      have here := documents.headAvailable head current
      have headPasses : Passes (auditHead isLetter commands (some head)) ↔ CleanCommit isLetter objects head :=
        auditTree_passes_iff documents here
      rw [headPasses]
      rcases historyCommits_documented documents history current with
        ⟨⟨commits, listed, inHistory⟩, based⟩ | ⟨⟨error, refused⟩, base, start, unavailable⟩
      · have reached : ∀ commit ∈ commits, checkout.available commit := by
          intro commit member
          rcases (inHistory commit).mp member with ⟨base, _, range⟩ | ⟨_, _, reaches⟩
          · exact documents.reached here range.1
          · exact documents.reached here reaches
        constructor
        · rintro ⟨headClean, index, worktree, others, same, each⟩
          rw [listed] at same
          cases same
          refine ⟨?_, index, worktree, fun base _ => based base⟩
          rintro commit ⟨other, isHead, looked⟩
          rw [current, Option.some.injEq] at isHead
          subst isHead
          by_cases isHead : commit = head
          · exact isHead ▸ headClean
          · have member : commit ∈ commits := (inHistory commit).mpr (looked.resolve_left isHead)
            exact (auditTree_passes_iff documents (reached commit member)).mp
              (each commit member fun same => isHead (Option.some.inj same))
        · rintro ⟨clean, index, worktree, _⟩
          refine ⟨clean head ⟨head, current, .inl rfl⟩, index, worktree, commits, listed, ?_⟩
          intro commit member _
          rw [auditTree_passes_iff documents (reached commit member)]
          exact clean commit ⟨head, current, .inr ((inHistory commit).mp member)⟩
      · constructor
        · rintro ⟨_, _, _, _, listed, _⟩
          rw [refused] at listed
          cases listed
        · rintro ⟨_, _, _, based⟩
          exact absurd (based base (Option.some_ne_none head) start) unavailable

end ExitfyCores.Public
