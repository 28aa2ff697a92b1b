/-
Module: ExitfyCores.Proofs.Receipt
Layer: Proofs
Purpose: What `_write_receipt` writes, `load_receipt` reads, within its size limit.
Imports: ExitfyCores.Proofs.RetirementGuard
Trusted boundary: none
Main exports: Receiptable, length_receiptBytes_le, loadReceipt_receiptBytes
Open obligations: none
-/
import ExitfyCores.Proofs.RetirementGuard

namespace ExitfyCores.Retirement

open Py

/-- A snapshot whose receipt can be read again. -/
structure Receiptable (snapshot : Snapshot) : Prop where
  branchName : isBranchName snapshot.defaultBranch = true
  branchLength : snapshot.defaultBranch.length ≤ 255
  paths : snapshot.legacy.map (fun entry => entry.1.path) = legacyPaths
  positive : ∀ entry ∈ snapshot.legacy, 0 < entry.1.id
  short : ∀ entry ∈ snapshot.legacy, ShortId entry.1.id
  distinct : snapshot.ids.Nodup

/-- One entry under `legacy` of the receipt. -/
def receiptItem (entry : Workflow × List Run) : Value :=
  .dict [(text "id", .int entry.1.id), (text "path", .str entry.1.path)]

theorem sortItems_receiptItem (legacy : List (Workflow × List Run)) :
    sortItems (legacy.map receiptItem) = legacy.map receiptItem := by
  induction legacy with
  | nil => rfl
  | cons entry legacy ih =>
      rw [List.map_cons, sortItems, ih]
      rfl

/-- The entries of a receipt as they are written. -/
def receiptEntries (snapshot : Snapshot) : Object :=
  [(text "defaultBranch", .str snapshot.defaultBranch), (text "host", .str githubHost),
    (text "legacy", .list (snapshot.legacy.map receiptItem)), (text "repository", .str repository),
    (text "schema", .int receiptSchema), (text "verifiedRunCount", .int 0),
    (text "verifiedState", .str disabledManually)]

theorem sortKeys_receiptValue (snapshot : Snapshot) :
    sortKeys (receiptValue snapshot) = .dict (receiptEntries snapshot) := by
  rw [receiptEntries, ← sortItems_receiptItem]
  rfl

theorem plain_receiptItem {snapshot : Snapshot} (receiptable : Receiptable snapshot) {entry : Workflow × List Run}
    (member : entry ∈ snapshot.legacy) : Plain (receiptItem entry) := by
  have keys : PlainText (text "id") ∧ PlainText (text "path") := by
    simp [PlainText, text]
  have legacy : entry.1.path ∈ legacyPaths := by
    rw [← receiptable.paths]
    exact List.mem_map_of_mem member
  have distinct : [text "id", text "path"].Nodup := by decide
  exact ⟨⟨keys.1, receiptable.short entry member, keys.2, plainText_legacyPath legacy, trivial⟩, distinct⟩

theorem plain_receiptEntries {snapshot : Snapshot} (receiptable : Receiptable snapshot) :
    Plain (.dict (receiptEntries snapshot)) := by
  have keys : PlainText (text "defaultBranch") ∧ PlainText (text "host") ∧ PlainText (text "legacy") ∧
      PlainText (text "repository") ∧ PlainText (text "schema") ∧ PlainText (text "verifiedRunCount") ∧
      PlainText (text "verifiedState") := by
    simp [PlainText, text]
  have constants : PlainText githubHost ∧ PlainText repository ∧ PlainText disabledManually := by
    simp [PlainText, text, githubHost, repository, disabledManually]
  have items : PlainItems (snapshot.legacy.map receiptItem) := by
    rw [plainItems_iff]
    intro item memberItem
    obtain ⟨entry, member, rfl⟩ := List.mem_map.mp memberItem
    exact plain_receiptItem receiptable member
  have numbers : Plain (.int receiptSchema) ∧ Plain (.int 0) := by
    simp only [Plain]
    decide
  have distinct : [text "defaultBranch", text "host", text "legacy", text "repository", text "schema",
      text "verifiedRunCount", text "verifiedState"].Nodup := by decide
  obtain ⟨branch, host, legacy, repo, schema, count, state⟩ := keys
  exact ⟨⟨branch, plainText_branch receiptable.branchName, host, constants.1, legacy, items, repo, constants.2.1,
    schema, numbers.1, count, numbers.2, state, constants.2.2, trivial⟩, distinct⟩

/-- The text of a receipt. -/
def receiptText (snapshot : Snapshot) : Text := dumps indented 0 (.dict (receiptEntries snapshot)) ++ text "\n"

theorem receiptBytes_eq (snapshot : Snapshot) : receiptBytes snapshot = encode (receiptText snapshot) := by
  rw [receiptBytes, sortKeys_receiptValue]
  rfl

theorem ascii_receiptText {snapshot : Snapshot} (receiptable : Receiptable snapshot) : Ascii (receiptText snapshot) :=
  ascii_append (ascii_dumps indented 0 (plain_receiptEntries receiptable)) (by simp [text, Ascii])

/-- The two entries of a snapshot. -/
theorem Receiptable.pair {snapshot : Snapshot} (receiptable : Receiptable snapshot) :
    ∃ first second : Workflow × List Run, snapshot.legacy = [first, second] ∧
      [first.1.path, second.1.path] = legacyPaths := by
  have paths := receiptable.paths
  obtain ⟨first, second, pair⟩ := List.length_eq_two.mp (by simpa [legacyPaths] using congrArg List.length paths)
  rw [pair] at paths
  exact ⟨first, second, pair, paths⟩

theorem length_quote {value : Text} (plain : PlainText value) : (quote value).length = value.length + 2 := by
  rw [quote_plain plain]
  simp

theorem intText_natCast (value : Nat) : intText (value : Int) = decimal value := rfl

theorem length_receiptText {snapshot : Snapshot} (receiptable : Receiptable snapshot)
    {first second : Workflow × List Run} (pair : snapshot.legacy = [first, second]) :
    (receiptText snapshot).length =
      snapshot.defaultBranch.length + ((decimal first.1.id).length + (decimal second.1.id).length) + 345 := by
  have paths := receiptable.paths
  rw [pair] at paths
  obtain ⟨firstPath, rest⟩ := List.cons.inj paths
  obtain ⟨secondPath, _⟩ := List.cons.inj rest
  have branch := length_quote (plainText_branch receiptable.branchName)
  simp only [receiptText, receiptEntries, pair, receiptItem, List.map_cons, List.map_nil, dumps, dumpsEntries,
    dumpsItems, intText_natCast, firstPath, secondPath, List.length_append, List.length_cons, branch]
  -- What is left are the lengths of constants.
  have keys : (quote (text "defaultBranch")).length = 15 ∧ (quote (text "host")).length = 6 ∧
      (quote (text "legacy")).length = 8 ∧ (quote (text "id")).length = 4 ∧ (quote (text "path")).length = 6 ∧
      (quote (text "repository")).length = 12 ∧ (quote (text "schema")).length = 8 ∧
      (quote (text "verifiedRunCount")).length = 18 ∧ (quote (text "verifiedState")).length = 15 := by
    decide
  have values : (quote githubHost).length = 12 ∧ (quote repository).length = 20 ∧
      (quote disabledManually).length = 19 ∧ (intText receiptSchema).length = 1 ∧ (intText 0).length = 1 ∧
      (quote (text ".github/workflows/release-singbox.yml")).length = 39 ∧
      (quote (text ".github/workflows/release-xray.yml")).length = 36 ∧ (text "\n").length = 1 := by
    decide
  have newline : ∀ depth, (indented.newline depth).length = 2 * depth + 1 := by
    intro depth
    simp [indented]
  have space : indented.space.length = 1 := rfl
  simp only [keys, values, newline, space, List.length_nil]
  omega

/-- A receipt keeps within the limit of `load_receipt`. -/
theorem length_receiptBytes_le {snapshot : Snapshot} (receiptable : Receiptable snapshot) :
    (receiptBytes snapshot).length ≤ maxReceiptBytes := by
  obtain ⟨first, second, pair, _⟩ := receiptable.pair
  have one := receiptable.short first (by simp [pair])
  have two := receiptable.short second (by simp [pair])
  have branch := receiptable.branchLength
  rw [receiptBytes_eq, length_encode_ascii (ascii_receiptText receiptable), length_receiptText receiptable pair]
  unfold ShortId maxStrDigits at one two
  unfold maxReceiptBytes
  omega

theorem positiveInteger_natCast {id : Nat} {label : Text} (positive : 0 < id) :
    positiveInteger (.int id) label = .ok id := by
  simp [positiveInteger, Value.positiveInt, positive]

theorem receiptEntry_receiptItem {entry : Workflow × List Run} (positive : 0 < entry.1.id) :
    receiptEntry entry.1.path (receiptItem entry) = .ok ⟨entry.1.id, entry.1.path, disabledManually⟩ := by
  have keys : keySet [(text "id", .int entry.1.id), (text "path", .str entry.1.path)] = {text "id", text "path"} := by
    simp [keySet]
  have path : (Object.get [(text "id", .int entry.1.id), (text "path", .str entry.1.path)] "path").isText
      entry.1.path = true := by
    have found : Object.get [(text "id", .int entry.1.id), (text "path", .str entry.1.path)] "path" =
      .str entry.1.path := rfl
    simp [found, Value.isText]
  have id : Object.get [(text "id", .int entry.1.id), (text "path", .str entry.1.path)] "id" = .int entry.1.id := rfl
  simp only [receiptItem, receiptEntry, keys, path, id, positiveInteger_natCast positive]
  rfl

theorem receiptOf_receiptEntries {snapshot : Snapshot} (receiptable : Receiptable snapshot) :
    receiptOf (.dict (receiptEntries snapshot)) = .ok ⟨githubHost, snapshot.defaultBranch,
      snapshot.legacy.map fun entry => ⟨entry.1.id, entry.1.path, disabledManually⟩⟩ := by
  obtain ⟨first, second, pair, paths⟩ := receiptable.pair
  have keys : keySet (receiptEntries snapshot) = receiptKeys := by
    have closed : [text "defaultBranch", text "host", text "legacy", text "repository", text "schema",
      text "verifiedRunCount", text "verifiedState"].toFinset = receiptKeys := by decide
    exact closed
  have schema : Object.get (receiptEntries snapshot) "schema" = .int receiptSchema := rfl
  have host : Object.get (receiptEntries snapshot) "host" = .str githubHost := rfl
  have repo : Object.get (receiptEntries snapshot) "repository" = .str repository := rfl
  have state : Object.get (receiptEntries snapshot) "verifiedState" = .str disabledManually := rfl
  have count : Object.get (receiptEntries snapshot) "verifiedRunCount" = .int 0 := rfl
  have branch : Object.get (receiptEntries snapshot) "defaultBranch" = .str snapshot.defaultBranch := rfl
  have legacy : Object.get (receiptEntries snapshot) "legacy" = .list (snapshot.legacy.map receiptItem) := rfl
  have entries : (legacyPaths.zip (snapshot.legacy.map receiptItem)).mapM (fun pair => receiptEntry pair.1 pair.2) =
      .ok (snapshot.legacy.map fun entry => ⟨entry.1.id, entry.1.path, disabledManually⟩) := by
    have one := @receiptEntry_receiptItem first (receiptable.positive first (by simp [pair]))
    have two := @receiptEntry_receiptItem second (receiptable.positive second (by simp [pair]))
    rw [pair, ← paths]
    simp only [List.map_cons, List.map_nil, List.zip_cons_cons, List.zip_nil_left, List.mapM_cons, List.mapM_nil, one,
      two]
    rfl
  have distinct : ((snapshot.legacy.map fun entry =>
      (⟨entry.1.id, entry.1.path, disabledManually⟩ : Workflow)).map Workflow.id).Nodup := by
    rw [List.map_map]
    exact receiptable.distinct
  have count2 : (snapshot.legacy.map receiptItem).length = legacyPaths.length := by
    rw [← paths, pair]
    rfl
  simp only [receiptOf, keys, schema, host, repo, state, count, branch, legacy, Value.isInt, Value.isText,
    receiptable.branchName, entries, count2]
  rw [throwIf_eq_ok.mpr (by simp), ok_bind, throwIf_eq_ok.mpr (by simp), ok_bind, throwIf_eq_ok.mpr (by simp),
    ok_bind, ok_bind, throwIf_eq_ok.mpr (by simpa using distinct)]
  rfl

/-- Reading a receipt gives the branch and the workflows that were written. -/
theorem loadReceipt_receiptBytes {snapshot : Snapshot} (receiptable : Receiptable snapshot) :
    loadReceipt (.ok (receiptBytes snapshot)) = .ok ⟨githubHost, snapshot.defaultBranch,
      snapshot.legacy.map fun entry => ⟨entry.1.id, entry.1.path, disabledManually⟩⟩ := by
  have short := length_receiptBytes_le receiptable
  have whole : (receiptBytes snapshot).take (maxReceiptBytes + 1) = receiptBytes snapshot :=
    List.take_of_length_le (Nat.le_succ_of_le short)
  have loaded : loads (receiptBytes snapshot) = .ok (.dict (receiptEntries snapshot)) := by
    rw [receiptBytes_eq, loads_encode (ascii_receiptText receiptable)]
    exact loadsText_dumps indented (plain_receiptEntries receiptable) rfl
  rw [loadReceipt, whole, throwIf_eq_ok.mpr (Nat.not_lt.mpr short), ok_bind, loaded]
  exact receiptOf_receiptEntries receiptable

end ExitfyCores.Retirement
