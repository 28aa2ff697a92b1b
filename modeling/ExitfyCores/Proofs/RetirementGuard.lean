/-
Module: ExitfyCores.Proofs.RetirementGuard
Layer: Proofs
Purpose: Whatever the API answers, `retire` mutates only what the snapshot names, and only behind the observations that
  allow it.
Imports: ExitfyCores.Proofs.Snapshot, ExitfyCores.Lib.PyJsonRoundTrip
Trusted boundary: none
Main exports: Observed, Confirmed, SameIdentity, Allowed, SameReview, mutationsGuarded
Open obligations: none
-/
import ExitfyCores.Proofs.Snapshot
import ExitfyCores.Lib.PyJsonRoundTrip

namespace ExitfyCores.Retirement

open Py Interaction History

/-! ### What the token stands for -/

/-- What an entry tells under the token. -/
def reviewed (entry : Workflow × List Run) : Nat × Text × List Nat := (entry.1.id, entry.1.path, entry.2.map Run.id)

/-- Two snapshots with one branch, and the same workflows with the same runs. -/
def SameReview (first second : Snapshot) : Prop :=
  first.defaultBranch = second.defaultBranch ∧
    first.legacy.map reviewed = second.legacy.map reviewed

theorem sortItems_ids (runs : List Run) :
    sortItems (runs.map fun run => .int run.id) = runs.map fun run => .int run.id := by
  induction runs with
  | nil => rfl
  | cons run runs ih =>
      rw [List.map_cons, sortItems, ih]
      rfl

theorem sortKeys_tokenEntry (entry : Workflow × List Run) : sortKeys (tokenEntry entry) = tokenEntry entry := by
  have sorted : sortKeys (tokenEntry entry) = .dict [(text "id", .int entry.1.id), (text "path", .str entry.1.path),
      (text "runIds", .list (sortItems (entry.2.map fun run => .int run.id)))] := rfl
  rw [sorted, sortItems_ids]
  rfl

theorem sortItems_tokenEntry (legacy : List (Workflow × List Run)) :
    sortItems (legacy.map tokenEntry) = legacy.map tokenEntry := by
  induction legacy with
  | nil => rfl
  | cons entry legacy ih => rw [List.map_cons, sortItems, ih, sortKeys_tokenEntry]

theorem sortKeys_tokenValue (snapshot : Snapshot) :
    sortKeys (tokenValue snapshot) = .dict [(text "defaultBranch", .str snapshot.defaultBranch),
      (text "host", .str githubHost), (text "legacy", .list (snapshot.legacy.map tokenEntry)),
      (text "repository", .str repository)] := by
  rw [← sortItems_tokenEntry]
  rfl

theorem plainText_branch {branch : Text} (named : isBranchName branch = true) : PlainText branch := by
  intro c member
  rw [isBranchName, Bool.and_eq_true] at named
  have char := List.all_eq_true.mp named.2 c member
  simp only [isBranchChar, Bool.or_eq_true, Bool.and_eq_true, decide_eq_true_eq, beq_iff_eq] at char
  omega

theorem plainText_legacyPath {path : Text} (legacy : path ∈ legacyPaths) : PlainText path := by
  have all : ∀ path ∈ legacyPaths, ∀ c ∈ path, 32 ≤ c ∧ c ≤ 126 ∧ c ≠ 34 ∧ c ≠ 92 := by decide
  exact all path legacy

theorem Reviewable.legacyPath {snapshot : Snapshot} (reviewable : Reviewable snapshot) {entry : Workflow × List Run}
    (member : entry ∈ snapshot.legacy) : entry.1.path ∈ legacyPaths := by
  rw [← reviewable.paths]
  exact List.mem_map_of_mem member

theorem plain_tokenEntry {snapshot : Snapshot} (reviewable : Reviewable snapshot) {entry : Workflow × List Run}
    (member : entry ∈ snapshot.legacy) : Plain (tokenEntry entry) := by
  have keys : PlainText (text "id") ∧ PlainText (text "path") ∧ PlainText (text "runIds") := by
    simp [PlainText, text]
  have ids : PlainItems (entry.2.map fun run => .int run.id) := by
    rw [plainItems_iff]
    intro item memberItem
    obtain ⟨run, memberRun, rfl⟩ := List.mem_map.mp memberItem
    exact reviewable.runIds entry member run memberRun
  have path := plainText_legacyPath (reviewable.legacyPath member)
  have distinct : [text "id", text "path", text "runIds"].Nodup := by decide
  exact ⟨⟨keys.1, reviewable.workflowIds entry member, keys.2.1, path, keys.2.2, ids, trivial⟩, distinct⟩

theorem plain_tokenValue {snapshot : Snapshot} (reviewable : Reviewable snapshot) :
    Plain (sortKeys (tokenValue snapshot)) := by
  have keys : PlainText (text "defaultBranch") ∧ PlainText (text "host") ∧ PlainText (text "legacy") ∧
      PlainText (text "repository") := by
    simp [PlainText, text]
  have constants : PlainText githubHost ∧ PlainText repository := by
    simp [PlainText, text, githubHost, repository]
  have entries : PlainItems (snapshot.legacy.map tokenEntry) := by
    rw [plainItems_iff]
    intro item memberItem
    obtain ⟨entry, member, rfl⟩ := List.mem_map.mp memberItem
    exact plain_tokenEntry reviewable member
  have distinct : [text "defaultBranch", text "host", text "legacy", text "repository"].Nodup := by decide
  rw [sortKeys_tokenValue]
  exact ⟨⟨keys.1, plainText_branch reviewable.branch, keys.2.1, constants.1, keys.2.2.1, entries, keys.2.2.2,
    constants.2, trivial⟩, distinct⟩

theorem tokenEntry_injective {first second : Workflow × List Run} (same : tokenEntry first = tokenEntry second) :
    reviewed first = reviewed second := by
  simp only [tokenEntry, Value.dict.injEq, List.cons.injEq, Prod.mk.injEq, Value.int.injEq, Value.str.injEq,
    Value.list.injEq, true_and, and_true, Int.natCast_inj] at same
  obtain ⟨sameId, samePath, sameRuns⟩ := same
  have injective : Function.Injective fun id : Nat => Value.int id := by
    intro one other same
    exact Int.natCast_inj.mp (Value.int.inj same)
  have ids : first.2.map Run.id = second.2.map Run.id := by
    apply List.map_injective_iff.mpr injective
    rw [List.map_map, List.map_map]
    exact sameRuns
  rw [reviewed, reviewed, sameId, samePath, ids]

theorem map_eq_of_tokenEntry {first second : List (Workflow × List Run)}
    (same : first.map tokenEntry = second.map tokenEntry) : first.map reviewed = second.map reviewed := by
  induction first generalizing second with
  | nil =>
      cases second with
      | nil => rfl
      | cons entry rest => cases same
  | cons entry first ih =>
      cases second with
      | nil => cases same
      | cons other second =>
          obtain ⟨head, tail⟩ := List.cons.inj same
          rw [List.map_cons, List.map_cons, tokenEntry_injective head, ih tail]

/-- Under an injective digest, equal tokens stand for the same review. -/
theorem applyToken_injective {sha256 : List UInt8 → Text} (injective : Function.Injective sha256)
    {first second : Snapshot} (reviewableFirst : Reviewable first) (reviewableSecond : Reviewable second)
    (same : applyToken sha256 first = applyToken sha256 second) : SameReview first second := by
  have plainFirst := plain_tokenValue reviewableFirst
  have plainSecond := plain_tokenValue reviewableSecond
  have bytes : tokenBytes first = tokenBytes second := injective (List.append_cancel_left same)
  have texts := encode_injective (ascii_dumps compact 0 plainFirst) (ascii_dumps compact 0 plainSecond) bytes
  have values := dumps_injective compact plainFirst plainSecond texts
  rw [sortKeys_tokenValue, sortKeys_tokenValue] at values
  simp only [Value.dict.injEq, List.cons.injEq, Prod.mk.injEq, Value.str.injEq, Value.list.injEq, true_and,
    and_true] at values
  exact ⟨values.1, map_eq_of_tokenEntry values.2⟩

/-! ### What is allowed -/

/-- A part of the past took this snapshot. -/
def Observed (past : List (Exchange Answer)) (snapshot : Snapshot) : Prop :=
  ∃ before segment after, past = before ++ segment ++ after ∧
    collectPreMigrationSnapshot.Trace segment (.ok snapshot)

/-- The confirmation is the token of the snapshot, and no run of it is active. -/
def Confirmed (sha256 : List UInt8 → Text) (snapshot : Snapshot) (confirmation : Text) : Prop :=
  confirmation = applyToken sha256 snapshot ∧ ∀ run ∈ snapshot.runs, run.status = completed

/-- The same branch and workflow ids. -/
def SameIdentity (observed snapshot : Snapshot) : Prop :=
  observed.defaultBranch = snapshot.defaultBranch ∧ observed.ids = snapshot.ids

/-- Every workflow is disabled. -/
def Disabled (observed : Snapshot) : Prop := ∀ entry ∈ observed.legacy, entry.1.state = disabledManually

/-- The runs of the snapshot may be deleted. -/
def Deletable (observed snapshot : Snapshot) : Prop :=
  SameIdentity observed snapshot ∧ Disabled observed ∧ observed.runIds = snapshot.runIds ∧
    ∀ run ∈ observed.runs, run.status = completed

/-- Nothing is left to do. -/
def Retired (observed snapshot : Snapshot) : Prop :=
  SameIdentity observed snapshot ∧ Disabled observed ∧ observed.runs = []

/-- What `retire` may send or write behind a past. -/
def Allowed (sha256 : List UInt8 → Text) (snapshot : Snapshot) (confirmation : Text)
    (past : List (Exchange Answer)) (exchange : Exchange Answer) : Prop :=
  match exchange.query with
  | .capture arguments =>
      ReadArguments arguments ∨ Confirmed sha256 snapshot confirmation ∧
        ((∃ id ∈ snapshot.ids, arguments = mutateArguments (text "PUT") (disableEndpoint id)) ∨
          ∃ id ∈ snapshot.runIds, arguments = mutateArguments (text "DELETE") (runEndpoint id) ∧
            ∃ observed, Observed past observed ∧ Deletable observed snapshot)
  | .replace content => ∃ observed, Observed past observed ∧ Retired observed snapshot ∧ content = receiptBytes observed

theorem Observed.lasting {snapshot : Snapshot} : Stable fun past => Observed past snapshot := by
  intro past more observed
  obtain ⟨before, segment, after, rfl, trace⟩ := observed
  exact ⟨before, segment, after ++ more, by simp, trace⟩

section

variable {sha256 : List UInt8 → Text} {snapshot : Snapshot} {confirmation : Text}

/-- Taking a snapshot is allowed at any time, and is observed. -/
theorem guards_collect {before : List (Exchange Answer) → Prop} (lasting : Stable before) :
    Guards (Allowed sha256 snapshot confirmation) before collectPreMigrationSnapshot fun observed past =>
      before past ∧ Observed past observed := by
  have permitted : ∀ past exchange, Reading exchange → Allowed sha256 snapshot confirmation past exchange := by
    intro past exchange reading
    obtain ⟨query, answer⟩ := exchange
    cases query with
    | capture arguments => exact Or.inl reading
    | replace content => exact reading.elim
  apply (collect_only.guards permitted lasting).traced.weaken
  intro observed past parts
  obtain ⟨⟨_, holds⟩, early, segment, rfl, _, trace⟩ := parts
  exact ⟨holds, early, segment, [], by simp, trace⟩

/-- A mutation that is allowed leaves a lasting fact as it is. -/
theorem guards_mutate {before : List (Exchange Answer) → Prop} {method endpoint : Text} (lasting : Stable before)
    (permitted : ∀ past answer, before past →
      Allowed sha256 snapshot confirmation past ⟨.capture (mutateArguments method endpoint), answer⟩) :
    Guards (Allowed sha256 snapshot confirmation) before (mutate method endpoint) fun _ => before := by
  unfold mutate
  apply guards_check
  intro _
  apply Guards.bind (guards_ask permitted _)
  · intro _
    exact guards_done fun _ start => start
  · intro answer
    apply guards_ofExcept
    intro _ _ now extended
    obtain ⟨past, start, rfl⟩ := extended
    exact lasting past _ start

/-- The receipt of a retired observation may be written. -/
theorem guards_writeReceipt {retired : Snapshot} (allRetired : Retired retired snapshot) :
    Guards (Allowed sha256 snapshot confirmation) (fun past => Observed past retired) (writeReceipt retired)
      fun _ _ => True := by
  apply guards_ask
  · intro past answer observed
    exact ⟨retired, observed, allRetired, rfl⟩
  · intro answer
    cases answer with
    | replaced => exact guards_done fun _ _ => trivial
    | failed replaced failure => exact guards_raise

/-- A snapshot without failures has its workflows disabled and no runs. -/
theorem verifyPreMigrationRetired_eq_ok {retired : Snapshot} :
    verifyPreMigrationRetired retired = .ok () ↔ Disabled retired ∧ retired.runs = [] := by
  simp only [verifyPreMigrationRetired, throwIf_eq_ok, ne_eq, Decidable.not_not, List.flatMap_eq_nil_iff, Disabled,
    Snapshot.runs, retirementFailures, List.append_eq_nil_iff, ite_eq_right_iff, List.cons_ne_nil, imp_false]
  constructor
  · intro none
    exact ⟨fun entry member => (none entry member).1, fun entry member => (none entry member).2⟩
  · intro parts entry member
    exact ⟨parts.1 entry member, parts.2 entry member⟩

/-- From any past, everything that `retire` exchanges is allowed. -/
theorem retire_guards :
    Guards (Allowed sha256 snapshot confirmation) (fun _ => True) (retire sha256 snapshot confirmation)
      fun _ _ => True := by
  unfold retire
  apply guards_check
  intro isToken
  apply guards_check
  intro noneActive
  have confirmed : Confirmed sha256 snapshot confirmation := by
    refine ⟨Decidable.not_not.mp isToken, ?_⟩
    simpa [List.filter_eq_nil_iff] using noneActive
  have always : Stable fun _ : List (Exchange Answer) => True := fun _ _ _ => trivial
  apply Guards.bind (guards_forM fun id member => guards_mutate always fun _ _ _ =>
    Or.inr ⟨confirmed, Or.inl ⟨id, member, rfl⟩⟩)
  intro _
  apply Guards.bind (guards_collect always)
  intro disabled
  apply Guards.strengthen _ fun past parts => parts.2
  apply guards_check
  intro sameBranch
  apply guards_check
  intro sameIds
  apply guards_check
  intro allDisabled
  apply guards_check
  intro sameRuns
  apply guards_check
  intro noneActive
  have deletable : Deletable disabled snapshot := by
    refine ⟨⟨Decidable.not_not.mp sameBranch, Decidable.not_not.mp sameIds⟩, ?_, Decidable.not_not.mp sameRuns, ?_⟩
    · simpa [Disabled] using allDisabled
    · simpa using noneActive
  apply Guards.bind (guards_forM fun id member => guards_mutate Observed.lasting fun past _ observed =>
    Or.inr ⟨confirmed, Or.inr ⟨id, Snapshot.mem_sortedRunIds.mp member, rfl, disabled, observed, deletable⟩⟩)
  intro _
  apply Guards.bind (guards_collect Observed.lasting)
  intro retired
  apply Guards.strengthen _ fun past parts => parts.2
  apply guards_check
  intro sameBranch
  apply guards_check
  intro sameIds
  apply Guards.bind (guards_ofExcept fun _ verified past observed => And.intro observed verified)
  intro _
  apply guards_fact
  intro verified
  obtain ⟨allDisabled, noRuns⟩ := verifyPreMigrationRetired_eq_ok.mp verified
  exact guards_writeReceipt
    ⟨⟨Decidable.not_not.mp sameBranch, Decidable.not_not.mp sameIds⟩, allDisabled, noRuns⟩

/-- The receipt changes only into the receipt of a retired observation. -/
theorem receiptAfter_guarded (receipt : Option (List UInt8)) {done : List (Exchange Answer)}
    (guarded : History.Guarded (Allowed sha256 snapshot confirmation) done) :
    receiptAfter receipt done = receipt ∨ ∃ observed, Observed done observed ∧ Retired observed snapshot ∧
      receiptAfter receipt done = some (receiptBytes observed) := by
  induction done using List.reverseRecOn with
  | nil => exact Or.inl rfl
  | append_singleton done last ih =>
      obtain ⟨earlier, permitted⟩ := (guarded_append done last).mp guarded
      have kept : receiptAfter receipt (done ++ [last]) = receiptAfter receipt done →
          receiptAfter receipt (done ++ [last]) = receipt ∨ ∃ observed, Observed (done ++ [last]) observed ∧
            Retired observed snapshot ∧ receiptAfter receipt (done ++ [last]) = some (receiptBytes observed) := by
        intro same
        rw [same]
        rcases ih earlier with unchanged | ⟨observed, seen, retired, written⟩
        · exact Or.inl unchanged
        · exact Or.inr ⟨observed, Observed.lasting done [last] seen, retired, written⟩
      obtain ⟨query, answer⟩ := last
      cases query with
      | capture arguments => exact kept (by simp [receiptAfter])
      | replace content =>
          obtain ⟨observed, seen, retired, rfl⟩ := permitted
          have written : answer = .replaced ∨ (∃ failure, answer = .failed true failure) →
              receiptAfter receipt (done ++ [⟨.replace (receiptBytes observed), answer⟩]) =
                some (receiptBytes observed) := by
            rintro (rfl | ⟨failure, rfl⟩) <;> simp [receiptAfter]
          cases answer with
          | replaced => exact Or.inr ⟨observed, Observed.lasting done _ seen, retired, written (Or.inl rfl)⟩
          | failed replaced failure =>
              cases replaced with
              | true =>
                  exact Or.inr ⟨observed, Observed.lasting done _ seen, retired, written (Or.inr ⟨failure, rfl⟩)⟩
              | false => exact kept (by simp [receiptAfter])

end

/-- Whatever the API answers and however its state changes between two calls: every exchange of `retire` is allowed by
what came before it; a mutation means that a token made from another snapshot stands for the same review; and wherever
the run is cut off, the receipt is the old one or that of an observation with both workflows disabled and no run. -/
theorem mutationsGuarded {sha256 : List UInt8 → Text} (injective : Function.Injective sha256) {snapshot : Snapshot}
    {confirmation : Text} {log : List (Exchange Answer)} {outcome : Except Failure Unit}
    (trace : (retire sha256 snapshot confirmation).Trace log outcome) (receipt : Option (List UInt8)) :
    History.Guarded (Allowed sha256 snapshot confirmation) log ∧
      (∀ planned, Collected planned → Collected snapshot → confirmation = applyToken sha256 planned →
        (∃ exchange ∈ log, ∃ arguments, exchange.query = .capture arguments ∧ ¬ ReadArguments arguments) →
        SameReview planned snapshot) ∧
      ∀ done later, log = done ++ later →
        receiptAfter receipt done = receipt ∨ ∃ observed, Observed done observed ∧ Retired observed snapshot ∧
          receiptAfter receipt done = some (receiptBytes observed) := by
  have guarded : History.Guarded (Allowed sha256 snapshot confirmation) log := retire_guards.guarded trace
  refine ⟨guarded, ?_, ?_⟩
  · intro planned collectedPlanned collected isToken mutated
    obtain ⟨exchange, member, arguments, asked, notRead⟩ := mutated
    obtain ⟨before, after, split⟩ := List.append_of_mem member
    have permitted := guarded before exchange after split
    rw [Allowed, asked] at permitted
    have confirmed := (permitted.resolve_left notRead).1
    exact applyToken_injective injective collectedPlanned.reviewable collected.reviewable
      (isToken.symm.trans confirmed.1)
  · intro done later split
    apply receiptAfter_guarded
    intro before exchange after early
    exact guarded before exchange (after ++ later) (by simp [split, early])

/-! ### One run -/

/-- A process that answers with a value. -/
def answered (value : Value) : Except Failure Captured :=
  .ok ⟨0, encode (dumps compact 0 value), [], false, false⟩

/-- An API that gives prepared answers, and a file system that replaces the receipt. -/
def prepared (query : Query) (answers : List (Except Failure Captured)) :
    Answer query × List (Except Failure Captured) :=
  match query, answers with
  | .capture _, first :: rest => (first, rest)
  | .capture _, [] => (.error (.unavailable (text "GitHub API request timed out")), [])
  | .replace _, rest => (.replaced, rest)

def sampleWorkflow (id : Nat) (path : Text) : Workflow := ⟨id, path, disabledManually⟩

def sampleRun : Run := ⟨101, 11, legacyPaths.headD [], completed, text "push", List.replicate 40 48⟩

/-- Two workflows, one with a completed run. -/
def sampleSnapshot : Snapshot where
  defaultBranch := text "main"
  legacy := [(sampleWorkflow 11 (legacyPaths.headD []), [sampleRun]), (sampleWorkflow 12 (legacyPaths.getLastD []), [])]

def sampleRunValue (run : Run) : Value :=
  .dict [(text "id", .int run.id), (text "workflow_id", .int run.workflowId), (text "path", .str run.path),
    (text "status", .str run.status), (text "event", .str run.event), (text "head_sha", .str run.headSha)]

/-- The answers to one snapshot that lists these runs for the first workflow. -/
def sampleAnswers (runs : List Run) : List (Except Failure Captured) :=
  [answered (.dict [(text "full_name", .str repository), (text "default_branch", .str (text "main"))]),
    answered (.list (legacyPaths.map fun path => .dict [(text "path", .str path)])),
    answered (.list [.dict [(text "workflows", .list (sampleSnapshot.legacy.map fun entry =>
      .dict [(text "id", .int entry.1.id), (text "path", .str entry.1.path), (text "state", .str entry.1.state)]))]]),
    answered (.list [.dict [(text "workflow_runs", .list (runs.map sampleRunValue))]]),
    answered (.list [.dict [(text "workflow_runs", .list [])]])]

/-- A digest that is injective, and that of the snapshot on the bytes of its token. -/
def sampleSha256 (raw : List UInt8) : Text :=
  if raw = tokenBytes sampleSnapshot then text "7ca1c25a974f3993e08176ad7a5cd6dfdaf249706fdf263ef65f53ceabb0d49c"
  else 0 :: raw.map UInt8.toNat

theorem sampleSha256_injective : Function.Injective sampleSha256 := by
  intro first second same
  have noZero : ∀ rest, text "7ca1c25a974f3993e08176ad7a5cd6dfdaf249706fdf263ef65f53ceabb0d49c" ≠ 0 :: rest := by
    intro rest equal
    have head := congrArg List.head? equal
    simp [text] at head
  unfold sampleSha256 at same
  split at same
  · next one =>
      split at same
      · next two => exact one.trans two.symm
      · exact absurd same (noZero _)
  · split at same
    · exact absurd same.symm (noZero _)
    · exact List.map_injective_iff.mpr (fun _ _ => UInt8.toNat.inj) (List.cons.inj same).2

/-- `retire` on a workflow with one run. -/
def sampleSession : Session Answer Failure Unit (List (Except Failure Captured)) :=
  session prepared (retire sampleSha256 sampleSnapshot (applyToken sampleSha256 sampleSnapshot))
    (answered .none :: answered .none :: sampleAnswers [sampleRun] ++ answered .none :: sampleAnswers [])

/-- Which exchanges of the run change something. -/
def sampleMutations : List Bool :=
  sampleSession.log.map fun exchange =>
    match exchange.query with
    | .capture arguments => arguments.head? = some (text "--method")
    | .replace _ => true

/-- The run disables both workflows, deletes the run and writes the receipt, each where it is allowed. -/
theorem mutationsGuarded_oneRun :
    (sampleSession.outcome.toOption = some () ∧ sampleMutations =
      [true, true, false, false, false, false, false, true, false, false, false, false, false, true]) ∧
      History.Guarded (Allowed sampleSha256 sampleSnapshot (applyToken sampleSha256 sampleSnapshot)) sampleSession.log :=
  ⟨by decide +kernel, (mutationsGuarded sampleSha256_injective (trace_session _ _) none).1⟩

end ExitfyCores.Retirement
