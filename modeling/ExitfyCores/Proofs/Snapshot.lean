/-
Module: ExitfyCores.Proofs.Snapshot
Layer: Proofs
Purpose: Taking a snapshot only reads, and what a snapshot can be.
Imports: ExitfyCores.Retirement.Retire, ExitfyCores.Lib.PyJsonDigits
Trusted boundary: none
Main exports: Reading, Collected, Reviewable, collect_only, Collected.reviewable
Open obligations: none
-/
import ExitfyCores.Retirement.Retire
import ExitfyCores.Lib.PyJsonDigits

namespace ExitfyCores.Retirement

open Py Interaction

/-- Arguments of `gh api` that change nothing: an endpoint under `repos/`, or the query of the identity. -/
def ReadArguments (arguments : List Text) : Prop :=
  arguments = identityArguments ∨
    ∃ endpoint paginate, text "repos/" <+: endpoint ∧ arguments = getArguments endpoint paginate

/-- An exchange that changes nothing. -/
def Reading (exchange : Exchange Answer) : Prop :=
  match exchange.query with
  | .capture arguments => ReadArguments arguments
  | .replace _ => False

/-- A snapshot that `collect_pre_migration_snapshot` can return. -/
def Collected (snapshot : Snapshot) : Prop := ∃ log, collectPreMigrationSnapshot.Trace log (.ok snapshot)

/-- An id that JSON can hold. -/
def ShortId (id : Nat) : Prop := (decimal id).length ≤ maxStrDigits

instance (id : Nat) : Decidable (ShortId id) := inferInstanceAs (Decidable (_ ≤ _))

/-- The shape of a snapshot: the branch has a name, the workflows are the legacy publishers, and the numbers are ids. -/
structure Reviewable (snapshot : Snapshot) : Prop where
  branch : isBranchName snapshot.defaultBranch = true
  paths : snapshot.legacy.map (fun entry => entry.1.path) = legacyPaths
  workflowIds : ∀ entry ∈ snapshot.legacy, ShortId entry.1.id
  runIds : ∀ entry ∈ snapshot.legacy, ∀ run ∈ entry.2, ShortId run.id

/-! ### Answers -/

theorem runResult_short {expectJson : Bool} {captured : Except Failure Captured} {value : Value}
    (returned : runResult expectJson captured = .ok value) : Short value := by
  unfold runResult at returned
  obtain ⟨_, _, returned⟩ := bind_eq_ok returned
  obtain ⟨_, _, returned⟩ := bind_eq_ok returned
  obtain ⟨_, _, returned⟩ := bind_eq_ok returned
  obtain ⟨_, _, returned⟩ := bind_eq_ok returned
  cases expectJson with
  | false =>
      cases returned
      simp [Short]
  | true =>
      simp only [if_true] at returned
      split at returned
      · next loaded =>
          cases returned
          exact loads_short loaded
      · cases returned
      · cases returned
      · cases returned

theorem get_only {endpoint : Text} {paginate : Bool} (repos : text "repos/" <+: endpoint) :
    Only Reading (get endpoint paginate) Short :=
  only_ask (fun _ => Or.inr ⟨endpoint, paginate, repos, rfl⟩) fun _ => only_ofExcept fun _ => runResult_short

theorem graphqlRepositoryIdentity_only : Only Reading graphqlRepositoryIdentity Short :=
  only_ask (fun _ => Or.inl rfl) fun _ => only_ofExcept fun _ => runResult_short

theorem repos_repository (rest : Text) : text "repos/" <+: repositoryEndpoint ++ rest :=
  ⟨repository ++ rest, by rw [repositoryEndpoint, List.append_assoc]⟩

/-! ### Pages -/

theorem pageItems_short {key : String} {page : Value} {items : List Object} (short : Short page)
    (read : pageItems key page = .ok items) : ∀ item ∈ items, ShortEntries item := by
  unfold pageItems at read
  split at read
  · next entries =>
      rw [Short] at short
      split at read
      · next values found =>
          have shortValues := found ▸ Short.get short key
          rw [Short, shortItems_iff] at shortValues
          have each := mapM_eq_ok read
          intro item member
          obtain ⟨value, memberValue, one⟩ := exists_of_forall₂ each item member
          have shortValue := shortValues value memberValue
          split at one
          · cases one
            rwa [Short] at shortValue
          · cases one
      · cases read
  · cases read

theorem flattenPages_short {value : Value} {key : String} {items : List Object} (short : Short value)
    (read : flattenPages value key = .ok items) : ∀ item ∈ items, ShortEntries item := by
  unfold flattenPages at read
  split at read
  · next pages =>
      rw [Short, shortItems_iff] at short
      obtain ⟨lists, each, read⟩ := bind_eq_ok read
      cases read
      intro item member
      obtain ⟨list, memberList, memberItem⟩ := List.mem_flatten.mp member
      obtain ⟨page, memberPage, one⟩ := exists_of_forall₂ (mapM_eq_ok each) list memberList
      exact pageItems_short (short page memberPage) one item memberItem
  · cases read

theorem positiveInteger_short {value : Value} {label : Text} {number : Nat} (short : Short value)
    (read : positiveInteger value label = .ok number) : ShortId number := by
  unfold positiveInteger Value.positiveInt at read
  cases value with
  | int value =>
      rw [Short] at short
      simp only at read
      split at read
      · next found =>
          split at found
          · next positive =>
              cases read
              cases found
              have same : value.toNat = value.natAbs := by omega
              rw [ShortId, same]
              exact short
          · cases found
      · cases read
  | _ => cases read

/-! ### Workflows -/

theorem selectWorkflow_ids {selected next : List Workflow} {path : Text} {value : Object} (short : ShortEntries value)
    (ids : ∀ workflow ∈ selected, ShortId workflow.id) (turn : selectWorkflow selected path value = .ok next) :
    ∀ workflow ∈ next, ShortId workflow.id := by
  unfold selectWorkflow at turn
  obtain ⟨workflowId, read, turn⟩ := bind_eq_ok turn
  split at turn
  · cases turn
  · obtain ⟨_, _, turn⟩ := bind_eq_ok turn
    cases turn
    intro workflow member
    rcases List.mem_append.mp member with old | new
    · exact ids workflow old
    · rw [List.mem_singleton.mp new]
      exact positiveInteger_short (Short.get short "id") read

theorem catalogStep_ids {selected next : List Workflow} {value : Object} (short : ShortEntries value)
    (ids : ∀ workflow ∈ selected, ShortId workflow.id) (turn : catalogStep selected value = .ok next) :
    ∀ workflow ∈ next, ShortId workflow.id := by
  unfold catalogStep at turn
  obtain ⟨_, _, turn⟩ := bind_eq_ok turn
  split at turn
  · split at turn
    · exact selectWorkflow_ids short ids turn
    · obtain ⟨_, _, turn⟩ := bind_eq_ok turn
      cases turn
      exact ids
  · obtain ⟨_, _, turn⟩ := bind_eq_ok turn
    cases turn
    exact ids

theorem workflowCatalog_only :
    Only Reading workflowCatalog fun catalog => ∀ workflow ∈ catalog, ShortId workflow.id := by
  apply Only.bind (get_only (repos_repository _))
  intro value short
  apply only_ofExcept
  intro catalog read
  obtain ⟨values, flattened, read⟩ := bind_eq_ok read
  have shortValues := flattenPages_short short flattened
  have loop := foldlM_rule (fun rest selected => (∀ item ∈ rest, ShortEntries item) ∧
    ∀ workflow ∈ selected, ShortId workflow.id) ?_ ⟨shortValues, by simp⟩ read
  · exact loop.2
  · intro item rest selected next before turn
    obtain ⟨shortItem, shortRest⟩ := List.forall_mem_cons.mp before.1
    exact ⟨shortRest, catalogStep_ids shortItem before.2 turn⟩

/-- The workflows that `_by_path` finds are of the catalog, and their paths are the ones asked for. -/
theorem byPath_eq_ok {workflows found : List Workflow} {paths : List Text} (read : byPath workflows paths = .ok found) :
    found.map Workflow.path = paths ∧ ∀ workflow ∈ found, workflow ∈ workflows := by
  have each : List.Forall₂ (fun path workflow => workflow.path = path ∧ workflow ∈ workflows) paths found := by
    apply List.Forall₂.imp ?_ (mapM_eq_ok read)
    intro path workflow matched
    split at matched
    · next only =>
        cases matched
        have member : workflow ∈ workflows.filter fun workflow => workflow.path = path := by simp [only]
        obtain ⟨inCatalog, samePath⟩ := List.mem_filter.mp member
        exact ⟨of_decide_eq_true samePath, inCatalog⟩
    · cases matched
  constructor
  · clear read
    induction each with
    | nil => rfl
    | cons first _ ih => rw [List.map_cons, ih, first.1]
  · intro workflow member
    obtain ⟨path, _, matched⟩ := exists_of_forall₂ each workflow member
    exact matched.2

/-! ### Runs -/

theorem runStep_ids {workflow : Workflow} {output next : List Run} {value : Object} (short : ShortEntries value)
    (ids : ∀ run ∈ output, ShortId run.id) (turn : runStep workflow output value = .ok next) :
    ∀ run ∈ next, ShortId run.id := by
  unfold runStep at turn
  obtain ⟨run, parsed, turn⟩ := bind_eq_ok turn
  obtain ⟨_, _, turn⟩ := bind_eq_ok turn
  cases turn
  have shortRun : ShortId run.id := by
    unfold parseRun at parsed
    obtain ⟨runId, read, parsed⟩ := bind_eq_ok parsed
    obtain ⟨_, _, parsed⟩ := bind_eq_ok parsed
    split at parsed
    · obtain ⟨_, _, parsed⟩ := bind_eq_ok parsed
      cases parsed
      exact positiveInteger_short (Short.get short "id") read
    · cases parsed
  intro other member
  rcases List.mem_append.mp member with old | new
  · exact ids other old
  · rw [List.mem_singleton.mp new]
    exact shortRun

@[simp] theorem mem_sortRuns {runs : List Run} {run : Run} : run ∈ sortRuns runs ↔ run ∈ runs :=
  (List.perm_insertionSort _ runs).mem_iff

theorem runsOf_only (workflow : Workflow) : Only Reading (runsOf workflow) fun runs => ∀ run ∈ runs, ShortId run.id := by
  have repos : text "repos/" <+: runsEndpoint workflow.id := by
    unfold runsEndpoint
    rw [List.append_assoc, List.append_assoc]
    exact repos_repository _
  apply Only.bind (get_only repos)
  intro value short
  apply only_ofExcept
  intro runs read
  obtain ⟨values, flattened, read⟩ := bind_eq_ok read
  obtain ⟨output, looped, returned⟩ := bind_eq_ok read
  cases returned
  have shortValues := flattenPages_short short flattened
  have loop := foldlM_rule (fun rest output => (∀ item ∈ rest, ShortEntries item) ∧ ∀ run ∈ output, ShortId run.id)
    ?_ ⟨shortValues, by simp⟩ looped
  · intro run member
    exact loop.2 run (mem_sortRuns.mp member)
  · intro item rest output next before turn
    obtain ⟨shortItem, shortRest⟩ := List.forall_mem_cons.mp before.1
    exact ⟨shortRest, runStep_ids shortItem before.2 turn⟩

theorem withRuns_only (workflow : Workflow) :
    Only Reading (withRuns workflow) fun entry => entry.1 = workflow ∧ ∀ run ∈ entry.2, ShortId run.id := by
  apply Only.bind (runsOf_only workflow)
  intro runs short
  exact only_done ⟨rfl, short⟩

/-! ### The default branch -/

theorem validDefaultBranch_eq_ok {value : Value} {branch : Text} (valid : validDefaultBranch value = .ok branch) :
    isBranchName branch = true := by
  unfold validDefaultBranch at valid
  split at valid
  · split at valid
    · next named =>
        cases valid
        exact named
    · cases valid
  · cases valid

theorem graphqlDefaultBranch_eq_ok {response : Value} {branch : Text}
    (found : graphqlDefaultBranch response = .ok branch) : isBranchName branch = true := by
  unfold graphqlDefaultBranch at found
  split at found
  · obtain ⟨_, _, found⟩ := bind_eq_ok found
    split at found
    · obtain ⟨_, _, found⟩ := bind_eq_ok found
      split at found
      · exact validDefaultBranch_eq_ok found
      · cases found
    · cases found
  · cases found

theorem restDefaultBranch_eq_ok {response : Value} {branch : Text} (found : restDefaultBranch response = .ok branch) :
    isBranchName branch = true := by
  unfold restDefaultBranch at found
  split at found
  · obtain ⟨_, _, found⟩ := bind_eq_ok found
    exact validDefaultBranch_eq_ok found
  · cases found

theorem repositoryDefaultBranch_only :
    Only Reading repositoryDefaultBranch fun branch => isBranchName branch = true := by
  have rest : text "repos/" <+: repositoryEndpoint := ⟨repository, rfl⟩
  apply Only.bind (get_only rest).attempt
  intro answer _
  match answer with
  | .ok response => exact only_ofExcept fun _ => restDefaultBranch_eq_ok
  | .error (.retirement _) => exact only_raise
  | .error (.uncaught _) => exact only_raise
  | .error (.unavailable _) =>
      apply Only.bind graphqlRepositoryIdentity_only.attempt
      intro answer _
      match answer with
      | .ok response => exact only_ofExcept fun _ => graphqlDefaultBranch_eq_ok
      | .error (.retirement _) => exact only_raise
      | .error (.uncaught _) => exact only_raise
      | .error (.unavailable _) => exact only_raise

theorem defaultBranchPaths_only :
    Only Reading defaultBranchPaths fun found => isBranchName found.1 = true := by
  apply Only.bind repositoryDefaultBranch_only
  intro branch named
  have repos : text "repos/" <+: contentsEndpoint branch := by
    rw [contentsEndpoint, List.append_assoc]
    exact repos_repository _
  apply Only.bind (get_only repos)
  intro contents _
  apply Only.bind (only_ofExcept fun _ passed => passed)
  intro paths _
  exact only_done named

/-! ### The snapshot -/

/-- Taking a snapshot only reads, and gives one of the legacy publishers. -/
theorem collect_only : Only Reading collectPreMigrationSnapshot Reviewable := by
  apply Only.bind defaultBranchPaths_only
  intro found named
  apply Only.bind (only_ofExcept fun _ passed => passed)
  intro _ _
  apply Only.bind workflowCatalog_only
  intro catalog short
  apply Only.bind (only_ofExcept fun _ => byPath_eq_ok)
  intro legacy ofCatalog
  obtain ⟨paths, member⟩ := ofCatalog
  apply Only.bind (only_mapM fun workflow _ => withRuns_only workflow)
  intro entries each
  apply only_done
  have workflows : entries.map Prod.fst = legacy := by
    clear paths member
    induction each with
    | nil => rfl
    | cons first _ ih => rw [List.map_cons, ih, first.1]
  constructor
  · exact named
  · rw [← paths, ← workflows, List.map_map]
    rfl
  · intro entry memberEntry
    obtain ⟨workflow, memberLegacy, same, _⟩ := exists_of_forall₂ each entry memberEntry
    rw [same]
    exact short workflow (member workflow memberLegacy)
  · intro entry memberEntry
    obtain ⟨_, _, _, runs⟩ := exists_of_forall₂ each entry memberEntry
    exact runs

theorem Collected.reviewable {snapshot : Snapshot} (collected : Collected snapshot) : Reviewable snapshot := by
  obtain ⟨log, trace⟩ := collected
  exact (collect_only log _ trace).2 snapshot rfl

end ExitfyCores.Retirement
