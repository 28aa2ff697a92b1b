/-
Module: ExitfyCores.Proofs.RetirementResume
Layer: Proofs
Purpose: On a cooperative API, `retire` on a fresh snapshot succeeds from whatever earlier attempts have left, and once
  more writes the same receipt.
Imports: ExitfyCores.Proofs.PlainServer
Trusted boundary: none
Main exports: World.snapshot, WellFormed.moved, collect_ends, retire_ends, resumable
Open obligations: none
-/
import ExitfyCores.Proofs.PlainServer

namespace ExitfyCores.Retirement

open Py Interaction

/-! ### The snapshot of a world -/

namespace World

/-- The workflow with a path. -/
def workflowAt (world : World) (path : Text) : Workflow :=
  (world.workflows.find? fun workflow => workflow.path = path).getD ⟨0, path, []⟩

/-- What `collect_pre_migration_snapshot` finds. -/
def snapshot (world : World) : Snapshot where
  defaultBranch := world.branch
  legacy := (legacyPaths.map world.workflowAt).map fun workflow => (workflow, sortRuns (world.runsOf workflow.id))

/-- The ids of the legacy publishers. -/
def legacyIds (world : World) : List Nat := legacyPaths.map fun path => (world.workflowAt path).id

@[simp] theorem disable_nil (world : World) : world.disable [] = world := by
  have same : world.workflows.map (Workflow.disabledBy []) = world.workflows := by
    conv_rhs => rw [← List.map_id world.workflows]
    exact List.map_congr_left fun workflow _ => by simp [Workflow.disabledBy]
  rw [disable, same]

@[simp] theorem delete_nil (world : World) : world.delete [] = world := by
  simp [delete]

theorem disable_append (world : World) (done : List Nat) (id : Nat) :
    world.disable (done ++ [id]) = (world.disable done).disable [id] := by
  simp only [disable, List.map_map, mk.injEq, true_and, and_true]
  apply List.map_congr_left
  intro workflow _
  by_cases before : workflow.id ∈ done <;> simp [Workflow.disabledBy, before]

theorem delete_append (world : World) (done : List Nat) (id : Nat) :
    world.delete (done ++ [id]) = (world.delete done).delete [id] := by
  simp only [delete, List.filter_filter, mk.injEq, true_and, and_true]
  apply List.filter_congr
  intro run _
  simp [and_comm]

theorem snapshot_ids (world : World) : world.snapshot.ids = world.legacyIds := by
  simp [Snapshot.ids, snapshot, legacyIds]

@[simp] theorem relevant_disabledBy (ids : List Nat) (workflow : Workflow) :
    Relevant (workflow.disabledBy ids) ↔ Relevant workflow := Iff.rfl

theorem filter_relevant_disable (world : World) (ids : List Nat) :
    (world.disable ids).workflows.filter Relevant = (world.workflows.filter Relevant).map (Workflow.disabledBy ids) := by
  rw [disable, List.filter_map]
  rfl

end World

/-! ### What every move keeps -/

theorem WellFormed.disable {world : World} (wellFormed : WellFormed world) (ids : List Nat) :
    WellFormed (world.disable ids) where
  branchName := wellFormed.branchName
  branchLength := wellFormed.branchLength
  legacyContents := wellFormed.legacyContents
  noReplacements := wellFormed.noReplacements
  legacyWorkflows := by
    intro path legacy
    obtain ⟨workflow, member, same⟩ := wellFormed.legacyWorkflows path legacy
    exact ⟨workflow.disabledBy ids, List.mem_map_of_mem member, same⟩
  distinctIds := by
    rw [World.filter_relevant_disable, List.map_map]
    exact wellFormed.distinctIds
  distinctPaths := by
    rw [World.filter_relevant_disable, List.map_map]
    exact wellFormed.distinctPaths
  relevant := by
    intro workflow member relevant
    obtain ⟨old, memberOld, rfl⟩ := List.mem_map.mp member
    obtain ⟨positive, short, state⟩ := wellFormed.relevant old memberOld relevant
    refine ⟨positive, short, ?_⟩
    by_cases now : old.id ∈ ids <;> simp [Workflow.disabledBy, now, state, disabledManually, text]
  distinctRuns := wellFormed.distinctRuns
  runs := by
    intro workflow member legacy
    obtain ⟨old, memberOld, rfl⟩ := List.mem_map.mp member
    exact wellFormed.runs old memberOld legacy

theorem WellFormed.delete {world : World} (wellFormed : WellFormed world) (ids : List Nat) :
    WellFormed (world.delete ids) where
  branchName := wellFormed.branchName
  branchLength := wellFormed.branchLength
  legacyContents := wellFormed.legacyContents
  noReplacements := wellFormed.noReplacements
  legacyWorkflows := wellFormed.legacyWorkflows
  distinctIds := wellFormed.distinctIds
  distinctPaths := wellFormed.distinctPaths
  relevant := wellFormed.relevant
  distinctRuns := wellFormed.distinctRuns.sublist (List.filter_sublist.map Run.id)
  runs := by
    intro workflow member legacy run memberRun
    apply wellFormed.runs workflow member legacy run
    obtain ⟨kept, ofWorkflow⟩ := List.mem_filter.mp memberRun
    exact List.mem_filter.mpr ⟨(List.mem_filter.mp kept).1, ofWorkflow⟩

theorem WellFormed.store {world : World} (wellFormed : WellFormed world) (content : List UInt8) :
    WellFormed (world.store content) where
  branchName := wellFormed.branchName
  branchLength := wellFormed.branchLength
  legacyContents := wellFormed.legacyContents
  noReplacements := wellFormed.noReplacements
  legacyWorkflows := wellFormed.legacyWorkflows
  distinctIds := wellFormed.distinctIds
  distinctPaths := wellFormed.distinctPaths
  relevant := wellFormed.relevant
  distinctRuns := wellFormed.distinctRuns
  runs := wellFormed.runs

/-- Whatever an exchange does, the publishers can still be retired. -/
theorem WellFormed.moved {world next : World} {exchange : Exchange Answer} (wellFormed : WellFormed world)
    (moved : Moves world exchange next) : WellFormed next := by
  cases moved with
  | stays => exact wellFormed
  | disables id _ => exact wellFormed.disable [id]
  | deletes id _ => exact wellFormed.delete [id]
  | stores content _ => exact wellFormed.store content

theorem Reachable.wellFormed {sha256 : List UInt8 → Text} {start world : World} (reached : Reachable sha256 start world)
    (wellFormed : WellFormed start) : WellFormed world := by
  induction reached with
  | start => exact wellFormed
  | attempt snapshot confirmation _ left ih =>
      exact left.invariant (fun _ _ _ wellFormed => wellFormed.moved) ih

/-! ### Legacy workflows -/

/-- Where paths do not repeat, one workflow has the path of a workflow. -/
theorem filter_eq_singleton {workflows : List Workflow} (distinct : (workflows.map Workflow.path).Nodup)
    {workflow : Workflow} (member : workflow ∈ workflows) :
    workflows.filter (fun other => other.path = workflow.path) = [workflow] := by
  induction workflows with
  | nil => cases member
  | cons first rest ih =>
      obtain ⟨fresh, distinct⟩ := List.nodup_cons.mp distinct
      rcases List.mem_cons.mp member with rfl | later
      · have none : rest.filter (fun other => other.path = workflow.path) = [] := by
          rw [List.filter_eq_nil_iff]
          intro other memberOther same
          exact fresh (of_decide_eq_true same ▸ List.mem_map_of_mem memberOther)
        simp [none]
      · have apart : first.path ≠ workflow.path := by
          intro same
          exact fresh (same ▸ List.mem_map_of_mem later)
        simp [apart, ih distinct later]

section

variable {world : World} (wellFormed : WellFormed world)

include wellFormed

/-- The workflow with a legacy path. -/
theorem WellFormed.workflowAt {path : Text} (legacy : path ∈ legacyPaths) :
    world.workflowAt path ∈ world.workflows ∧ (world.workflowAt path).path = path := by
  obtain ⟨workflow, member, same⟩ := wellFormed.legacyWorkflows path legacy
  unfold World.workflowAt
  cases found : world.workflows.find? fun workflow => workflow.path = path with
  | none =>
      have absent := List.find?_eq_none.mp found workflow member
      simp [same] at absent
  | some workflow =>
      have holds := List.find?_some found
      exact ⟨List.mem_of_find?_eq_some found, of_decide_eq_true holds⟩

/-- Among the relevant workflows a legacy path has one. -/
theorem WellFormed.filter_path {path : Text} (legacy : path ∈ legacyPaths) :
    (world.workflows.filter Relevant).filter (fun workflow => workflow.path = path) = [world.workflowAt path] := by
  obtain ⟨member, same⟩ := wellFormed.workflowAt legacy
  have relevant : world.workflowAt path ∈ world.workflows.filter Relevant := by
    refine List.mem_filter.mpr ⟨member, decide_eq_true ?_⟩
    rw [Relevant, same]
    exact List.mem_append_left _ legacy
  have only := filter_eq_singleton wellFormed.distinctPaths relevant
  rwa [same] at only

theorem WellFormed.byPath :
    byPath (world.workflows.filter Relevant) legacyPaths = .ok (legacyPaths.map world.workflowAt) := by
  apply mapM_ok
  intro path legacy
  rw [wellFormed.filter_path legacy]

theorem WellFormed.checkPaths {paths : List Text} (same : ∀ path, path ∈ paths ↔ path ∈ world.contents) :
    checkPaths paths = .ok () := by
  have missing : legacyPaths.filter (· ∉ paths) = [] := by
    rw [List.filter_eq_nil_iff]
    intro path legacy
    simpa [same path] using wellFormed.legacyContents path legacy
  have premature : replacementPaths.filter (· ∈ paths) = [] := by
    rw [List.filter_eq_nil_iff]
    intro path replacement
    simpa [same path] using wellFormed.noReplacements path replacement
  rw [Retirement.checkPaths]
  simp only [missing, premature]
  exact throwIf_eq_ok.mpr (by simp)

end

/-! ### Reading answers -/

theorem flattenPages_lists {key : String} {value : Value} {items : List Object} (lists : Lists key value items) :
    flattenPages value key = .ok items := by
  obtain ⟨pages, rfl, rfl⟩ := lists
  have page : ∀ page : Page key, pageItems key (.dict page.entries) = .ok page.items := by
    intro page
    have read := @mapM_ok Failure Object Object (fun item => .ok item) id page.items fun _ _ => rfl
    rw [List.map_id] at read
    rw [pageItems, page.listed]
    change List.mapM _ (page.items.map Value.dict) = _
    rw [List.mapM_map]
    exact read
  have all : (pages.map fun page => Value.dict page.entries).mapM (pageItems key) = .ok (pages.map Page.items) := by
    rw [List.mapM_map]
    exact mapM_ok fun one _ => page one
  rw [flattenPages, all, ok_bind, List.flatMap_def]
  rfl

theorem catalogStep_relevant {selected : List Workflow} {item : Object} {workflow : Workflow}
    (shows : ShowsWorkflow item workflow) (relevant : Relevant workflow) (positive : 0 < workflow.id)
    (state : workflow.state ≠ []) (freshId : workflow.id ∉ selected.map Workflow.id)
    (freshPath : workflow.path ∉ selected.map Workflow.path) :
    catalogStep selected item = .ok (selected ++ [workflow]) := by
  obtain ⟨id, path, itsState⟩ := shows
  have nonempty : nonemptyText (.str workflow.state) = some workflow.state := by
    cases named : workflow.state with
    | nil => exact absurd named state
    | cons c rest => rfl
  have fresh : ¬ (workflow.id ∈ selected.map Workflow.id ∨ workflow.path ∈ selected.map Workflow.path) :=
    not_or.mpr ⟨freshId, freshPath⟩
  have member : workflow.path ∈ legacyPaths ++ replacementPaths := relevant
  simp only [catalogStep, path, requireHashable, ok_bind, if_pos member, selectWorkflow, id,
    positiveInteger_natCast positive, itsState, nonempty, throwIf_eq_ok.mpr fresh]
  rfl

theorem catalogStep_other {selected : List Workflow} {item : Object} {workflow : Workflow}
    (shows : ShowsWorkflow item workflow) (other : ¬ Relevant workflow) : catalogStep selected item = .ok selected := by
  obtain ⟨id, path, _⟩ := shows
  have notMember : workflow.path ∉ legacyPaths ++ replacementPaths := other
  simp only [catalogStep, path, requireHashable, ok_bind, if_neg notMember, id]
  rfl

/-- The catalog of well-formed items is their relevant workflows. -/
theorem foldlM_catalogStep {items : List Object} {workflows : List Workflow}
    (shown : List.Forall₂ ShowsWorkflow items workflows) {selected : List Workflow}
    (relevant : ∀ workflow ∈ workflows, Relevant workflow → 0 < workflow.id ∧ workflow.state ≠ [])
    (distinctIds : ((selected ++ workflows.filter Relevant).map Workflow.id).Nodup)
    (distinctPaths : ((selected ++ workflows.filter Relevant).map Workflow.path).Nodup) :
    items.foldlM catalogStep selected = .ok (selected ++ workflows.filter Relevant) := by
  induction shown generalizing selected with
  | nil => simp [pure, Except.pure]
  | @cons item workflow items workflows first _ ih =>
      obtain ⟨here, later⟩ := List.forall_mem_cons.mp relevant
      rw [List.foldlM_cons]
      by_cases isRelevant : Relevant workflow
      · have kept : (workflow :: workflows).filter Relevant = workflow :: workflows.filter Relevant := by
          simp [isRelevant]
        rw [kept] at distinctIds distinctPaths ⊢
        obtain ⟨positive, state⟩ := here isRelevant
        have freshId : workflow.id ∉ selected.map Workflow.id := by
          rw [List.map_append, List.nodup_append] at distinctIds
          intro member
          exact distinctIds.2.2 _ member _ List.mem_cons_self rfl
        have freshPath : workflow.path ∉ selected.map Workflow.path := by
          rw [List.map_append, List.nodup_append] at distinctPaths
          intro member
          exact distinctPaths.2.2 _ member _ List.mem_cons_self rfl
        rw [catalogStep_relevant first isRelevant positive state freshId freshPath, ok_bind,
          ih later (by simpa using distinctIds) (by simpa using distinctPaths)]
        simp
      · have dropped : (workflow :: workflows).filter Relevant = workflows.filter Relevant := by
          simp [isRelevant]
        rw [dropped] at distinctIds distinctPaths ⊢
        rw [catalogStep_other first isRelevant, ok_bind, ih later distinctIds distinctPaths]

theorem runStep_shown {workflow : Workflow} {output : List Run} {item : Object} {run : Run} (shows : ShowsRun item run)
    (positive : 0 < run.id) (positiveWorkflow : 0 < workflow.id) (ofWorkflow : run.workflowId = workflow.id)
    (path : run.path = workflow.path) (sha : isFullSha run.headSha = true) (fresh : run.id ∉ output.map Run.id) :
    runStep workflow output item = .ok (output ++ [run]) := by
  obtain ⟨id, workflowId, itsPath, status, event, headSha⟩ := shows
  have positiveId : 0 < run.workflowId := ofWorkflow ▸ positiveWorkflow
  have belongs : ¬ (run.workflowId ≠ workflow.id ∨ run.path ≠ workflow.path ∨ run.id ∈ output.map Run.id) := by
    simp only [not_or, Decidable.not_not]
    exact ⟨ofWorkflow, path, fresh⟩
  have parsed : parseRun item (text "workflow run") = .ok run := by
    simp only [parseRun, id, workflowId, positiveInteger_natCast positive, positiveInteger_natCast positiveId, ok_bind,
      itsPath, status, event, headSha, throwIf_eq_ok.mpr (show ¬ isFullSha run.headSha = false by simp [sha])]
    rfl
  rw [runStep, parsed, ok_bind, throwIf_eq_ok.mpr belongs]
  rfl

theorem foldlM_runStep {workflow : Workflow} (positiveWorkflow : 0 < workflow.id) {items : List Object} {runs : List Run}
    (shown : List.Forall₂ ShowsRun items runs) {output : List Run}
    (each : ∀ run ∈ runs, 0 < run.id ∧ run.workflowId = workflow.id ∧ run.path = workflow.path ∧
      isFullSha run.headSha = true)
    (distinct : ((output ++ runs).map Run.id).Nodup) :
    items.foldlM (runStep workflow) output = .ok (output ++ runs) := by
  induction shown generalizing output with
  | nil => simp [pure, Except.pure]
  | @cons item run items runs first _ ih =>
      obtain ⟨⟨positive, ofWorkflow, path, sha⟩, later⟩ := List.forall_mem_cons.mp each
      have fresh : run.id ∉ output.map Run.id := by
        rw [List.map_append, List.nodup_append] at distinct
        intro member
        exact distinct.2.2 _ member _ List.mem_cons_self rfl
      rw [List.foldlM_cons, runStep_shown first positive positiveWorkflow ofWorkflow path sha fresh, ok_bind,
        ih later (by simpa using distinct)]
      simp

/-! ### Requests of a cooperative API -/

theorem runResult_answers {captured : Except Failure Captured} {value : Value} (answers : Answers captured value) :
    runResult true captured = .ok value := by
  obtain ⟨raw, stderr, rfl, loaded⟩ := answers
  simp [runResult, ok_bind, throwIf, loaded]

theorem runResult_succeeds {captured : Except Failure Captured} (succeeds : Succeeds captured) :
    runResult false captured = .ok .none := by
  obtain ⟨raw, stderr, rfl⟩ := succeeds
  simp [runResult, ok_bind, throwIf]

variable {served : World → Prop} {respond : (query : Query) → World → Answer query × World}

theorem get_ends {endpoint : Text} {paginate : Bool} {captured : Except Failure Captured} {value : Value}
    {world next : World}
    (responded : respond (.capture (getArguments endpoint paginate)) world = (captured, next))
    (answers : Answers captured value) : Ends respond (get endpoint paginate) world (.ok value) next := by
  apply ends_ask responded
  have read := runResult_answers answers
  rw [read]
  exact ends_done

theorem mutate_ends {method endpoint : Text} (known : method ∈ [text "PUT", text "DELETE"])
    {captured : Except Failure Captured} {world next : World}
    (responded : respond (.capture (mutateArguments method endpoint)) world = (captured, next))
    (succeeds : Succeeds captured) : Ends respond (mutate method endpoint) world (.ok ()) next := by
  apply Ends.bind (ends_throwIf (not_not.mpr known))
  have sent : Ends respond (runGh (mutateArguments method endpoint) false) world (.ok .none) next := by
    apply ends_ask responded
    have read := runResult_succeeds succeeds
    rw [read]
    exact ends_done
  exact Ends.bind sent ends_done

/-! ### A fresh snapshot -/

section

variable (cooperative : Cooperative served respond) {world : World} (isServed : served world)

include cooperative isServed

theorem repositoryDefaultBranch_ends (wellFormed : WellFormed world) :
    Ends respond repositoryDefaultBranch world (.ok world.branch) world := by
  obtain ⟨captured, entries, responded, answers, name, branch⟩ := cooperative.repository world isServed
  apply Ends.bind (Ends.attempt (get_ends responded answers))
  have read : restDefaultBranch (.dict entries) = .ok world.branch := by
    simp [restDefaultBranch, name, branch, Value.isText, throwIf, ok_bind, validDefaultBranch, wellFormed.branchName]
  change Ends respond (.ofExcept (restDefaultBranch (.dict entries))) world (.ok world.branch) world
  rw [read]
  exact ends_done

theorem defaultBranchPaths_ends (wellFormed : WellFormed world) :
    ∃ paths, Ends respond defaultBranchPaths world (.ok (world.branch, paths)) world ∧
      ∀ path, path ∈ paths ↔ path ∈ world.contents := by
  obtain ⟨captured, items, responded, answers, listed⟩ := cooperative.contents world isServed
  refine ⟨_, Ends.bind (repositoryDefaultBranch_ends cooperative isServed wellFormed)
    (Ends.bind (get_ends responded answers) (Ends.bind ends_done ends_done)), ?_⟩
  · intro path
    rw [← listed path, List.mem_filterMap]
    constructor
    · intro found
      obtain ⟨item, member, named⟩ := found
      refine ⟨item, member, ?_⟩
      split at named
      · next itsPath =>
          cases named
          exact itsPath
      · cases named
    · intro found
      obtain ⟨item, member, named⟩ := found
      exact ⟨item, member, by rw [named]⟩

theorem workflowCatalog_ends (wellFormed : WellFormed world) :
    Ends respond workflowCatalog world (.ok (world.workflows.filter Relevant)) world := by
  obtain ⟨captured, value, items, responded, answers, lists, shown⟩ := cooperative.workflows world isServed
  apply Ends.bind (get_ends responded answers)
  have selected := @foldlM_catalogStep _ _ shown []
    (fun workflow member relevant =>
      ⟨(wellFormed.relevant workflow member relevant).1, (wellFormed.relevant workflow member relevant).2.2⟩)
    wellFormed.distinctIds wellFormed.distinctPaths
  rw [flattenPages_lists lists, ok_bind, selected]
  exact ends_done

theorem withRuns_ends (wellFormed : WellFormed world) {workflow : Workflow} (member : workflow ∈ world.workflows)
    (legacy : workflow.path ∈ legacyPaths) :
    Ends respond (withRuns workflow) world (.ok (workflow, sortRuns (world.runsOf workflow.id))) world := by
  obtain ⟨captured, value, items, responded, answers, lists, shown⟩ :=
    cooperative.runs world isServed workflow member
  have positive := (wellFormed.relevant workflow member (List.mem_append_left _ legacy)).1
  have distinct : ((world.runsOf workflow.id).map Run.id).Nodup :=
    wellFormed.distinctRuns.sublist (List.filter_sublist.map Run.id)
  have read := @foldlM_runStep workflow positive _ _ shown []
    (fun run memberRun => by
      obtain ⟨positiveRun, path, _, sha⟩ := wellFormed.runs workflow member legacy run memberRun
      have ofWorkflow := of_decide_eq_true (List.mem_filter.mp memberRun).2
      exact ⟨positiveRun, ofWorkflow, path, sha⟩)
    distinct
  have collected : Ends respond (runsOf workflow) world (.ok (sortRuns (world.runsOf workflow.id))) world := by
    apply Ends.bind (get_ends responded answers)
    rw [flattenPages_lists lists, ok_bind, read]
    exact ends_done
  exact Ends.bind collected ends_done

/-- On a cooperative API a snapshot is taken, and it shows the world. -/
theorem collect_ends (wellFormed : WellFormed world) :
    Ends respond collectPreMigrationSnapshot world (.ok world.snapshot) world := by
  obtain ⟨paths, found, listed⟩ := defaultBranchPaths_ends cooperative isServed wellFormed
  apply Ends.bind found
  apply Ends.bind (a := ())
  · rw [wellFormed.checkPaths listed]
    exact ends_done
  apply Ends.bind (workflowCatalog_ends cooperative isServed wellFormed)
  apply Ends.bind (a := legacyPaths.map world.workflowAt)
  · rw [wellFormed.byPath]
    exact ends_done
  have entries := @ends_mapM _ _ _ _ _ _ respond withRuns
    (fun workflow => (workflow, sortRuns (world.runsOf workflow.id))) (legacyPaths.map world.workflowAt) world ?_
  · exact Ends.bind entries ends_done
  · intro workflow member
    obtain ⟨path, legacy, rfl⟩ := List.mem_map.mp member
    obtain ⟨isWorkflow, same⟩ := wellFormed.workflowAt legacy
    exact withRuns_ends cooperative isServed wellFormed isWorkflow (same.symm ▸ legacy)

end

/-! ### What is retired -/

namespace World

/-- Both publishers are disabled, and their runs are gone. -/
def emptied (world : World) : World := (world.disable world.legacyIds).delete world.snapshot.sortedRunIds

/-- And the receipt tells so. -/
def retired (world : World) : World := world.emptied.store (receiptBytes world.emptied.snapshot)

theorem snapshot_runs (world : World) :
    world.snapshot.runs = legacyPaths.flatMap fun path => sortRuns (world.runsOf (world.workflowAt path).id) := by
  simp [Snapshot.runs, snapshot, List.flatMap_map]

theorem mem_snapshot_runs {world : World} {run : Run} :
    run ∈ world.snapshot.runs ↔ ∃ path ∈ legacyPaths, run ∈ world.runsOf (world.workflowAt path).id := by
  simp [snapshot_runs]

end World

section

variable {world : World} (wellFormed : WellFormed world)

include wellFormed

theorem WellFormed.workflowAt_disable (ids : List Nat) {path : Text} (legacy : path ∈ legacyPaths) :
    (world.disable ids).workflowAt path = (world.workflowAt path).disabledBy ids := by
  obtain ⟨workflow, member, same⟩ := wellFormed.legacyWorkflows path legacy
  have some : (world.workflows.find? fun workflow => workflow.path = path).isSome = true := by
    rw [List.find?_isSome]
    exact ⟨workflow, member, decide_eq_true same⟩
  obtain ⟨found, first⟩ := Option.isSome_iff_exists.mp some
  have mapped : (world.disable ids).workflows.find? (fun workflow => workflow.path = path) =
      (world.workflows.find? fun workflow => workflow.path = path).map (Workflow.disabledBy ids) := by
    rw [World.disable, List.find?_map]
    rfl
  simp only [World.workflowAt, mapped, first, Option.map_some, Option.getD_some]

theorem WellFormed.legacyIds_disable (ids : List Nat) : (world.disable ids).legacyIds = world.legacyIds := by
  apply List.map_congr_left
  intro path legacy
  rw [wellFormed.workflowAt_disable ids legacy]
  rfl

theorem WellFormed.runs_disable (ids : List Nat) : (world.disable ids).snapshot.runs = world.snapshot.runs := by
  rw [World.snapshot_runs, World.snapshot_runs]
  apply List.flatMap_congr
  intro path legacy
  rw [wellFormed.workflowAt_disable ids legacy]
  rfl

/-- Every run of a snapshot is completed. -/
theorem WellFormed.runs_completed : ∀ run ∈ world.snapshot.runs, run.status = completed := by
  intro run member
  obtain ⟨path, legacy, ofWorkflow⟩ := World.mem_snapshot_runs.mp member
  obtain ⟨isWorkflow, same⟩ := wellFormed.workflowAt legacy
  exact (wellFormed.runs _ isWorkflow (same.symm ▸ legacy) run ofWorkflow).2.2.1

/-- Once their ids are disabled, the publishers are disabled. -/
theorem WellFormed.disabled : Disabled (world.disable world.legacyIds).snapshot := by
  intro entry member
  obtain ⟨workflow, memberWorkflow, rfl⟩ := List.mem_map.mp member
  obtain ⟨path, legacy, rfl⟩ := List.mem_map.mp memberWorkflow
  have id : (world.workflowAt path).id ∈ world.legacyIds :=
    List.mem_map_of_mem (f := fun path => (world.workflowAt path).id) legacy
  simp [wellFormed.workflowAt_disable _ legacy, Workflow.disabledBy, id]

/-- Once its runs are deleted, the snapshot has none. -/
theorem WellFormed.runs_emptied : world.emptied.snapshot.runs = [] := by
  rw [List.eq_nil_iff_forall_not_mem]
  intro run member
  obtain ⟨path, legacy, ofWorkflow⟩ := World.mem_snapshot_runs.mp member
  obtain ⟨kept, workflowId⟩ := List.mem_filter.mp ofWorkflow
  obtain ⟨before, notDeleted⟩ := List.mem_filter.mp kept
  have listed : run ∈ world.snapshot.runs := by
    rw [← wellFormed.runs_disable world.legacyIds]
    exact World.mem_snapshot_runs.mpr ⟨path, legacy, List.mem_filter.mpr ⟨before, workflowId⟩⟩
  have deleted : run.id ∈ world.snapshot.sortedRunIds := by
    rw [Snapshot.mem_sortedRunIds, Snapshot.runIds, List.mem_toFinset]
    exact List.mem_map_of_mem listed
  exact absurd deleted (of_decide_eq_true notDeleted)

theorem WellFormed.ids_emptied : world.emptied.snapshot.ids = world.snapshot.ids := by
  rw [World.snapshot_ids, World.snapshot_ids, ← wellFormed.legacyIds_disable world.legacyIds]
  rfl

theorem WellFormed.disabled_emptied : Disabled world.emptied.snapshot := by
  intro entry member
  obtain ⟨workflow, memberWorkflow, rfl⟩ := List.mem_map.mp member
  have before : (workflow, sortRuns ((world.disable world.legacyIds).runsOf workflow.id)) ∈
      (world.disable world.legacyIds).snapshot.legacy := List.mem_map.mpr ⟨workflow, memberWorkflow, rfl⟩
  have state := wellFormed.disabled _ before
  exact state

/-- The publishers of the emptied world, by their paths. -/
theorem WellFormed.publisher_emptied {workflow : Workflow} (member : workflow ∈ world.emptied.workflows)
    (legacy : workflow.path ∈ legacyPaths) :
    workflow.state = disabledManually ∧ world.emptied.runsOf workflow.id = [] := by
  have wellEmptied : WellFormed world.emptied := (wellFormed.disable _).delete _
  obtain ⟨isWorkflow, samePath⟩ := wellEmptied.workflowAt legacy
  have relevant : ∀ other ∈ world.emptied.workflows, other.path = workflow.path →
      other ∈ world.emptied.workflows.filter Relevant := fun other memberOther path =>
    List.mem_filter.mpr ⟨memberOther, decide_eq_true (List.mem_append_left _ (path.symm ▸ legacy))⟩
  have same : world.emptied.workflowAt workflow.path = workflow :=
    List.inj_on_of_nodup_map wellEmptied.distinctPaths (relevant _ isWorkflow samePath) (relevant _ member rfl) samePath
  constructor
  · have entry : (workflow, sortRuns (world.emptied.runsOf workflow.id)) ∈ world.emptied.snapshot.legacy :=
      List.mem_map.mpr ⟨workflow, List.mem_map.mpr ⟨workflow.path, legacy, same⟩, rfl⟩
    exact wellFormed.disabled_emptied _ entry
  · rw [List.eq_nil_iff_forall_not_mem]
    intro run ofWorkflow
    have listed : run ∈ world.emptied.snapshot.runs :=
      World.mem_snapshot_runs.mpr ⟨workflow.path, legacy, by rwa [same]⟩
    rw [wellFormed.runs_emptied] at listed
    cases listed

/-- The receipt does not depend on states and runs. -/
theorem WellFormed.receiptBytes_emptied : receiptBytes world.emptied.snapshot = receiptBytes world.snapshot := by
  have items : world.emptied.snapshot.legacy.map receiptItem = world.snapshot.legacy.map receiptItem := by
    simp only [World.snapshot, List.map_map]
    apply List.map_congr_left
    intro path legacy
    have same : world.emptied.workflowAt path = (world.workflowAt path).disabledBy world.legacyIds :=
      wellFormed.workflowAt_disable _ legacy
    simp only [Function.comp_apply, receiptItem, same]
    rfl
  have entries : receiptEntries world.emptied.snapshot = receiptEntries world.snapshot := by
    rw [receiptEntries, items]
    rfl
  rw [receiptBytes_eq, receiptBytes_eq, receiptText, receiptText, entries]

/-- The receipt of a world can be read again. -/
theorem WellFormed.receiptable : Receiptable world.snapshot where
  branchName := wellFormed.branchName
  branchLength := wellFormed.branchLength
  paths := by
    have same : legacyPaths.map (fun path => (world.workflowAt path).path) = legacyPaths.map id :=
      List.map_congr_left fun path legacy => (wellFormed.workflowAt legacy).2
    rw [List.map_id] at same
    simp only [World.snapshot, List.map_map]
    exact same
  positive := by
    intro entry member
    obtain ⟨workflow, memberWorkflow, rfl⟩ := List.mem_map.mp member
    obtain ⟨path, legacy, rfl⟩ := List.mem_map.mp memberWorkflow
    obtain ⟨isWorkflow, same⟩ := wellFormed.workflowAt legacy
    exact (wellFormed.relevant _ isWorkflow (List.mem_append_left _ (same.symm ▸ legacy))).1
  short := by
    intro entry member
    obtain ⟨workflow, memberWorkflow, rfl⟩ := List.mem_map.mp member
    obtain ⟨path, legacy, rfl⟩ := List.mem_map.mp memberWorkflow
    obtain ⟨isWorkflow, same⟩ := wellFormed.workflowAt legacy
    exact (wellFormed.relevant _ isWorkflow (List.mem_append_left _ (same.symm ▸ legacy))).2.1
  distinct := by
    have paths : legacyPaths.Nodup := by decide
    rw [World.snapshot_ids]
    refine paths.map_on fun first legacyFirst second legacySecond same => ?_
    obtain ⟨isFirst, firstPath⟩ := wellFormed.workflowAt legacyFirst
    obtain ⟨isSecond, secondPath⟩ := wellFormed.workflowAt legacySecond
    have relevant : ∀ path ∈ legacyPaths, world.workflowAt path ∈ world.workflows.filter Relevant := by
      intro path legacy
      obtain ⟨isWorkflow, itsPath⟩ := wellFormed.workflowAt legacy
      exact List.mem_filter.mpr ⟨isWorkflow, decide_eq_true (List.mem_append_left _ (itsPath.symm ▸ legacy))⟩
    have equal := List.inj_on_of_nodup_map wellFormed.distinctIds (relevant first legacyFirst)
      (relevant second legacySecond) same
    rw [← firstPath, ← secondPath, equal]

end

/-! ### A fresh attempt -/

section

variable (cooperative : Cooperative served respond) {world : World} (isServed : served world)

include cooperative isServed

theorem served_disable (ids : List Nat) : served (world.disable ids) := by
  induction ids using List.reverseRecOn with
  | nil => rwa [World.disable_nil]
  | append_singleton done id ih =>
      rw [World.disable_append]
      exact cooperative.moved _ _ _ ih (.disables _ id (.ok ⟨0, [], [], false, false⟩))

theorem served_delete (ids : List Nat) : served (world.delete ids) := by
  induction ids using List.reverseRecOn with
  | nil => rwa [World.delete_nil]
  | append_singleton done id ih =>
      rw [World.delete_append]
      exact cooperative.moved _ _ _ ih (.deletes _ id (.ok ⟨0, [], [], false, false⟩))

theorem served_reachable {sha256 : List UInt8 → Text} {next : World} (reached : Reachable sha256 world next) :
    served next := by
  induction reached with
  | start => exact isServed
  | attempt snapshot confirmation _ left ih => exact left.invariant cooperative.moved ih

theorem disable_ends (wellFormed : WellFormed world) :
    Ends respond (world.legacyIds.forM fun id => mutate (text "PUT") (disableEndpoint id)) world (.ok ())
      (world.disable world.legacyIds) := by
  have loop := @ends_forM _ _ _ _ _ respond (fun id => mutate (text "PUT") (disableEndpoint id)) world.legacyIds
    world.disable ?_
  · rwa [World.disable_nil] at loop
  · intro before id rest split
    have member : id ∈ world.legacyIds := by simp [split]
    obtain ⟨path, legacy, rfl⟩ := List.mem_map.mp member
    have isWorkflow : (world.workflowAt path).disabledBy before ∈ (world.disable before).workflows :=
      List.mem_map_of_mem (wellFormed.workflowAt legacy).1
    obtain ⟨captured, responded, succeeds⟩ :=
      cooperative.disable _ (served_disable cooperative isServed before) _ isWorkflow
    rw [World.disable_append]
    exact mutate_ends (by simp) responded succeeds

theorem delete_ends {ids : List Nat} (distinct : ids.Nodup) (listed : ∀ id ∈ ids, ∃ run ∈ world.runs, run.id = id) :
    Ends respond (ids.forM fun id => mutate (text "DELETE") (runEndpoint id)) world (.ok ()) (world.delete ids) := by
  have loop := @ends_forM _ _ _ _ _ respond (fun id => mutate (text "DELETE") (runEndpoint id)) ids world.delete ?_
  · rwa [World.delete_nil] at loop
  · intro before id rest split
    obtain ⟨run, isRun, rfl⟩ := listed id (by simp [split])
    have fresh : run.id ∉ before := by
      rw [split, List.nodup_append] at distinct
      intro member
      exact distinct.2.2 _ member _ List.mem_cons_self rfl
    have remains : run ∈ (world.delete before).runs := List.mem_filter.mpr ⟨isRun, decide_eq_true fresh⟩
    obtain ⟨captured, responded, succeeds⟩ :=
      cooperative.delete _ (served_delete cooperative isServed before) run remains
    rw [World.delete_append]
    exact mutate_ends (by simp) responded succeeds

/-- With its own token a fresh snapshot is retired. -/
theorem retire_ends (sha256 : List UInt8 → Text) (wellFormed : WellFormed world) :
    Ends respond (retire sha256 world.snapshot (applyToken sha256 world.snapshot)) world (.ok ()) world.retired := by
  have wellDisabled := wellFormed.disable world.legacyIds
  have servedDisabled := served_disable cooperative isServed world.legacyIds
  have wellEmptied : WellFormed world.emptied := wellDisabled.delete _
  have servedEmptied : served world.emptied := served_delete cooperative servedDisabled _
  have completedRuns := wellFormed.runs_completed
  unfold retire
  apply Ends.bind (ends_throwIf (by simp))
  apply Ends.bind (ends_throwIf (by simpa [List.filter_eq_nil_iff] using completedRuns))
  apply Ends.bind (a := PUnit.unit)
  · rw [World.snapshot_ids]
    exact disable_ends cooperative isServed wellFormed
  apply Ends.bind (collect_ends cooperative servedDisabled wellDisabled)
  have sameIds : (world.disable world.legacyIds).snapshot.ids = world.snapshot.ids := by
    rw [World.snapshot_ids, World.snapshot_ids, wellFormed.legacyIds_disable]
  have sameRuns : (world.disable world.legacyIds).snapshot.runIds = world.snapshot.runIds := by
    rw [Snapshot.runIds, wellFormed.runs_disable]
    rfl
  have stillCompleted := wellDisabled.runs_completed
  have disabled := wellFormed.disabled
  apply Ends.bind (ends_throwIf (not_not.mpr rfl))
  apply Ends.bind (ends_throwIf (not_not.mpr sameIds))
  apply Ends.bind (ends_throwIf (by simpa [Disabled] using disabled))
  apply Ends.bind (ends_throwIf (not_not.mpr sameRuns))
  apply Ends.bind (ends_throwIf (by simpa using stillCompleted))
  apply Ends.bind (a := PUnit.unit)
  · apply delete_ends cooperative servedDisabled
    · exact (List.perm_insertionSort _ _).nodup_iff.mpr (List.nodup_dedup _)
    · intro id member
      rw [Snapshot.mem_sortedRunIds, Snapshot.runIds, List.mem_toFinset] at member
      obtain ⟨run, listed, rfl⟩ := List.mem_map.mp member
      obtain ⟨path, _, ofWorkflow⟩ := World.mem_snapshot_runs.mp listed
      exact ⟨run, (List.mem_filter.mp ofWorkflow).1, rfl⟩
  apply Ends.bind (collect_ends cooperative servedEmptied wellEmptied)
  have verified : verifyPreMigrationRetired world.emptied.snapshot = .ok () :=
    verifyPreMigrationRetired_eq_ok.mpr ⟨wellFormed.disabled_emptied, wellFormed.runs_emptied⟩
  apply Ends.bind (ends_throwIf (not_not.mpr rfl))
  apply Ends.bind (ends_throwIf (not_not.mpr (wellFormed.ids_emptied)))
  apply Ends.bind (a := ())
  · rw [verified]
    exact ends_done
  exact ends_ask (cooperative.store _ servedEmptied _) ends_done

end

/-- A fresh snapshot is taken and retired with its own token: both publishers end disabled and without runs, the receipt
that is written can be read and names them, and doing it once more writes the same receipt. -/
def Resumes (sha256 : List UInt8 → Text) (respond : (query : Query) → World → Answer query × World)
    (world : World) : Prop :=
  ∃ snapshot final content receipt again last,
    Ends respond collectPreMigrationSnapshot world (.ok snapshot) world ∧
    Ends respond (retire sha256 snapshot (applyToken sha256 snapshot)) world (.ok ()) final ∧
    (∀ workflow ∈ final.workflows, workflow.path ∈ legacyPaths →
      workflow.state = disabledManually ∧ final.runsOf workflow.id = []) ∧
    final.receipt = some content ∧ loadReceipt (.ok content) = .ok receipt ∧
    receipt.defaultBranch = world.branch ∧ receipt.legacy.map Workflow.id = snapshot.ids ∧
    Ends respond collectPreMigrationSnapshot final (.ok again) final ∧
    Ends respond (retire sha256 again (applyToken sha256 again)) final (.ok ()) last ∧
    last.receipt = some content

/-- On a cooperative API, from every world that earlier attempts can leave. -/
theorem resumable (sha256 : List UInt8 → Text) {served : World → Prop}
    {respond : (query : Query) → World → Answer query × World} (cooperative : Cooperative served respond)
    {start world : World} (isServed : served start) (wellFormed : WellFormed start)
    (reached : Reachable sha256 start world) : Resumes sha256 respond world := by
  have isServed : served world := served_reachable cooperative isServed reached
  have wellFormed : WellFormed world := reached.wellFormed wellFormed
  have wellEmptied : WellFormed world.emptied := (wellFormed.disable _).delete _
  have servedEmptied : served world.emptied := served_delete cooperative (served_disable cooperative isServed _) _
  have wellRetired : WellFormed world.retired := wellEmptied.store _
  have servedRetired : served world.retired := cooperative.moved _ _ _ servedEmptied (.stores _ _ .replaced)
  refine ⟨world.snapshot, world.retired, receiptBytes world.emptied.snapshot, _, world.retired.snapshot,
    world.retired.retired, collect_ends cooperative isServed wellFormed,
    retire_ends cooperative isServed sha256 wellFormed, ?_, rfl, loadReceipt_receiptBytes wellEmptied.receiptable, rfl,
    ?_, collect_ends cooperative servedRetired wellRetired, retire_ends cooperative servedRetired sha256 wellRetired, ?_⟩
  · intro workflow member legacy
    exact wellFormed.publisher_emptied member legacy
  · rw [List.map_map]
    exact wellFormed.ids_emptied
  · exact congrArg some wellRetired.receiptBytes_emptied

/-- An attempt was cut off behind its first request: one publisher is disabled, its run is there, the receipt is old. -/
def halfRetired : World where
  branch := text "main"
  contents := text ".github/workflows/ci.yml" :: legacyPaths
  workflows := [⟨11, legacyPaths.headD [], disabledManually⟩, ⟨12, legacyPaths.getLastD [], text "active"⟩,
    ⟨13, text ".github/workflows/ci.yml", text "active"⟩]
  runs := [sampleRun, ⟨102, 13, text ".github/workflows/ci.yml", text "queued", text "push", List.replicate 40 49⟩]
  receipt := some [0]

theorem halfRetired_plain : PlainWorld halfRetired := by
  constructor <;> decide

theorem halfRetired_wellFormed : WellFormed halfRetired := by
  constructor <;> decide

theorem resumable_halfRetired : Resumes sampleSha256 plainServer halfRetired :=
  resumable sampleSha256 plainServer_cooperative halfRetired_plain halfRetired_wellFormed .start

end ExitfyCores.Retirement
