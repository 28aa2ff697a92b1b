/-
Module: ExitfyCores.Retirement.Server
Layer: Retirement
Purpose: The repository behind the API: what its requests change, what a cooperative API answers, and the states that
  earlier attempts can leave.
Imports: ExitfyCores.Retirement.Retire
Trusted boundary: human-reviewed spec of the API
Main exports: World, World.disable, World.delete, Moves, Reachable, Answers, Lists, Cooperative, WellFormed
Open obligations: none
-/
import ExitfyCores.Retirement.Retire

namespace ExitfyCores.Retirement

open Py Interaction

/-- The repository as the API shows it, and the receipt file. -/
structure World where
  branch : Text
  contents : List Text
  workflows : List Workflow
  runs : List Run
  receipt : Option (List UInt8)
deriving DecidableEq

/-- A workflow behind the disabling of these ids. -/
def Workflow.disabledBy (ids : List Nat) (workflow : Workflow) : Workflow :=
  { workflow with state := if workflow.id ∈ ids then disabledManually else workflow.state }

@[simp] theorem Workflow.id_disabledBy (ids : List Nat) (workflow : Workflow) :
    (workflow.disabledBy ids).id = workflow.id := rfl

@[simp] theorem Workflow.path_disabledBy (ids : List Nat) (workflow : Workflow) :
    (workflow.disabledBy ids).path = workflow.path := rfl

namespace World

/-- The workflows with these ids are disabled. -/
def disable (world : World) (ids : List Nat) : World :=
  { world with workflows := world.workflows.map (Workflow.disabledBy ids) }

/-- The runs with these ids are gone. -/
def delete (world : World) (ids : List Nat) : World :=
  { world with runs := world.runs.filter fun run => run.id ∉ ids }

/-- The receipt is replaced. -/
def store (world : World) (content : List UInt8) : World := { world with receipt := some content }

/-- The runs of a workflow. -/
def runsOf (world : World) (workflowId : Nat) : List Run :=
  world.runs.filter fun run => run.workflowId = workflowId

end World

/-! ### Attempts that fail -/

/-- An exchange, whatever it answers, leaves the world as it is or has the effect of its request. -/
inductive Moves : World → Exchange Answer → World → Prop where
  | stays (world : World) (exchange : Exchange Answer) : Moves world exchange world
  | disables (world : World) (id : Nat) (answer : Except Failure Captured) :
      Moves world ⟨.capture (mutateArguments (text "PUT") (disableEndpoint id)), answer⟩ (world.disable [id])
  | deletes (world : World) (id : Nat) (answer : Except Failure Captured) :
      Moves world ⟨.capture (mutateArguments (text "DELETE") (runEndpoint id)), answer⟩ (world.delete [id])
  | stores (world : World) (content : List UInt8) (answer : Replacement) :
      Moves world ⟨.replace content, answer⟩ (world.store content)

/-- The worlds that attempts to retire can leave, each on a snapshot and a confirmation of its own, each cut off at
any step. -/
inductive Reachable (sha256 : List UInt8 → Text) (start : World) : World → Prop where
  | start : Reachable sha256 start start
  | attempt {world next : World} (snapshot : Snapshot) (confirmation : Text) (earlier : Reachable sha256 start world)
      (left : Reaches Moves (retire sha256 snapshot confirmation) world next) : Reachable sha256 start next

/-! ### Answers of a cooperative API -/

/-- A process that succeeded with a value. -/
def Answers (captured : Except Failure Captured) (value : Value) : Prop :=
  ∃ raw stderr, captured = .ok ⟨0, raw, stderr, false, false⟩ ∧ loads raw = .ok value

/-- A process that succeeded. -/
def Succeeds (captured : Except Failure Captured) : Prop :=
  ∃ raw stderr, captured = .ok ⟨0, raw, stderr, false, false⟩

/-- A page with its items under a key. -/
structure Page (key : String) where
  entries : Object
  items : List Object
  listed : entries.get key = .list (items.map .dict)

/-- A value that lists items on pages, however they are cut. -/
def Lists (key : String) (value : Value) (items : List Object) : Prop :=
  ∃ pages : List (Page key), value = .list (pages.map fun page => .dict page.entries) ∧
    items = pages.flatMap Page.items

/-- An item that shows a workflow, whatever else it holds. -/
def ShowsWorkflow (item : Object) (workflow : Workflow) : Prop :=
  item.get "id" = .int workflow.id ∧ item.get "path" = .str workflow.path ∧ item.get "state" = .str workflow.state

/-- An item that shows a run, whatever else it holds. -/
def ShowsRun (item : Object) (run : Run) : Prop :=
  item.get "id" = .int run.id ∧ item.get "workflow_id" = .int run.workflowId ∧ item.get "path" = .str run.path ∧
    item.get "status" = .str run.status ∧ item.get "event" = .str run.event ∧ item.get "head_sha" = .str run.headSha

/-- An API that answers truly and does what it is asked, in every world that it serves. -/
structure Cooperative (served : World → Prop) (respond : (query : Query) → World → Answer query × World) : Prop where
  moved : ∀ world exchange next, served world → Moves world exchange next → served next
  repository : ∀ world, served world → ∃ captured, ∃ entries : Object,
    respond (.capture (getArguments repositoryEndpoint false)) world = (captured, world) ∧
      Answers captured (.dict entries) ∧ entries.get "full_name" = .str Retirement.repository ∧
      entries.get "default_branch" = .str world.branch
  contents : ∀ world, served world → ∃ captured, ∃ items : List Value,
    respond (.capture (getArguments (contentsEndpoint world.branch) false)) world = (captured, world) ∧
      Answers captured (.list items) ∧
      ∀ path, (∃ item ∈ items, item.get "path" = .str path) ↔ path ∈ world.contents
  workflows : ∀ world, served world → ∃ captured value items,
    respond (.capture (getArguments workflowsEndpoint true)) world = (captured, world) ∧ Answers captured value ∧
      Lists "workflows" value items ∧ List.Forall₂ ShowsWorkflow items world.workflows
  runs : ∀ world, served world → ∀ workflow ∈ world.workflows, ∃ captured value items,
    respond (.capture (getArguments (runsEndpoint workflow.id) true)) world = (captured, world) ∧
      Answers captured value ∧ Lists "workflow_runs" value items ∧
      List.Forall₂ ShowsRun items (world.runsOf workflow.id)
  disable : ∀ world, served world → ∀ workflow ∈ world.workflows, ∃ captured,
    respond (.capture (mutateArguments (text "PUT") (disableEndpoint workflow.id))) world =
      (captured, world.disable [workflow.id]) ∧ Succeeds captured
  delete : ∀ world, served world → ∀ run ∈ world.runs, ∃ captured,
    respond (.capture (mutateArguments (text "DELETE") (runEndpoint run.id))) world =
      (captured, world.delete [run.id]) ∧ Succeeds captured
  store : ∀ world, served world → ∀ content, respond (.replace content) world = (.replaced, world.store content)

/-! ### The repository before the migration -/

/-- The workflows that the program looks at. -/
def Relevant (workflow : Workflow) : Prop := workflow.path ∈ legacyPaths ++ replacementPaths

instance (workflow : Workflow) : Decidable (Relevant workflow) := inferInstanceAs (Decidable (_ ∈ _))

/-- A repository whose legacy publishers can be retired. -/
structure WellFormed (world : World) : Prop where
  branchName : isBranchName world.branch = true
  branchLength : world.branch.length ≤ 255
  legacyContents : ∀ path ∈ legacyPaths, path ∈ world.contents
  noReplacements : ∀ path ∈ replacementPaths, path ∉ world.contents
  legacyWorkflows : ∀ path ∈ legacyPaths, ∃ workflow ∈ world.workflows, workflow.path = path
  distinctIds : ((world.workflows.filter Relevant).map Workflow.id).Nodup
  distinctPaths : ((world.workflows.filter Relevant).map Workflow.path).Nodup
  relevant : ∀ workflow ∈ world.workflows, Relevant workflow →
    0 < workflow.id ∧ (decimal workflow.id).length ≤ maxStrDigits ∧ workflow.state ≠ []
  distinctRuns : (world.runs.map Run.id).Nodup
  runs : ∀ workflow ∈ world.workflows, workflow.path ∈ legacyPaths → ∀ run ∈ world.runsOf workflow.id,
    0 < run.id ∧ run.path = workflow.path ∧ run.status = completed ∧ isFullSha run.headSha = true

end ExitfyCores.Retirement
