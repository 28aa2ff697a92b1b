/-
Module: ExitfyCores.Retirement.Api
Layer: Retirement
Purpose: `GitHubApi` of `retire_legacy_workflows.py`, what its answers are read as, and the snapshot that is taken
  from them.
Imports: ExitfyCores.Lib.Interaction, ExitfyCores.Lib.PyCodec
Trusted boundary: human-reviewed spec; how `gh` is started and its output captured is one question of the program
Main exports: Failure, Query, Answer, Api, runGh, get, mutate, Workflow, Run, Snapshot, workflowCatalog, byPath, runsOf,
  repositoryDefaultBranch, collectPreMigrationSnapshot
Open obligations: none
-/
import ExitfyCores.Lib.Interaction
import ExitfyCores.Lib.PyCodec

namespace ExitfyCores.Retirement

open Py

def repository : Text := text "kvuco/exitFy-cores"

def githubHost : Text := text "github.com"

/-- `LEGACY_PATHS` -/
def legacyPaths : List Text :=
  [text ".github/workflows/release-singbox.yml", text ".github/workflows/release-xray.yml"]

/-- `REPLACEMENT_PATHS` -/
def replacementPaths : List Text :=
  [text ".github/workflows/publish-singbox-core-v2.yml", text ".github/workflows/publish-xray-core-v2.yml"]

def maxApiDiagnosticBytes : Nat := 8 * 1024

/-! ### Requests -/

/-- `RetirementError`, its subclass `GitHubApiUnavailable`, and every other exception by its text. -/
inductive Failure where
  | retirement (message : Text)
  | unavailable (message : Text)
  | uncaught (message : Text)
deriving DecidableEq

/-- What `_capture_process` returns. -/
structure Captured where
  returncode : Int
  stdout : List UInt8
  stderr : List UInt8
  overflow : Bool
  timedOut : Bool

/-- How the replacement of a file went; an exception can come before it or behind it. -/
inductive Replacement where
  | replaced
  | failed (replaced : Bool) (failure : Failure)

/-- A `gh api` process with its arguments, or a file that takes the place of the receipt. -/
inductive Query where
  | capture (arguments : List Text)
  | replace (content : List UInt8)
deriving DecidableEq

def Answer : Query → Type
  | .capture _ => Except Failure Captured
  | .replace _ => Replacement

/-- A program that talks to the API and replaces the receipt. -/
abbrev Api := Interaction Answer Failure

/-- `GitHubApi._error_detail(stderr, returncode)` -/
def errorDetail (stderr : List UInt8) (returncode : Int) : Text :=
  let detail := strip (decodeUtf8Replacing (stderr.take maxApiDiagnosticBytes))
  let detail := if maxApiDiagnosticBytes < stderr.length then strip (detail ++ text " …[truncated]") else detail
  if detail = [] then intText returncode else detail

/-- What `GitHubApi._run` makes of a process. -/
def runResult (expectJson : Bool) (captured : Except Failure Captured) : Except Failure Value := do
  let captured ← captured
  throwIf (captured.overflow = true) (.retirement (text "GitHub API response exceeds the safety limit"))
  throwIf (captured.timedOut = true) (.unavailable (text "GitHub API request timed out"))
  throwIf (captured.returncode ≠ 0)
    (.unavailable (text "GitHub API failed: " ++ errorDetail captured.stderr captured.returncode))
  if expectJson then
    match loads captured.stdout with
    | .ok value => .ok value
    | .error .decode => .error (.retirement (text "GitHub API returned invalid JSON"))
    | .error .unicode => .error (.uncaught (text "UnicodeDecodeError"))
    | .error (.digits message) => .error (.uncaught message)
  else .ok .none

/-- `GitHubApi._run(arguments, expect_json)` -/
def runGh (arguments : List Text) (expectJson : Bool) : Api Value :=
  .ask (.capture arguments) fun captured => .ofExcept (runResult expectJson captured)

/-- The arguments of `get`. -/
def getArguments (endpoint : Text) (paginate : Bool) : List Text :=
  if paginate then [text "--paginate", text "--slurp", endpoint] else [endpoint]

/-- `GitHubApi.get(endpoint, paginate=paginate)` -/
def get (endpoint : Text) (paginate : Bool) : Api Value := runGh (getArguments endpoint paginate) true

/-- The arguments of `graphql_repository_identity`. -/
def identityArguments : List Text :=
  [text "graphql", text "-f",
    text ("query=query($owner:String!,$name:String!)\x7brepository(owner:$owner,name:$name)\x7b" ++
      "nameWithOwner defaultBranchRef\x7bname\x7d\x7d\x7d"),
    text "-f", text "owner=kvuco", text "-f", text "name=exitFy-cores"]

/-- `GitHubApi.graphql_repository_identity()` -/
def graphqlRepositoryIdentity : Api Value := runGh identityArguments true

/-- The arguments of `mutate`. -/
def mutateArguments (method endpoint : Text) : List Text := [text "--method", method, endpoint]

/-- `GitHubApi.mutate(method, endpoint)` -/
def mutate (method endpoint : Text) : Api Unit := do
  .throwIf (method ∉ [text "PUT", text "DELETE"]) (.retirement (text "unsupported retirement mutation"))
  let _ ← runGh (mutateArguments method endpoint) false
  return ()

/-! ### Endpoints -/

/-- `f"repos/{REPOSITORY}"` -/
def repositoryEndpoint : Text := text "repos/" ++ repository

/-- What `urllib.parse.quote` leaves as it is. -/
def isUnreserved (b : UInt8) : Bool :=
  (65 ≤ b && b ≤ 90) || (97 ≤ b && b ≤ 122) || (48 ≤ b && b ≤ 57) || b == 95 || b == 46 || b == 45 || b == 126

/-- `%XX` -/
def percentByte (b : UInt8) : Text :=
  37 :: [b.toNat / 16, b.toNat % 16].map fun digit => (Nat.digitChar digit).toUpper.toNat

/-- `urllib.parse.quote(value, safe="")` -/
def percentQuote (value : Text) : Text :=
  (encode value).flatMap fun b => if isUnreserved b then [b.toNat] else percentByte b

/-- The endpoint of `_default_branch_paths`. -/
def contentsEndpoint (branch : Text) : Text :=
  repositoryEndpoint ++ text "/contents/.github/workflows?ref=" ++ percentQuote branch

def workflowsEndpoint : Text := repositoryEndpoint ++ text "/actions/workflows?per_page=100"

def runsEndpoint (workflowId : Nat) : Text :=
  repositoryEndpoint ++ text "/actions/workflows/" ++ decimal workflowId ++ text "/runs?per_page=100"

def disableEndpoint (workflowId : Nat) : Text :=
  repositoryEndpoint ++ text "/actions/workflows/" ++ decimal workflowId ++ text "/disable"

def runEndpoint (runId : Nat) : Text := repositoryEndpoint ++ text "/actions/runs/" ++ decimal runId

/-! ### Workflows and runs -/

structure Workflow where
  id : Nat
  path : Text
  state : Text
deriving DecidableEq, Repr

structure Run where
  id : Nat
  workflowId : Nat
  path : Text
  status : Text
  event : Text
  headSha : Text
deriving DecidableEq, Repr

structure Snapshot where
  defaultBranch : Text
  legacy : List (Workflow × List Run)
deriving DecidableEq, Repr

/-- `_positive_integer(value, label)` -/
def positiveInteger (value : Value) (label : Text) : Except Failure Nat :=
  match value.positiveInt with
  | some number => .ok number
  | none => .error (.retirement (label ++ text " is invalid"))

/-- The items of one page under a key. -/
def pageItems (key : String) (page : Value) : Except Failure (List Object) :=
  match page with
  | .dict entries =>
      match Object.get entries key with
      | .list items => items.mapM fun item =>
          match item with
          | .dict entries => .ok entries
          | _ => .error (.retirement (text "paginated GitHub item is malformed"))
      | _ => .error (.retirement (text "paginated GitHub response is malformed"))
  | _ => .error (.retirement (text "paginated GitHub response is malformed"))

/-- `_flatten_pages(value, key)` -/
def flattenPages (value : Value) (key : String) : Except Failure (List Object) :=
  match value with
  | .list pages => do
      let items ← pages.mapM (pageItems key)
      return items.flatten
  | _ => .error (.retirement (text "paginated GitHub response is invalid"))

/-- `value in container` for a set: a list or a dictionary cannot be hashed. -/
def requireHashable : Value → Except Failure Unit
  | .list _ => .error (.uncaught (text "unhashable type: \x27list\x27"))
  | .dict _ => .error (.uncaught (text "unhashable type: \x27dict\x27"))
  | _ => .ok ()

/-- `isinstance(value, str) and value` -/
def nonemptyText : Value → Option Text
  | .str [] => none
  | .str value => some value
  | _ => none

/-- The turn of the loop of `_workflow_catalog` for a relevant path. -/
def selectWorkflow (selected : List Workflow) (path : Text) (value : Object) : Except Failure (List Workflow) := do
  let workflowId ← positiveInteger (value.get "id") (text "workflow id for " ++ path)
  match nonemptyText (value.get "state") with
  | none => .error (.retirement (text "relevant workflow identity is malformed"))
  | some state => do
      -- `seen_ids` and `seen_paths` are what was selected.
      throwIf (workflowId ∈ selected.map Workflow.id ∨ path ∈ selected.map Workflow.path)
        (.retirement (text "workflow identity is ambiguous: " ++ path))
      return selected ++ [⟨workflowId, path, state⟩]

/-- One turn of the loop of `_workflow_catalog`, where no identity has been captured before. -/
def catalogStep (selected : List Workflow) (value : Object) : Except Failure (List Workflow) := do
  requireHashable (value.get "path")
  match value.get "path" with
  | .str path =>
      if path ∈ legacyPaths ++ replacementPaths then selectWorkflow selected path value
      else do
        requireHashable (value.get "id")
        return selected
  | _ => do
      requireHashable (value.get "id")
      return selected

/-- `_workflow_catalog(api)` -/
def workflowCatalog : Api (List Workflow) := do
  let value ← get workflowsEndpoint true
  .ofExcept (do
    let values ← flattenPages value "workflows"
    values.foldlM catalogStep [])

/-- `_by_path(workflows, paths)` -/
def byPath (workflows : List Workflow) (paths : List Text) : Except Failure (List Workflow) :=
  paths.mapM fun path =>
    match workflows.filter fun workflow => workflow.path = path with
    | [workflow] => .ok workflow
    | _ => .error (.retirement (text "required workflow identity is missing: " ++ path))

/-- `FULL_SHA.fullmatch(value)` -/
def isFullSha (value : Text) : Bool :=
  value.length = 40 && value.all fun c => (48 ≤ c && c ≤ 57) || (97 ≤ c && c ≤ 102)

/-- `_run(value, label)` -/
def parseRun (value : Object) (label : Text) : Except Failure Run := do
  let runId ← positiveInteger (value.get "id") (label ++ text " id")
  let workflowId ← positiveInteger (value.get "workflow_id") (label ++ text " workflow id")
  match value.get "path", value.get "status", value.get "event", value.get "head_sha" with
  | .str path, .str status, .str event, .str headSha => do
      throwIf (isFullSha headSha = false) (.retirement (label ++ text " is malformed"))
      return ⟨runId, workflowId, path, status, event, headSha⟩
  | _, _, _, _ => .error (.retirement (label ++ text " is malformed"))

/-- One turn of the loop of `_runs`. -/
def runStep (workflow : Workflow) (output : List Run) (value : Object) : Except Failure (List Run) := do
  let run ← parseRun value (text "workflow run")
  throwIf (run.workflowId ≠ workflow.id ∨ run.path ≠ workflow.path ∨ run.id ∈ output.map Run.id)
    (.retirement (text "run does not belong exactly to " ++ workflow.path))
  return output ++ [run]

/-- `tuple(sorted(output, key=lambda item: item.id))` -/
def sortRuns (runs : List Run) : List Run := runs.insertionSort fun first second => first.id ≤ second.id

/-- `_runs(api, workflow)` -/
def runsOf (workflow : Workflow) : Api (List Run) := do
  let value ← get (runsEndpoint workflow.id) true
  .ofExcept (do
    let values ← flattenPages value "workflow_runs"
    let output ← values.foldlM (runStep workflow) []
    return sortRuns output)

/-! ### The default branch -/

/-- `[-A-Za-z0-9._/]` -/
def isBranchChar (c : Nat) : Bool :=
  (65 ≤ c && c ≤ 90) || (97 ≤ c && c ≤ 122) || (48 ≤ c && c ≤ 57) || c == 46 || c == 95 || c == 47 || c == 45

/-- `re.fullmatch(r"[-A-Za-z0-9._/]+", value)` -/
def isBranchName (value : Text) : Bool := !value.isEmpty && value.all isBranchChar

/-- `_valid_default_branch(value)` -/
def validDefaultBranch : Value → Except Failure Text
  | .str value =>
      if isBranchName value then .ok value else .error (.retirement (text "default branch is invalid"))
  | _ => .error (.retirement (text "default branch is invalid"))

/-- The branch in a GraphQL response. -/
def graphqlDefaultBranch (response : Value) : Except Failure Text :=
  match response with
  | .dict entries => do
      throwIf (text "errors" ∈ entries.map Prod.fst)
        (.retirement (text "GraphQL repository identity response is invalid"))
      match (Object.get entries "data").get "repository" with
      | .dict found => do
          throwIf ((Object.get found "nameWithOwner").isText repository = false)
            (.retirement (text "authenticated repository identity is invalid"))
          match Object.get found "defaultBranchRef" with
          | .dict branchRef => validDefaultBranch (Object.get branchRef "name")
          | _ => .error (.retirement (text "default branch is invalid"))
      | _ => .error (.retirement (text "GraphQL repository identity response is invalid"))
  | _ => .error (.retirement (text "GraphQL repository identity response is invalid"))

/-- The branch in a REST response. -/
def restDefaultBranch (response : Value) : Except Failure Text :=
  match response with
  | .dict entries => do
      throwIf ((Object.get entries "full_name").isText repository = false)
        (.retirement (text "authenticated repository identity is invalid"))
      validDefaultBranch (Object.get entries "default_branch")
  | _ => .error (.retirement (text "authenticated repository identity is invalid"))

/-- `_repository_default_branch(api)` -/
def repositoryDefaultBranch : Api Text := do
  match ← (get repositoryEndpoint false).attempt with
  | .ok response => .ofExcept (restDefaultBranch response)
  | .error (.unavailable _) =>
      match ← graphqlRepositoryIdentity.attempt with
      | .ok response => .ofExcept (graphqlDefaultBranch response)
      | .error (.unavailable _) =>
          .raise (.unavailable (text "repository identity lookup failed through REST and GraphQL"))
      | .error failure => .raise failure
  | .error failure => .raise failure

/-- The paths in a directory listing. -/
def contentPaths (contents : Value) : Except Failure (List Text) :=
  match contents with
  | .list items => .ok (items.filterMap fun item =>
      match item.get "path" with
      | .str path => some path
      | _ => none)
  | _ => .error (.retirement (text "default-branch workflow directory is invalid"))

/-- `_default_branch_paths(api)` -/
def defaultBranchPaths : Api (Text × List Text) := do
  let branch ← repositoryDefaultBranch
  let contents ← get (contentsEndpoint branch) false
  let paths ← .ofExcept (contentPaths contents)
  return (branch, paths)

/-! ### The snapshot -/

/-- `str` of a list of strings without quotes in them -/
def listText (items : List Text) : Text :=
  text "[" ++ (text ", ").intercalate (items.map fun item => 39 :: (item ++ [39])) ++ text "]"

/-- Only the legacy publishers are on the default branch. The constants are in order, so `sorted` leaves them so. -/
def checkPaths (paths : List Text) : Except Failure Unit :=
  let missingLegacy := legacyPaths.filter (· ∉ paths)
  let prematureReplacements := replacementPaths.filter (· ∈ paths)
  throwIf (missingLegacy ≠ [] ∨ prematureReplacements ≠ [])
    (.retirement (text "pre-migration retirement requires only the legacy publisher paths on the default branch: " ++
      text "missing=" ++ listText missingLegacy ++ text ", replacement=" ++ listText prematureReplacements))

/-- A workflow with its runs. -/
def withRuns (workflow : Workflow) : Api (Workflow × List Run) := do
  let runs ← runsOf workflow
  return (workflow, runs)

/-- `collect_pre_migration_snapshot(api)` -/
def collectPreMigrationSnapshot : Api Snapshot := do
  let (branch, paths) ← defaultBranchPaths
  .ofExcept (checkPaths paths)
  let catalog ← workflowCatalog
  let legacy ← .ofExcept (byPath catalog legacyPaths)
  let withTheirRuns ← legacy.mapM withRuns
  return ⟨branch, withTheirRuns⟩

end ExitfyCores.Retirement
