/-
Module: ExitfyCores.Proofs.PlainServer
Layer: Proofs
Purpose: A server for `retire` that writes its state as JSON is cooperative wherever its texts need no escape.
Imports: ExitfyCores.Retirement.Server, ExitfyCores.Proofs.Receipt
Trusted boundary: none
Main exports: PlainWorld, plainServer, plainServer_cooperative
Open obligations: none
-/
import ExitfyCores.Retirement.Server
import ExitfyCores.Proofs.Receipt

namespace ExitfyCores.Retirement

open Py Interaction

/-! ### The server -/

/-- A world whose texts need no escape and whose ids JSON can hold. -/
structure PlainWorld (world : World) : Prop where
  branch : PlainText world.branch
  contents : ∀ path ∈ world.contents, PlainText path
  workflows : ∀ workflow ∈ world.workflows, ShortId workflow.id ∧ PlainText workflow.path ∧ PlainText workflow.state
  runs : ∀ run ∈ world.runs, ShortId run.id ∧ ShortId run.workflowId ∧ PlainText run.path ∧ PlainText run.status ∧
    PlainText run.event ∧ PlainText run.headSha

def repositoryItem (world : World) : Object :=
  [(text "full_name", .str repository), (text "default_branch", .str world.branch)]

def contentItem (path : Text) : Value := .dict [(text "path", .str path)]

def workflowItem (workflow : Workflow) : Object :=
  [(text "id", .int workflow.id), (text "path", .str workflow.path), (text "state", .str workflow.state)]

def runItem (run : Run) : Object :=
  [(text "id", .int run.id), (text "workflow_id", .int run.workflowId), (text "path", .str run.path),
    (text "status", .str run.status), (text "event", .str run.event), (text "head_sha", .str run.headSha)]

/-- One page that lists everything. -/
def onePage (key : String) (items : List Object) : Value := .list [.dict [(text key, .list (items.map .dict))]]

/-- What the server answers to a process, and what it does. -/
def serve (arguments : List Text) (world : World) : Except Failure Captured × World :=
  if arguments = getArguments repositoryEndpoint false then (answered (.dict (repositoryItem world)), world)
  else if arguments = getArguments (contentsEndpoint world.branch) false then
    (answered (.list (world.contents.map contentItem)), world)
  else if arguments = getArguments workflowsEndpoint true then
    (answered (onePage "workflows" (world.workflows.map workflowItem)), world)
  else
    match world.workflows.find? fun workflow => arguments = getArguments (runsEndpoint workflow.id) true with
    | some workflow => (answered (onePage "workflow_runs" ((world.runsOf workflow.id).map runItem)), world)
    | none =>
        match world.workflows.find? fun workflow =>
          arguments = mutateArguments (text "PUT") (disableEndpoint workflow.id) with
        | some workflow => (answered .none, world.disable [workflow.id])
        | none =>
            match world.runs.find? fun run => arguments = mutateArguments (text "DELETE") (runEndpoint run.id) with
            | some run => (answered .none, world.delete [run.id])
            | none => (.error (.unavailable (text "GitHub API failed: gh: Not Found (HTTP 404)")), world)

/-- A server that answers every request it knows, and replaces the receipt. -/
def plainServer (query : Query) (world : World) : Answer query × World :=
  match query with
  | .capture arguments => serve arguments world
  | .replace content => (.replaced, world.store content)

/-! ### Requests are told apart -/

theorem decimal_injective : Function.Injective decimal := by
  intro first second same
  rw [← numeralValue_decimal first, same, numeralValue_decimal]

theorem runsEndpoint_injective : Function.Injective runsEndpoint := by
  intro first second same
  exact decimal_injective (List.append_cancel_left (List.append_cancel_right same))

theorem disableEndpoint_injective : Function.Injective disableEndpoint := by
  intro first second same
  exact decimal_injective (List.append_cancel_left (List.append_cancel_right same))

theorem runEndpoint_injective : Function.Injective runEndpoint := by
  intro first second same
  exact decimal_injective (List.append_cancel_left same)

theorem contentsEndpoint_ne (branch : Text) : contentsEndpoint branch ≠ repositoryEndpoint := by
  intro same
  have lengths := congrArg List.length same
  simp [contentsEndpoint, text] at lengths

theorem runsEndpoint_ne (id : Nat) : runsEndpoint id ≠ workflowsEndpoint := by
  intro same
  rw [runsEndpoint, workflowsEndpoint, List.append_assoc, List.append_assoc] at same
  have tails := List.append_cancel_left same
  simp [text] at tails

@[simp] theorem getArguments_single {first second : Text} :
    getArguments first false = getArguments second false ↔ first = second := by
  simp [getArguments]

@[simp] theorem getArguments_paginated {first second : Text} :
    getArguments first true = getArguments second true ↔ first = second := by
  simp [getArguments]

@[simp] theorem getArguments_paginated_ne {first second : Text} : getArguments first true ≠ getArguments second false := by
  simp [getArguments]

@[simp] theorem mutateArguments_ne {method first second : Text} {paginate : Bool} :
    mutateArguments method first ≠ getArguments second paginate := by
  cases paginate <;> simp [mutateArguments, getArguments, text]

theorem find?_same {α : Type} {items : List α} (request : α → List Text) {a : α} (member : a ∈ items) :
    ∃ b, items.find? (fun other => request a = request other) = some b ∧ request a = request b := by
  cases found : items.find? fun other => request a = request other with
  | none =>
      have absent := List.find?_eq_none.mp found a member
      simp at absent
  | some b =>
      have holds := List.find?_some found
      exact ⟨b, rfl, of_decide_eq_true holds⟩

theorem find?_other {α : Type} {items : List α} {request : α → List Text} {arguments : List Text}
    (apart : ∀ a, arguments ≠ request a) : items.find? (fun other => arguments = request other) = none := by
  rw [List.find?_eq_none]
  intro a _
  simp [apart a]

section

variable {world : World}

theorem serve_repository : serve (getArguments repositoryEndpoint false) world =
    (answered (.dict (repositoryItem world)), world) := by
  simp [serve]

theorem serve_contents : serve (getArguments (contentsEndpoint world.branch) false) world =
    (answered (.list (world.contents.map contentItem)), world) := by
  simp [serve, contentsEndpoint_ne]

theorem serve_workflows : serve (getArguments workflowsEndpoint true) world =
    (answered (onePage "workflows" (world.workflows.map workflowItem)), world) := by
  simp [serve]

theorem serve_runs {workflow : Workflow} (member : workflow ∈ world.workflows) :
    serve (getArguments (runsEndpoint workflow.id) true) world =
      (answered (onePage "workflow_runs" ((world.runsOf workflow.id).map runItem)), world) := by
  obtain ⟨found, first, same⟩ :=
    find?_same (fun workflow : Workflow => getArguments (runsEndpoint workflow.id) true) member
  have sameId : workflow.id = found.id := runsEndpoint_injective (getArguments_paginated.mp same)
  rw [serve, if_neg (by simp), if_neg (by simp), if_neg (by simp [runsEndpoint_ne]), first, sameId]

theorem serve_disable {workflow : Workflow} (member : workflow ∈ world.workflows) :
    serve (mutateArguments (text "PUT") (disableEndpoint workflow.id)) world =
      (answered .none, world.disable [workflow.id]) := by
  obtain ⟨found, first, same⟩ :=
    find?_same (fun workflow : Workflow => mutateArguments (text "PUT") (disableEndpoint workflow.id)) member
  have sameId : workflow.id = found.id := by
    simp only [mutateArguments, List.cons.injEq, true_and, and_true] at same
    exact disableEndpoint_injective same
  rw [serve, if_neg (by simp), if_neg (by simp), if_neg (by simp), find?_other (by simp), first, sameId]

theorem serve_delete {run : Run} (member : run ∈ world.runs) :
    serve (mutateArguments (text "DELETE") (runEndpoint run.id)) world = (answered .none, world.delete [run.id]) := by
  obtain ⟨found, first, same⟩ :=
    find?_same (fun run : Run => mutateArguments (text "DELETE") (runEndpoint run.id)) member
  have sameId : run.id = found.id := by
    simp only [mutateArguments, List.cons.injEq, true_and, and_true] at same
    exact runEndpoint_injective same
  have noPut : ∀ workflow : Workflow, mutateArguments (text "DELETE") (runEndpoint run.id) ≠
      mutateArguments (text "PUT") (disableEndpoint workflow.id) := by
    intro workflow
    simp [mutateArguments, text]
  rw [serve, if_neg (by simp), if_neg (by simp), if_neg (by simp), find?_other (by simp), find?_other noPut, first,
    sameId]

end

/-! ### Answers are read as they are meant -/

theorem answers_answered {value : Value} (plain : Plain value) : Answers (answered value) value := by
  refine ⟨_, _, rfl, ?_⟩
  rw [loads_encode (ascii_dumps compact 0 plain), ← List.append_nil (dumps compact 0 value)]
  exact loadsText_dumps compact plain rfl

theorem lists_onePage (key : String) (items : List Object) : Lists key (onePage key items) items := by
  have listed : Object.get [(text key, .list (items.map .dict))] key = .list (items.map .dict) := by
    simp [Object.get]
  exact ⟨[⟨_, items, listed⟩], rfl, by simp⟩

theorem plain_onePage {key : String} {items : List Object} (plainKey : PlainText (text key))
    (plain : ∀ item ∈ items, Plain (.dict item)) : Plain (onePage key items) := by
  have values : PlainItems (items.map .dict) := by
    rw [plainItems_iff]
    intro value member
    obtain ⟨item, memberItem, rfl⟩ := List.mem_map.mp member
    exact plain item memberItem
  exact ⟨⟨⟨plainKey, values, trivial⟩, List.nodup_singleton _⟩, trivial⟩

theorem plain_contentItem {path : Text} (plain : PlainText path) : Plain (contentItem path) :=
  ⟨⟨by simp [PlainText, text], plain, trivial⟩, List.nodup_singleton _⟩

theorem plain_workflowItem {workflow : Workflow}
    (plain : ShortId workflow.id ∧ PlainText workflow.path ∧ PlainText workflow.state) :
    Plain (.dict (workflowItem workflow)) := by
  have keys : PlainText (text "id") ∧ PlainText (text "path") ∧ PlainText (text "state") := by
    simp [PlainText, text]
  have distinct : [text "id", text "path", text "state"].Nodup := by decide
  exact ⟨⟨keys.1, plain.1, keys.2.1, plain.2.1, keys.2.2, plain.2.2, trivial⟩, distinct⟩

theorem plain_runItem {run : Run} (plain : ShortId run.id ∧ ShortId run.workflowId ∧ PlainText run.path ∧
    PlainText run.status ∧ PlainText run.event ∧ PlainText run.headSha) : Plain (.dict (runItem run)) := by
  have keys : PlainText (text "id") ∧ PlainText (text "workflow_id") ∧ PlainText (text "path") ∧
      PlainText (text "status") ∧ PlainText (text "event") ∧ PlainText (text "head_sha") := by
    simp [PlainText, text]
  have distinct : [text "id", text "workflow_id", text "path", text "status", text "event", text "head_sha"].Nodup := by
    decide
  obtain ⟨id, workflowId, path, status, event, headSha⟩ := plain
  exact ⟨⟨keys.1, id, keys.2.1, workflowId, keys.2.2.1, path, keys.2.2.2.1, status, keys.2.2.2.2.1, event,
    keys.2.2.2.2.2, headSha, trivial⟩, distinct⟩

theorem plain_repositoryItem {world : World} (plain : PlainWorld world) : Plain (.dict (repositoryItem world)) := by
  have keys : PlainText (text "full_name") ∧ PlainText (text "default_branch") ∧ PlainText repository := by
    simp [PlainText, text, repository]
  have distinct : [text "full_name", text "default_branch"].Nodup := by decide
  exact ⟨⟨keys.1, keys.2.2, keys.2.1, plain.branch, trivial⟩, distinct⟩

/-- No move takes a plain world out of the plain worlds. -/
theorem PlainWorld.moved {world next : World} {exchange : Exchange Answer} (plain : PlainWorld world)
    (moved : Moves world exchange next) : PlainWorld next := by
  cases moved with
  | stays => exact plain
  | disables id _ =>
      refine ⟨plain.branch, plain.contents, ?_, plain.runs⟩
      intro workflow member
      obtain ⟨old, memberOld, rfl⟩ := List.mem_map.mp member
      obtain ⟨short, path, state⟩ := plain.workflows old memberOld
      refine ⟨short, path, ?_⟩
      have plainDisabled : PlainText disabledManually := by
        simp [PlainText, text, disabledManually]
      by_cases now : old.id ∈ [id] <;> simp [Workflow.disabledBy, now, state, plainDisabled]
  | deletes id _ =>
      refine ⟨plain.branch, plain.contents, plain.workflows, ?_⟩
      intro run member
      exact plain.runs run (List.mem_filter.mp member).1
  | stores content _ => exact ⟨plain.branch, plain.contents, plain.workflows, plain.runs⟩

theorem forall₂_map {α : Type} {shows : Object → α → Prop} {item : α → Object} (shown : ∀ a, shows (item a) a)
    (values : List α) : List.Forall₂ shows (values.map item) values := by
  induction values with
  | nil => exact List.Forall₂.nil
  | cons a rest ih => exact List.Forall₂.cons (shown a) ih

/-- The server is cooperative in every plain world. -/
theorem plainServer_cooperative : Cooperative PlainWorld plainServer where
  moved := fun _ _ _ => PlainWorld.moved
  repository := fun world plain =>
    ⟨_, _, serve_repository, answers_answered (plain_repositoryItem plain), rfl, rfl⟩
  contents := by
    intro world plain
    have items : Plain (.list (world.contents.map contentItem)) := by
      rw [Plain, plainItems_iff]
      intro value member
      obtain ⟨path, memberPath, rfl⟩ := List.mem_map.mp member
      exact plain_contentItem (plain.contents path memberPath)
    refine ⟨_, _, serve_contents, answers_answered items, ?_⟩
    intro path
    have named : ∀ other : Text, (contentItem other).get "path" = .str other := fun _ => rfl
    simp [named]
  workflows := by
    intro world plain
    have page : Plain (onePage "workflows" (world.workflows.map workflowItem)) := by
      apply plain_onePage (by simp [PlainText, text])
      intro item member
      obtain ⟨workflow, memberWorkflow, rfl⟩ := List.mem_map.mp member
      exact plain_workflowItem (plain.workflows workflow memberWorkflow)
    exact ⟨_, _, _, serve_workflows, answers_answered page, lists_onePage _ _,
      forall₂_map (fun _ => ⟨rfl, rfl, rfl⟩) _⟩
  runs := by
    intro world plain workflow member
    have page : Plain (onePage "workflow_runs" ((world.runsOf workflow.id).map runItem)) := by
      apply plain_onePage (by simp [PlainText, text])
      intro item memberItem
      obtain ⟨run, memberRun, rfl⟩ := List.mem_map.mp memberItem
      exact plain_runItem (plain.runs run (List.mem_filter.mp memberRun).1)
    exact ⟨_, _, _, serve_runs member, answers_answered page, lists_onePage _ _,
      forall₂_map (fun _ => ⟨rfl, rfl, rfl, rfl, rfl, rfl⟩) _⟩
  disable := fun _ _ _ member => ⟨_, serve_disable member, _, _, rfl⟩
  delete := fun _ _ _ member => ⟨_, serve_delete member, _, _, rfl⟩
  store := fun _ _ _ => rfl

end ExitfyCores.Retirement
