/-
Module: ExitfyCores.Retirement.Retire
Layer: Retirement
Purpose: The apply step of `retire_legacy_workflows.py`: the token, the mutations, the receipt, and how the receipt is
  read again.
Imports: ExitfyCores.Retirement.Api, Mathlib.Data.Finset.Dedup, Mathlib.Data.Finset.Insert
Trusted boundary: human-reviewed spec; `hashlib.sha256(…).hexdigest()` is the parameter `sha256`
Main exports: applyToken, verifyPreMigrationRetired, receiptValue, writeReceipt, retire, Receipt, loadReceipt,
  receiptAfter
Open obligations: none
-/
import ExitfyCores.Retirement.Api
import Mathlib.Data.Finset.Dedup
import Mathlib.Data.Finset.Insert

namespace ExitfyCores.Retirement

open Py

def receiptSchema : Int := 1

def maxReceiptBytes : Nat := 16 * 1024

def disabledManually : Text := text "disabled_manually"

def completed : Text := text "completed"

/-- The ids of the workflows, in order. -/
def Snapshot.ids (snapshot : Snapshot) : List Nat := snapshot.legacy.map fun entry => entry.1.id

/-- The runs of all workflows. -/
def Snapshot.runs (snapshot : Snapshot) : List Run := snapshot.legacy.flatMap Prod.snd

/-- `{run.id for _, runs in snapshot.legacy for run in runs}` -/
def Snapshot.runIds (snapshot : Snapshot) : Finset Nat := (snapshot.runs.map Run.id).toFinset

/-- `sorted(original_runs)` -/
def Snapshot.sortedRunIds (snapshot : Snapshot) : List Nat :=
  (snapshot.runs.map Run.id).dedup.insertionSort (· ≤ ·)

@[simp] theorem Snapshot.mem_sortedRunIds {snapshot : Snapshot} {id : Nat} :
    id ∈ snapshot.sortedRunIds ↔ id ∈ snapshot.runIds := by
  simp [Snapshot.sortedRunIds, Snapshot.runIds]

/-! ### The token -/

/-- One entry under `legacy` of what the token is a digest of. -/
def tokenEntry (entry : Workflow × List Run) : Value :=
  .dict [(text "id", .int entry.1.id), (text "path", .str entry.1.path),
    (text "runIds", .list (entry.2.map fun run => .int run.id))]

/-- What the token is a digest of. -/
def tokenValue (snapshot : Snapshot) : Value :=
  .dict [(text "host", .str githubHost), (text "repository", .str repository),
    (text "defaultBranch", .str snapshot.defaultBranch), (text "legacy", .list (snapshot.legacy.map tokenEntry))]

/-- `json.dumps(value, sort_keys=True, separators=(",", ":")).encode()` -/
def tokenBytes (snapshot : Snapshot) : List UInt8 := encode (dumps compact 0 (sortKeys (tokenValue snapshot)))

/-- `apply_token(snapshot)` -/
def applyToken (sha256 : List UInt8 → Text) (snapshot : Snapshot) : Text :=
  text "RETIRE-LEGACY-EXITFY-WORKFLOWS:" ++ sha256 (tokenBytes snapshot)

/-! ### The receipt -/

/-- What `verify_pre_migration_retired` finds wrong with one workflow. -/
def retirementFailures (entry : Workflow × List Run) : List Text :=
  (if entry.1.state ≠ disabledManually then [text "legacy workflow is not disabled: " ++ entry.1.path] else []) ++
    if entry.2 ≠ [] then
      [text "legacy workflow still has " ++ decimal entry.2.length ++ text " runs: " ++ entry.1.path]
    else []

/-- `verify_pre_migration_retired(snapshot)` -/
def verifyPreMigrationRetired (snapshot : Snapshot) : Except Failure Unit :=
  let failures := snapshot.legacy.flatMap retirementFailures
  throwIf (failures ≠ []) (.retirement ((text "; ").intercalate failures))

/-- `_receipt_value(snapshot)` -/
def receiptValue (snapshot : Snapshot) : Value :=
  .dict [(text "schema", .int receiptSchema), (text "host", .str githubHost), (text "repository", .str repository),
    (text "defaultBranch", .str snapshot.defaultBranch),
    (text "legacy", .list (snapshot.legacy.map fun entry =>
      .dict [(text "id", .int entry.1.id), (text "path", .str entry.1.path)])),
    (text "verifiedState", .str disabledManually), (text "verifiedRunCount", .int 0)]

/-- The bytes that `_write_receipt` writes. -/
def receiptBytes (snapshot : Snapshot) : List UInt8 :=
  encode (dumps indented 0 (sortKeys (receiptValue snapshot)) ++ text "\n")

/-- `_write_receipt(snapshot, path)` -/
def writeReceipt (snapshot : Snapshot) : Api Unit :=
  .ask (.replace (receiptBytes snapshot)) fun
    | .replaced => .done ()
    | .failed _ failure => .raise failure

/-- The receipt behind what a program exchanged. -/
def receiptAfter (receipt : Option (List UInt8)) (log : List (Exchange Answer)) : Option (List UInt8) :=
  log.foldl (fun receipt exchange =>
    match exchange with
    | ⟨.replace content, .replaced⟩ => some content
    | ⟨.replace content, .failed true _⟩ => some content
    | _ => receipt) receipt

/-! ### The apply step -/

/-- `retire(api, snapshot, confirmation, receipt_path)` -/
def retire (sha256 : List UInt8 → Text) (snapshot : Snapshot) (confirmation : Text) : Api Unit := do
  .throwIf (confirmation ≠ applyToken sha256 snapshot)
    (.retirement (text "apply token does not match the current exact snapshot"))
  let active := snapshot.runs.filter fun run => run.status ≠ completed
  .throwIf (active ≠ []) (.retirement
    (text "legacy workflows have active runs; cancel them and generate a new plan: " ++
      (text ",").intercalate (active.map fun run => decimal run.id)))
  snapshot.ids.forM fun id => mutate (text "PUT") (disableEndpoint id)
  let disabled ← collectPreMigrationSnapshot
  .throwIf (disabled.defaultBranch ≠ snapshot.defaultBranch)
    (.retirement (text "default branch changed after workflow disable"))
  .throwIf (disabled.ids ≠ snapshot.ids)
    (.retirement (text "legacy workflow identities changed after disable"))
  .throwIf (disabled.legacy.any fun entry => entry.1.state ≠ disabledManually)
    (.retirement (text "legacy workflow disable did not become authoritative"))
  .throwIf (disabled.runIds ≠ snapshot.runIds)
    (.retirement (text "legacy run set changed after disable; generate a new plan"))
  .throwIf (disabled.runs.any fun run => run.status ≠ completed)
    (.retirement (text "a legacy run is still active after disable"))
  snapshot.sortedRunIds.forM fun id => mutate (text "DELETE") (runEndpoint id)
  let retired ← collectPreMigrationSnapshot
  .throwIf (retired.defaultBranch ≠ snapshot.defaultBranch)
    (.retirement (text "default branch changed during run deletion"))
  .throwIf (retired.ids ≠ snapshot.ids)
    (.retirement (text "legacy workflow identities changed after run deletion"))
  .ofExcept (verifyPreMigrationRetired retired)
  writeReceipt retired

/-! ### Reading the receipt -/

structure Receipt where
  host : Text
  defaultBranch : Text
  legacy : List Workflow
deriving DecidableEq, Repr

/-- The keys of a dictionary as a set. -/
def keySet (entries : Object) : Finset Text := (entries.map Prod.fst).toFinset

/-- One entry under `legacy` of the receipt. -/
def receiptEntry (expectedPath : Text) (entry : Value) : Except Failure Workflow :=
  match entry with
  | .dict entries => do
      throwIf (keySet entries ≠ {text "id", text "path"})
        (.retirement (text "retirement receipt legacy entry is malformed"))
      throwIf ((Object.get entries "path").isText expectedPath = false)
        (.retirement (text "retirement receipt legacy path is invalid"))
      let id ← positiveInteger (Object.get entries "id") (text "retirement receipt workflow id")
      return ⟨id, expectedPath, disabledManually⟩
  | _ => .error (.retirement (text "retirement receipt legacy entry is malformed"))

def receiptKeys : Finset Text :=
  {text "schema", text "host", text "repository", text "defaultBranch", text "legacy", text "verifiedState",
    text "verifiedRunCount"}

/-- What `load_receipt` makes of the parsed value. -/
def receiptOf (value : Value) : Except Failure Receipt :=
  match value with
  | .dict entries => do
      throwIf (keySet entries ≠ receiptKeys)
        (.retirement (text "retirement receipt fields do not match the contract"))
      throwIf ((Object.get entries "schema").isInt receiptSchema = false ∨
          (Object.get entries "host").isText githubHost = false ∨
          (Object.get entries "repository").isText repository = false ∨
          (Object.get entries "verifiedState").isText disabledManually = false ∨
          (Object.get entries "verifiedRunCount").isInt 0 = false)
        (.retirement (text "retirement receipt proof is invalid"))
      match Object.get entries "defaultBranch", Object.get entries "legacy" with
      | .str branch, .list items => do
          throwIf (isBranchName branch = false ∨ items.length ≠ legacyPaths.length)
            (.retirement (text "retirement receipt identity is invalid"))
          let legacy ← (legacyPaths.zip items).mapM fun pair => receiptEntry pair.1 pair.2
          throwIf (¬ (legacy.map Workflow.id).Nodup)
            (.retirement (text "retirement receipt workflow ids are duplicated"))
          return ⟨githubHost, branch, legacy⟩
      | _, _ => .error (.retirement (text "retirement receipt identity is invalid"))
  | _ => .error (.retirement (text "retirement receipt fields do not match the contract"))

/-- `load_receipt(path)`, on what opening and reading the file gives. -/
def loadReceipt (file : Except Text (List UInt8)) : Except Failure Receipt :=
  match file with
  | .error error => .error (.retirement (text "retirement receipt cannot be read: " ++ error))
  | .ok content => do
      let raw := content.take (maxReceiptBytes + 1)
      throwIf (maxReceiptBytes < raw.length) (.retirement (text "retirement receipt exceeds the safety limit"))
      match loads raw with
      | .ok value => receiptOf value
      | .error (.digits message) => .error (.uncaught message)
      | .error _ => .error (.retirement (text "retirement receipt is invalid JSON"))

end ExitfyCores.Retirement
