/-
Module: ExitfyCores.Lifecycle.Xray
Layer: Lifecycle
Purpose: `Start`, `Stop` and `invoke` of `internal/bridge/bridge.go` as functions of the process-global
  lifecycle record and of whatever libXray answers. The mutex serializes the calls, so a run is a list of them.
Imports: ExitfyCores.Bridge.SafeError, ExitfyCores.Lib.GoError, ExitfyCores.Lib.History
Trusted boundary: human-reviewed spec; `encoding/json` is the parameter `Json`, about which nothing is assumed
Main exports: Lifecycle, Json, start, stop, isRunning, World, Call, step
Open obligations: none
-/
import ExitfyCores.Bridge.SafeError
import ExitfyCores.Lib.GoError
import ExitfyCores.Lib.History

namespace ExitfyCores.Xray

/-- `maxConfigBytes` -/
def maxConfigBytes : Nat := 16 <<< 20

/-- The `lifecycle` record. -/
structure Lifecycle where
  running : Bool
  stopRequired : Bool
deriving Repr, DecidableEq

/-- The two methods the adapter requests. -/
inductive Method where
  | runXrayFromJson
  | stopXray
deriving Repr, DecidableEq

/-- `invokeRequest` -/
structure InvokeRequest where
  apiVersion : Nat
  method : Method
  payload : Option Bytes
deriving Repr, DecidableEq

/-- `invokeResponse` -/
structure InvokeResponse where
  success : Bool
  error : Bytes
deriving Repr, DecidableEq

/-- What the adapter uses of `encoding/json`: a configuration decodes to its members or to a nil map. -/
structure Json where
  unmarshalConfig : Bytes → Except GoError (Option (List (Bytes × Bytes)))
  marshalPayload : Bytes → Except GoError Bytes
  marshalRequest : InvokeRequest → Except GoError Bytes
  unmarshalResponse : Bytes → Except GoError InvokeResponse

/-- `libxray.Invoke` as it behaves in one call. -/
abbrev LibXray := Bytes → Callback Bytes

/-- A request that reached libXray, with its answer. -/
structure Exchange where
  request : InvokeRequest
  answer : Callback Bytes
deriving Repr, DecidableEq

/-- What a call leaves behind: the record, the requests it sent and the error it returns. -/
structure Outcome where
  lifecycle : Lifecycle
  sent : List Exchange
  err : Option GoError

/-- `recoveredError` -/
def recoveredError (pre : String) (recovered : Bytes) : GoError :=
  .leaf (Bridge.Xray.safeError (lit pre ++ lit ": " ++ recovered))

/-- What `invoke` makes of the text that libXray returned. -/
def invokeResult (json : Json) (raw : Bytes) : Option GoError :=
  match json.unmarshalResponse raw with
  | .error err => some (errorf "invalid libXray response: " err)
  | .ok response =>
      if response.success then none
      else if response.error = [] then
        some (.leaf (Bridge.Xray.safeError (lit "libXray rejected the request")))
      else some (.leaf (Bridge.Xray.safeError response.error))

/-- `invoke`: a panic of libXray passes through it. -/
def invoke (json : Json) (answer : Callback Bytes) : Callback (Option GoError) :=
  match answer with
  | .returned raw => .returned (invokeResult json raw)
  | .panicked recovered => .panicked recovered

/-- A call that returns an error before it reaches libXray. -/
def refuse (lifecycle : Lifecycle) (err : GoError) : Outcome :=
  { lifecycle := lifecycle, sent := [], err := some err }

/-- The last steps of `Start`: the run request, sent with the stop already required. -/
def startRequest (json : Json) (libXray : LibXray) (request : InvokeRequest) (encoded : Bytes)
    (lifecycle : Lifecycle) : Outcome :=
  let lifecycle := { lifecycle with stopRequired := true }
  let sent := [{ request := request, answer := libXray encoded }]
  match invoke json (libXray encoded) with
  | .panicked recovered =>
      { lifecycle := lifecycle, sent := sent, err := some (recoveredError "Xray start panic" recovered) }
  | .returned (some err) => { lifecycle := lifecycle, sent := sent, err := some err }
  | .returned none => { lifecycle := { lifecycle with running := true }, sent := sent, err := none }

/-- `Start` behind the checks on the text and on the record. -/
def startValidated (json : Json) (libXray : LibXray) (configJSON : Bytes) (lifecycle : Lifecycle) :
    Outcome :=
  match json.unmarshalConfig configJSON with
  | .error err => refuse lifecycle (errorf "invalid Xray configuration: " err)
  | .ok none => refuse lifecycle (.new "invalid Xray configuration: root must be an object")
  | .ok (some _) =>
      match json.marshalPayload configJSON with
      | .error err => refuse lifecycle (errorf "encode Xray request: " err)
      | .ok payload =>
          let request := { apiVersion := 1, method := .runXrayFromJson, payload := some payload }
          match json.marshalRequest request with
          | .error err => refuse lifecycle (errorf "encode Xray request: " err)
          | .ok encoded => startRequest json libXray request encoded lifecycle

/-- `Start` -/
def start (json : Json) (libXray : LibXray) (configJSON : Bytes) (lifecycle : Lifecycle) : Outcome :=
  let configJSON := trimSpace configJSON
  if configJSON = [] then refuse lifecycle (.new "empty Xray configuration")
  else if maxConfigBytes < configJSON.length then
    refuse lifecycle (.new s!"Xray configuration exceeds {maxConfigBytes} bytes")
  else if lifecycle.running || lifecycle.stopRequired then
    refuse lifecycle (.new "Xray is already running or requires StopCore")
  else startValidated json libXray configJSON lifecycle

/-- `Stop` behind its first check. -/
def stopRequest (json : Json) (libXray : LibXray) (lifecycle : Lifecycle) : Outcome :=
  let lifecycle := { lifecycle with stopRequired := true }
  let request := { apiVersion := 1, method := .stopXray, payload := none }
  match json.marshalRequest request with
  | .error err => refuse lifecycle (errorf "encode Xray stop request: " err)
  | .ok encoded =>
      let sent := [{ request := request, answer := libXray encoded }]
      match invoke json (libXray encoded) with
      | .panicked recovered =>
          { lifecycle := lifecycle, sent := sent, err := some (recoveredError "Xray stop panic" recovered) }
      | .returned (some err) => { lifecycle := lifecycle, sent := sent, err := some err }
      | .returned none =>
          { lifecycle := { running := false, stopRequired := false }, sent := sent, err := none }

/-- `Stop` -/
def stop (json : Json) (libXray : LibXray) (lifecycle : Lifecycle) : Outcome :=
  if !lifecycle.running && !lifecycle.stopRequired then
    { lifecycle := lifecycle, sent := [], err := none }
  else stopRequest json libXray lifecycle

/-- `IsRunning` -/
def isRunning (lifecycle : Lifecycle) : Bool := lifecycle.running

/-! ### Runs -/

/-- The record together with everything libXray was asked so far. -/
structure World where
  lifecycle : Lifecycle
  history : List Exchange

/-- The process before its first call. -/
def World.initial : World :=
  { lifecycle := { running := false, stopRequired := false }, history := [] }

/-- One call of a run, with the behaviour of libXray during it. -/
inductive Call where
  | start (libXray : LibXray) (configJSON : Bytes)
  | stop (libXray : LibXray)

/-- What the call does to a record. -/
def Call.outcome (json : Json) (lifecycle : Lifecycle) : Call → Outcome
  | .start libXray configJSON => Xray.start json libXray configJSON lifecycle
  | .stop libXray => Xray.stop json libXray lifecycle

/-- One call of a run. -/
def step (json : Json) (world : World) (call : Call) : World :=
  let outcome := call.outcome json world.lifecycle
  { lifecycle := outcome.lifecycle, history := world.history ++ outcome.sent }

/-- The record and the history behind a run of calls. -/
def runCalls (json : Json) (calls : List Call) : World := History.run (step json) World.initial calls

end ExitfyCores.Xray
