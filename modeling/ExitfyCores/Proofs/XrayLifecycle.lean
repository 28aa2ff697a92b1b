/-
Module: ExitfyCores.Proofs.XrayLifecycle
Layer: Proofs
Purpose: The two booleans of the Xray adapter against everything libXray was asked: a run request counts as
  running until a stop request is confirmed, whatever happened to its answer.
Imports: ExitfyCores.Lifecycle.Xray
Trusted boundary: none
Main exports: Confirmed, Outstanding, Invariant, step_invariant, runCalls_invariant, singleOwnership
Open obligations: none
-/
import ExitfyCores.Lifecycle.Xray

namespace ExitfyCores.Xray

open History

/-- libXray answered, and the answer decodes to a reported success. -/
def Confirmed (json : Json) (exchange : Exchange) : Prop :=
  ∃ raw response, exchange.answer = .returned raw ∧
    json.unmarshalResponse raw = .ok response ∧ response.success = true

/-- A `runXrayFromJson` request. -/
def Exchange.IsRun (exchange : Exchange) : Prop := exchange.request.method = .runXrayFromJson

/-- A `stopXray` request that libXray confirmed. -/
def ConfirmedStop (json : Json) (exchange : Exchange) : Prop :=
  exchange.request.method = .stopXray ∧ Confirmed json exchange

/-- Some run request has no later confirmed stop: Xray may be running. -/
def Outstanding (json : Json) (history : List Exchange) : Prop :=
  Since Exchange.IsRun (ConfirmedStop json) history

/-- The configurations that `Start` hands to libXray. -/
def ValidConfiguration (json : Json) (configJSON : Bytes) : Prop :=
  trimSpace configJSON ≠ [] ∧ (trimSpace configJSON).length ≤ maxConfigBytes ∧
    ∃ members, json.unmarshalConfig (trimSpace configJSON) = .ok (some members)

/-- No stop is owed. -/
def Lifecycle.Idle (lifecycle : Lifecycle) : Prop :=
  lifecycle.running = false ∧ lifecycle.stopRequired = false

/-! ### What one call does -/

/-- `invoke` returns nil for a confirmed answer only. -/
theorem invoke_eq_nil_iff {json : Json} {exchange : Exchange} :
    invoke json exchange.answer = .returned none ↔ Confirmed json exchange := by
  constructor
  · intro nilError
    cases answer : exchange.answer with
    | panicked recovered =>
        rw [answer] at nilError
        cases nilError
    | returned raw =>
        rw [answer] at nilError
        have result : invokeResult json raw = none := Callback.returned.inj nilError
        unfold invokeResult at result
        split at result
        · cases result
        · next response decoded =>
            refine ⟨raw, response, answer, decoded, ?_⟩
            by_contra rejected
            rw [if_neg rejected] at result
            split at result <;> cases result
  · intro confirmed
    rcases confirmed with ⟨raw, response, answer, decoded, success⟩
    simp [invoke, invokeResult, answer, decoded, success]

/-- Everything the run request can do: it leaves a stop required, and only a confirmed answer leaves Xray
running and returns nil. -/
theorem startRequest_cases (json : Json) (libXray : LibXray) (request : InvokeRequest) (encoded : Bytes)
    (lifecycle : Lifecycle) :
    let exchange : Exchange := { request := request, answer := libXray encoded }
    let outcome := startRequest json libXray request encoded lifecycle
    outcome.sent = [exchange] ∧
      ((Confirmed json exchange ∧ outcome.err = none ∧
          outcome.lifecycle = { running := true, stopRequired := true }) ∨
        (¬ Confirmed json exchange ∧ outcome.err ≠ none ∧
          outcome.lifecycle = { lifecycle with stopRequired := true })) := by
  intro exchange
  have nilError := @invoke_eq_nil_iff json exchange
  unfold startRequest
  cases answer : invoke json (libXray encoded) with
  | panicked recovered => simp_all [exchange]
  | returned err => cases err <;> simp_all [exchange]

/-- Everything `Start` can do: it refuses and touches nothing, or it was idle, its configuration is valid
and it sends one run request. -/
theorem start_cases (json : Json) (libXray : LibXray) (configJSON : Bytes) (lifecycle : Lifecycle) :
    let outcome := start json libXray configJSON lifecycle
    (∃ err, outcome = refuse lifecycle err) ∨
      (lifecycle.Idle ∧ ValidConfiguration json configJSON ∧ ∃ exchange : Exchange,
        exchange.IsRun ∧ outcome.sent = [exchange] ∧
          ((Confirmed json exchange ∧ outcome.err = none ∧
              outcome.lifecycle = { running := true, stopRequired := true }) ∨
            (¬ Confirmed json exchange ∧ outcome.err ≠ none ∧
              outcome.lifecycle = { lifecycle with stopRequired := true }))) := by
  unfold start
  by_cases empty : trimSpace configJSON = []
  · exact Or.inl ⟨_, if_pos empty⟩
  by_cases large : maxConfigBytes < (trimSpace configJSON).length
  · exact Or.inl ⟨_, by simp only [if_neg empty, if_pos large]; rfl⟩
  by_cases owed : (lifecycle.running || lifecycle.stopRequired) = true
  · exact Or.inl ⟨_, by simp only [if_neg empty, if_neg large, if_pos owed]; rfl⟩
  have idle : lifecycle.Idle := by
    simpa [Lifecycle.Idle] using owed
  simp only [if_neg empty, if_neg large, if_neg owed]
  unfold startValidated
  cases config : json.unmarshalConfig (trimSpace configJSON) with
  | error err => exact Or.inl ⟨_, rfl⟩
  | ok decoded =>
      cases decoded with
      | none => exact Or.inl ⟨_, rfl⟩
      | some members =>
          have valid : ValidConfiguration json configJSON :=
            ⟨empty, Nat.le_of_not_lt large, members, config⟩
          cases json.marshalPayload (trimSpace configJSON) with
          | error err => exact Or.inl ⟨_, rfl⟩
          | ok payload =>
              dsimp only
              split
              · exact Or.inl ⟨_, rfl⟩
              · next encoded _ =>
                  let request : InvokeRequest :=
                    { apiVersion := 1, method := .runXrayFromJson, payload := some payload }
                  have sending := startRequest_cases json libXray request encoded lifecycle
                  have isRun : Exchange.IsRun { request := request, answer := libXray encoded } := rfl
                  exact Or.inr ⟨idle, valid, _, isRun, sending.1, sending.2⟩

/-- Everything `Stop` can do: nothing where nothing is owed; otherwise the stop stays owed unless its
request was confirmed. -/
theorem stop_cases (json : Json) (libXray : LibXray) (lifecycle : Lifecycle) :
    let outcome := stop json libXray lifecycle
    (lifecycle.Idle ∧ outcome = { lifecycle := lifecycle, sent := [], err := none }) ∨
      (¬ lifecycle.Idle ∧ outcome.sent = [] ∧ outcome.err ≠ none ∧
        outcome.lifecycle = { lifecycle with stopRequired := true }) ∨
      (¬ lifecycle.Idle ∧ ∃ exchange : Exchange,
        exchange.request.method = .stopXray ∧ outcome.sent = [exchange] ∧
          ((Confirmed json exchange ∧ outcome.err = none ∧
              outcome.lifecycle = { running := false, stopRequired := false }) ∨
            (¬ Confirmed json exchange ∧ outcome.err ≠ none ∧
              outcome.lifecycle = { lifecycle with stopRequired := true }))) := by
  unfold stop
  by_cases idle : (!lifecycle.running && !lifecycle.stopRequired) = true
  · refine Or.inl ⟨?_, if_pos idle⟩
    simpa [Lifecycle.Idle] using idle
  have owed : ¬ lifecycle.Idle := by
    simpa [Lifecycle.Idle] using idle
  simp only [if_neg idle]
  unfold stopRequest
  dsimp only
  split
  · exact Or.inr (Or.inl ⟨owed, rfl, by simp [refuse], rfl⟩)
  · next encoded _ =>
      let exchange : Exchange :=
        { request := { apiVersion := 1, method := .stopXray, payload := none }, answer := libXray encoded }
      have nilError := @invoke_eq_nil_iff json exchange
      refine Or.inr (Or.inr ⟨owed, exchange, rfl, ?_⟩)
      cases answer : invoke json (libXray encoded) with
      | panicked recovered => simp_all [exchange]
      | returned err => cases err <;> simp_all [exchange]

/-! ### The invariant -/

/-- A stop is required exactly while a run request may have left Xray running, and no run request was ever
sent in that time. -/
structure Invariant (json : Json) (world : World) : Prop where
  stopRequired : world.lifecycle.stopRequired = true ↔ Outstanding json world.history
  running : world.lifecycle.running = true → world.lifecycle.stopRequired = true
  guarded : History.Guarded (fun past exchange => exchange.IsRun → ¬ Outstanding json past) world.history

theorem Invariant.initial (json : Json) : Invariant json World.initial where
  stopRequired := by simp [World.initial, Outstanding]
  running := by simp [World.initial]
  guarded := guarded_nil

/-- Being idle is reading that nothing is outstanding. -/
theorem Invariant.idle_iff {json : Json} {world : World} (invariant : Invariant json world) :
    world.lifecycle.Idle ↔ ¬ Outstanding json world.history := by
  rw [← invariant.stopRequired]
  have running := invariant.running
  unfold Lifecycle.Idle
  cases stopOwed : world.lifecycle.stopRequired <;> simp_all

/-- A request of the current call, put at the end of the history. -/
theorem Invariant.extend {json : Json} {world : World} (invariant : Invariant json world)
    {lifecycle : Lifecycle} {exchange : Exchange}
    (required : lifecycle.stopRequired = true ↔ Outstanding json (world.history ++ [exchange]))
    (running : lifecycle.running = true → lifecycle.stopRequired = true)
    (allowed : exchange.IsRun → ¬ Outstanding json world.history) :
    Invariant json { lifecycle := lifecycle, history := world.history ++ [exchange] } where
  stopRequired := required
  running := running
  guarded := (guarded_append _ _).mpr ⟨invariant.guarded, allowed⟩

/-- A call that sends nothing and keeps what is owed. -/
theorem Invariant.keep {json : Json} {world : World} (invariant : Invariant json world)
    {lifecycle : Lifecycle} (required : lifecycle.stopRequired = world.lifecycle.stopRequired)
    (running : lifecycle.running = true → lifecycle.stopRequired = true) :
    Invariant json { lifecycle := lifecycle, history := world.history ++ [] } where
  stopRequired := by rw [List.append_nil, required]; exact invariant.stopRequired
  running := running
  guarded := by rw [List.append_nil]; exact invariant.guarded

theorem start_invariant {json : Json} {world : World} (invariant : Invariant json world)
    (libXray : LibXray) (configJSON : Bytes) :
    Invariant json (step json world (.start libXray configJSON)) := by
  simp only [step, Call.outcome]
  rcases start_cases json libXray configJSON world.lifecycle with
    ⟨err, refused⟩ | ⟨idle, _, exchange, isRun, sent, answered⟩
  · rw [refused]
    exact invariant.keep rfl invariant.running
  · rw [sent]
    have allowed := invariant.idle_iff.mp idle
    have outstanding : Outstanding json (world.history ++ [exchange]) :=
      (since_append _ _).mpr (Or.inl isRun)
    rcases answered with ⟨_, _, running⟩ | ⟨_, _, owed⟩
    · rw [running]
      exact invariant.extend (by simp [outstanding]) (by simp) (fun _ => allowed)
    · rw [owed]
      exact invariant.extend (by simp [outstanding]) (by simp) (fun _ => allowed)

theorem stop_invariant {json : Json} {world : World} (invariant : Invariant json world)
    (libXray : LibXray) : Invariant json (step json world (.stop libXray)) := by
  simp only [step, Call.outcome]
  have owedOf : ¬ world.lifecycle.Idle → world.lifecycle.stopRequired = true := by
    intro busy
    rw [invariant.idle_iff, not_not] at busy
    exact invariant.stopRequired.mpr busy
  rcases stop_cases json libXray world.lifecycle with
    ⟨_, done⟩ | ⟨busy, sent, _, owed⟩ | ⟨busy, exchange, isStop, sent, answered⟩
  · rw [done]
    exact invariant.keep rfl invariant.running
  · rw [sent, owed]
    exact invariant.keep (owedOf busy).symm (fun _ => rfl)
  · have notRun : ¬ exchange.IsRun := by simp [Exchange.IsRun, isStop]
    rw [sent]
    rcases answered with ⟨confirmed, _, stopped⟩ | ⟨unconfirmed, _, owed⟩
    · rw [stopped]
      refine invariant.extend ?_ (by simp) (fun isRun => absurd isRun notRun)
      simp [Outstanding, notRun, ConfirmedStop, isStop, confirmed]
    · rw [owed]
      refine invariant.extend ?_ (fun _ => rfl) (fun isRun => absurd isRun notRun)
      have outstanding := invariant.stopRequired.mp (owedOf busy)
      simpa [Outstanding, notRun, ConfirmedStop, unconfirmed] using outstanding

theorem step_invariant {json : Json} (world : World) (call : Call) (invariant : Invariant json world) :
    Invariant json (step json world call) := by
  cases call with
  | start libXray configJSON => exact start_invariant invariant libXray configJSON
  | stop libXray => exact stop_invariant invariant libXray

theorem runCalls_invariant (json : Json) (calls : List Call) : Invariant json (runCalls json calls) :=
  run_invariant (Invariant.initial json) step_invariant calls

/-! ### What the invariant gives -/

/-- A `Start` that is refused sends nothing and changes nothing. -/
theorem start_refused {json : Json} {lifecycle : Lifecycle} {configJSON : Bytes} (libXray : LibXray)
    (reason : lifecycle.stopRequired = true ∨ ¬ ValidConfiguration json configJSON) :
    let outcome := start json libXray configJSON lifecycle
    outcome.err ≠ none ∧ outcome.sent = [] ∧ outcome.lifecycle = lifecycle := by
  rcases start_cases json libXray configJSON lifecycle with
    ⟨err, refused⟩ | ⟨idle, valid, _⟩
  · rw [refused]
    exact ⟨Option.some_ne_none err, rfl, rfl⟩
  · cases reason with
    | inl owed => exact absurd (idle.2.symm.trans owed) Bool.false_ne_true
    | inr invalid => exact absurd valid invalid

/-- `Start` returns nil for a confirmed run request only. -/
theorem start_eq_nil_iff (json : Json) (libXray : LibXray) (configJSON : Bytes) (lifecycle : Lifecycle) :
    let outcome := start json libXray configJSON lifecycle
    outcome.err = none ↔
      ∃ exchange, outcome.sent = [exchange] ∧ exchange.IsRun ∧ Confirmed json exchange := by
  rcases start_cases json libXray configJSON lifecycle with
    ⟨err, refused⟩ | ⟨_, _, exchange, isRun, sent, answered⟩
  · simp [refused, refuse]
  · rcases answered with ⟨confirmed, nilError, _⟩ | ⟨unconfirmed, error, _⟩
    · simp [sent, nilError, isRun, confirmed]
    · simp [sent, error, unconfirmed]

/-- `Stop` returns nil exactly when nothing is outstanding behind it. -/
theorem stop_eq_nil_iff {json : Json} {world : World} (invariant : Invariant json world)
    (libXray : LibXray) :
    let outcome := stop json libXray world.lifecycle
    outcome.err = none ↔ ¬ Outstanding json (world.history ++ outcome.sent) := by
  rcases stop_cases json libXray world.lifecycle with
    ⟨idle, done⟩ | ⟨busy, sent, error, _⟩ | ⟨busy, exchange, isStop, sent, answered⟩
  · simpa [done] using invariant.idle_iff.mp idle
  · rw [invariant.idle_iff, not_not] at busy
    simp [sent, error, busy]
  · rw [invariant.idle_iff, not_not] at busy
    have notRun : ¬ exchange.IsRun := by simp [Exchange.IsRun, isStop]
    rcases answered with ⟨confirmed, nilError, _⟩ | ⟨unconfirmed, error, _⟩
    · simp [sent, nilError, Outstanding, notRun, ConfirmedStop, isStop, confirmed]
    · have kept : Outstanding json (world.history ++ [exchange]) := by
        simpa [Outstanding, notRun, ConfirmedStop, unconfirmed] using busy
      simp [sent, error, kept]

/-- Single ownership over every run of `Start` and `Stop` and every behaviour of libXray: a confirmed stop
lies between any two run requests; a refused `Start` leaves no trace; `Start` and `Stop` return nil exactly
where the request is confirmed and where nothing is owed; running implies that a stop is required. -/
theorem singleOwnership (json : Json) (calls : List Call) :
    let world := runCalls json calls
    (∀ before first middle second after,
      world.history = before ++ first :: (middle ++ second :: after) →
        first.IsRun → second.IsRun → ∃ exchange ∈ middle, ConfirmedStop json exchange) ∧
    (∀ libXray configJSON,
      world.lifecycle.stopRequired = true ∨ ¬ ValidConfiguration json configJSON →
        let outcome := start json libXray configJSON world.lifecycle
        outcome.err ≠ none ∧ outcome.sent = [] ∧ outcome.lifecycle = world.lifecycle) ∧
    (∀ libXray configJSON,
      let outcome := start json libXray configJSON world.lifecycle
      outcome.err = none ↔
        ∃ exchange, outcome.sent = [exchange] ∧ exchange.IsRun ∧ Confirmed json exchange) ∧
    (∀ libXray,
      let outcome := stop json libXray world.lifecycle
      outcome.err = none ↔ ¬ Outstanding json (world.history ++ outcome.sent)) ∧
    (world.lifecycle.running = true → world.lifecycle.stopRequired = true) := by
  intro world
  have invariant : Invariant json world := runCalls_invariant json calls
  refine ⟨?_, ?_, ?_, ?_, invariant.running⟩
  · intro before first middle second after split firstRun secondRun
    exact invariant.guarded.separated split firstRun secondRun
  · intro libXray configJSON reason
    exact start_refused libXray reason
  · intro libXray configJSON
    exact start_eq_nil_iff json libXray configJSON world.lifecycle
  · intro libXray
    exact stop_eq_nil_iff invariant libXray

end ExitfyCores.Xray
