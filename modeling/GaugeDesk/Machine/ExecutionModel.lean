import Mathlib.Data.Finset.Basic
import GaugeDesk.Core.Lifecycle

/-!
# Managed machines: the reducer of `managed_machine_execution.rs`

The Home's execution of one command on a managed machine, translated from the
source: an immutable request, a spend reservation for workspaces, workers under
increasing epochs, usage, and one settlement.  A `BTreeSet` of capabilities is a
`Finset`; epochs and counters are `u64` and saturate.
-/

namespace GaugeDesk.Machine

inductive ExecutionProfile where
  | durableWorkflow | isolatedWorkspace | dedicatedCompute
deriving DecidableEq, Repr

inductive ExecutionCapability where
  | chat | schedule | httpEffect | document | workspace | process | build | test | docker
  | customNetwork | customKernel | standingDaemon
deriving DecidableEq, Repr

def profileCapabilities : ExecutionProfile → Finset ExecutionCapability
  | .durableWorkflow => {.chat, .schedule, .httpEffect, .document}
  | .isolatedWorkspace => {.workspace, .process, .build, .test}
  | .dedicatedCompute => {.docker, .customNetwork, .customKernel, .standingDaemon}

structure ExecutionResourceBounds where
  maxVcpus : Nat
  maxMemoryMib : Nat
  maxDiskMib : Nat
  maxWallSeconds : Nat
  maxProcesses : Nat
  maxOutputBytes : Nat
deriving DecidableEq, Repr

def ExecutionResourceBounds.valid (bounds : ExecutionResourceBounds) : Bool :=
  decide (0 < bounds.maxVcpus) && decide (0 < bounds.maxMemoryMib) && decide (0 < bounds.maxDiskMib) &&
    decide (0 < bounds.maxWallSeconds) && decide (0 < bounds.maxProcesses) &&
    decide (0 < bounds.maxOutputBytes)

structure ExecutionRequest where
  homeId : String
  tenantId : String
  projectId : String
  workTargetBasis : String
  commandId : String
  payloadDigest : String
  profile : ExecutionProfile
  requiredCapabilities : Finset ExecutionCapability
  credentialClass : String
  bounds : ExecutionResourceBounds
deriving DecidableEq

def ExecutionRequest.valid (request : ExecutionRequest) : Bool :=
  [request.homeId, request.tenantId, request.projectId, request.workTargetBasis, request.commandId,
    request.payloadDigest, request.credentialClass].all validIdentity &&
    decide (request.requiredCapabilities ≠ ∅) && request.bounds.valid

structure WorkspaceAuthorization where
  reservationId : String
  reservedNanosUsd : Nat
deriving DecidableEq, Repr

def WorkspaceAuthorization.valid (authorization : WorkspaceAuthorization) : Bool :=
  validIdentity authorization.reservationId && decide (0 < authorization.reservedNanosUsd)

/-- The charge is above the reservation. -/
def WorkspaceAuthorization.exceededBy (authorization : WorkspaceAuthorization) (charge : Nat) : Bool :=
  decide (authorization.reservedNanosUsd < charge)

structure WorkerGrant where
  profile : ExecutionProfile
  capabilities : Finset ExecutionCapability
  credentialClass : String
  egressBounded : Bool
  epoch : Nat
deriving DecidableEq

structure ExecutionUsage where
  usageId : String
  billableNanosUsd : Nat
  cpuMillis : Nat
  memoryMibSeconds : Nat
  wallMillis : Nat
deriving DecidableEq, Repr

def ExecutionUsage.valid (usage : ExecutionUsage) : Bool :=
  validIdentity usage.usageId && decide (0 < usage.wallMillis)

structure ExecutionSettlement where
  settlementId : String
  chargedNanosUsd : Nat
deriving DecidableEq, Repr

def ExecutionSettlement.valid (settlement : ExecutionSettlement) : Bool :=
  validIdentity settlement.settlementId

inductive ExecutionPhase where
  | init | prepared | acknowledged | running | retryable | completed | failed | canceled | suspended
deriving DecidableEq, Repr

def ExecutionPhase.terminal : ExecutionPhase → Bool
  | .completed | .failed | .canceled => true
  | _ => false

structure ManagedExecutionState where
  phase : ExecutionPhase := .init
  request : Option ExecutionRequest := none
  workspaceAuthorization : Option WorkspaceAuthorization := none
  acknowledged : Bool := false
  selectedProfile : Option ExecutionProfile := none
  grantedCapabilities : Finset ExecutionCapability := ∅
  activeEpoch : Option Nat := none
  lastEpoch : Nat := 0
  observationCount : Nat := 0
  lastEvidenceRef : Option String := none
  lastError : Option String := none
  usage : Option ExecutionUsage := none
  settlement : Option ExecutionSettlement := none
  reservationOpen : Bool := false
  suspended : Bool := false
  historyEvents : Nat := 0
deriving DecidableEq

inductive ManagedExecutionCommand where
  | prepare (request : ExecutionRequest)
  | authorizeWorkspace (authorization : WorkspaceAuthorization)
  | acknowledge
  | start (grant : WorkerGrant)
  | recordObservation (epoch : Nat) (evidenceRef : String)
  | workerLost (epoch : Nat) (reason : String)
  | retry (grant : WorkerGrant)
  | complete (epoch : Nat) (usage : ExecutionUsage)
  | fail (epoch : Nat) (reason : String)
  | settle (settlement : ExecutionSettlement)
  | cancel
  | suspend
deriving DecidableEq

inductive ManagedExecutionEvent where
  | executionPrepared (request : ExecutionRequest)
  | workspaceAuthorized (authorization : WorkspaceAuthorization)
  | commandAcknowledged
  | workerStarted (grant : WorkerGrant)
  | observationRecorded (epoch : Nat) (evidenceRef : String)
  | workerLost (epoch : Nat) (reason : String)
  | workerRetried (grant : WorkerGrant)
  | executionCompleted (epoch : Nat) (usage : ExecutionUsage)
  | executionFailed (epoch : Nat) (reason : String)
  | executionSettled (settlement : ExecutionSettlement)
  | executionCanceled (stoppedEpoch : Option Nat)
  | machineSuspended (stoppedEpoch : Option Nat)
deriving DecidableEq

/-! ## Decide -/

def blank (value : String) : Bool := (trim value.toList).isEmpty

/-- `fn request(state)`. -/
def ManagedExecutionState.theRequest (state : ManagedExecutionState) : Except Fault ExecutionRequest :=
  okOr "managed execution request is absent" state.request

def grantIsExact (request : ExecutionRequest) (grant : WorkerGrant) : Bool :=
  grant.profile == request.profile && decide (grant.capabilities = request.requiredCapabilities) &&
    grant.credentialClass == request.credentialClass && grant.egressBounded &&
    decide (request.requiredCapabilities ⊆ profileCapabilities grant.profile) &&
    grant.profile != .dedicatedCompute

/-- The charges that a completion may report, by the profile of the request. -/
def decideUsage (state : ManagedExecutionState) (request : ExecutionRequest) (epoch : Nat)
    (usage : ExecutionUsage) : Except Fault (List ManagedExecutionEvent) :=
  match request.profile with
  | .durableWorkflow =>
    if usage.billableNanosUsd ≠ 0 then
      reject "complete: included Durable workflow cannot create workspace charge"
    else .ok [.executionCompleted epoch usage]
  | .isolatedWorkspace => do
    let authorization ← okOr "complete: workspace reservation is absent" state.workspaceAuthorization
    if authorization.exceededBy usage.billableNanosUsd then
      reject "complete: billable usage exceeds reservation"
    else .ok [.executionCompleted epoch usage]
  | .dedicatedCompute => reject "complete: Dedicated compute is unavailable"

def ManagedExecutionState.decide (state : ManagedExecutionState) :
    ManagedExecutionCommand → Except Fault (List ManagedExecutionEvent)
  | .prepare request =>
    if state.phase ≠ .init then reject "prepare: command already exists"
    else if ¬ request.valid then
      reject "prepare: request identities, requirements or bounds are invalid"
    else .ok [.executionPrepared request]
  | .authorizeWorkspace authorization => do
    let request ← state.theRequest
    if state.phase ≠ .prepared ∨ request.profile ≠ .isolatedWorkspace then
      reject "authorizeWorkspace: command is not a prepared workspace request"
    else if state.workspaceAuthorization.isSome then
      reject "authorizeWorkspace: workspace already authorized"
    else if ¬ authorization.valid then
      reject "authorizeWorkspace: positive exact reservation required"
    else .ok [.workspaceAuthorized authorization]
  | .acknowledge => do
    let request ← state.theRequest
    if state.phase ≠ .prepared then reject "acknowledge: command is not prepared"
    else if request.profile = .dedicatedCompute then
      reject "acknowledge: Dedicated compute is unavailable"
    else if ¬ request.requiredCapabilities ⊆ profileCapabilities request.profile then
      reject "acknowledge: requested profile cannot satisfy requirements"
    else if request.profile = .isolatedWorkspace ∧ state.workspaceAuthorization.isNone then
      reject "acknowledge: workspace policy and spend reservation required"
    else .ok [.commandAcknowledged]
  | .start grant => do
    let request ← state.theRequest
    if state.phase ≠ .acknowledged ∨ state.suspended then
      reject "start: command is not acknowledged or Machine is suspended"
    else if ¬ grantIsExact request grant then
      reject "start: profile, capabilities, credential or egress grant is not exact"
    else if grant.epoch ≠ 1 ∨ state.lastEpoch ≠ 0 ∨ state.activeEpoch.isSome then
      reject "start: first worker must hold epoch 1"
    else .ok [.workerStarted grant]
  | .recordObservation epoch evidenceRef =>
    if state.phase ≠ .running ∨ state.activeEpoch ≠ some epoch then
      reject "recordObservation: stale or inactive worker epoch"
    else if ¬ validIdentity evidenceRef then
      reject "recordObservation: valid evidence reference required"
    else .ok [.observationRecorded epoch evidenceRef]
  | .workerLost epoch reason =>
    if state.phase ≠ .running ∨ state.activeEpoch ≠ some epoch then
      reject "workerLost: stale or inactive worker epoch"
    else if blank reason then reject "workerLost: reason required"
    else .ok [.workerLost epoch reason]
  | .retry grant => do
    let request ← state.theRequest
    if state.phase ≠ .retryable ∨ state.suspended then
      reject "retry: command is not retryable or Machine is suspended"
    else if ¬ grantIsExact request grant then
      reject "retry: profile, capabilities, credential or egress grant is not exact"
    else if grant.epoch ≠ saturatingSucc64 state.lastEpoch ∨ state.activeEpoch.isSome then
      reject "retry: worker epoch must advance exactly once"
    else .ok [.workerRetried grant]
  | .complete epoch usage => do
    let request ← state.theRequest
    if state.phase ≠ .running ∨ state.activeEpoch ≠ some epoch then
      reject "complete: stale or inactive worker epoch"
    else if ¬ usage.valid then reject "complete: valid bounded usage evidence required"
    else decideUsage state request epoch usage
  | .fail epoch reason =>
    if state.phase ≠ .running ∨ state.activeEpoch ≠ some epoch then
      reject "fail: stale or inactive worker epoch"
    else if blank reason then reject "fail: reason required"
    else .ok [.executionFailed epoch reason]
  | .settle settlement => do
    let request ← state.theRequest
    if state.phase ≠ .completed ∨ state.settlement.isSome then
      reject "settle: command is not completed or already settled"
    else if ¬ settlement.valid then reject "settle: valid settlement identity required"
    else do
      let usage ← okOr "settle: admitted usage is absent" state.usage
      if settlement.chargedNanosUsd ≠ usage.billableNanosUsd then
        reject "settle: charge must equal admitted billable usage"
      else if request.profile = .durableWorkflow ∧ settlement.chargedNanosUsd ≠ 0 then
        reject "settle: Durable workflow is included"
      else if state.workspaceAuthorization.any (·.exceededBy settlement.chargedNanosUsd) then
        reject "settle: charge exceeds reservation"
      else .ok [.executionSettled settlement]
  | .cancel =>
    match state.phase with
    | .prepared | .acknowledged | .running | .retryable =>
      .ok [.executionCanceled state.activeEpoch]
    | _ => reject "cancel: command is not cancelable"
  | .suspend =>
    if state.phase = .init ∨ state.suspended then
      reject "suspend: no active command or already suspended"
    else .ok [.machineSuspended state.activeEpoch]

/-! ## Evolve -/

/-- A worker takes over: `WorkerStarted` and `WorkerRetried`. -/
def ManagedExecutionState.grantWorker (state : ManagedExecutionState) (grant : WorkerGrant) :
    ManagedExecutionState :=
  { state with
    phase := .running, selectedProfile := some grant.profile
    grantedCapabilities := grant.capabilities
    activeEpoch := some grant.epoch, lastEpoch := grant.epoch, lastError := none }

/-- One more event in the history. -/
def ManagedExecutionState.counted (state : ManagedExecutionState) : ManagedExecutionState :=
  { state with historyEvents := saturatingSucc64 state.historyEvents }

/-- What an event changes, its count apart. -/
def ManagedExecutionState.apply (state : ManagedExecutionState) :
    ManagedExecutionEvent → ManagedExecutionState
  | .executionPrepared request => { state with phase := .prepared, request := some request }
  | .workspaceAuthorized authorization =>
    { state with workspaceAuthorization := some authorization, reservationOpen := true }
  | .commandAcknowledged => { state with phase := .acknowledged, acknowledged := true }
  | .workerStarted grant => state.grantWorker grant
  | .workerRetried grant => state.grantWorker grant
  | .observationRecorded _ evidenceRef =>
    { state with
      observationCount := saturatingSucc64 state.observationCount
      lastEvidenceRef := some evidenceRef }
  | .workerLost _ reason =>
    { state with phase := .retryable, activeEpoch := none, lastError := some reason }
  | .executionCompleted _ usage =>
    { state with phase := .completed, activeEpoch := none, usage := some usage }
  | .executionFailed _ reason =>
    { state with
      phase := .failed, activeEpoch := none, reservationOpen := false, lastError := some reason }
  | .executionSettled settlement =>
    { state with settlement := some settlement, reservationOpen := false }
  | .executionCanceled _ =>
    { state with phase := .canceled, activeEpoch := none, reservationOpen := false }
  | .machineSuspended _ =>
    { state with
      suspended := true, activeEpoch := none, reservationOpen := false
      phase := if state.phase.terminal then state.phase else .suspended }

def ManagedExecutionState.evolve (state : ManagedExecutionState) (event : ManagedExecutionEvent) :
    ManagedExecutionState :=
  state.counted.apply event

/-- `impl Lifecycle for ManagedExecutionState`. -/
def managedExecution :
    Reducer ManagedExecutionState ManagedExecutionCommand ManagedExecutionEvent Fault where
  init := {}
  decide := ManagedExecutionState.decide
  evolve := fun state event => .ok (state.evolve event)

end GaugeDesk.Machine
