import GaugeDesk.Machine.ExecutionModel

/-!
# Managed machines: what one admitted command does

`Step s c es s'` lists, once per admitted command, the guards that held and the
one event that is folded:

    decide s c is a refusal, or its events fold into a Step of c  (managedExecution_decides)
-/

namespace GaugeDesk.Machine

open Option

/-! ## Steps -/

/-- What a completion may charge under the request: nothing for a durable workflow, and at most the
reservation for a workspace. -/
inductive Chargeable (s : ManagedExecutionState) (request : ExecutionRequest) (charge : Nat) : Prop
  | durable (hprofile : request.profile = .durableWorkflow) (hzero : charge = 0)
  | workspace (authorization : WorkspaceAuthorization) (hprofile : request.profile = .isolatedWorkspace)
      (hauth : s.workspaceAuthorization = some authorization)
      (hle : charge ≤ authorization.reservedNanosUsd)

/-- The admitted commands: guards, events and next state. -/
inductive Step (s : ManagedExecutionState) :
    ManagedExecutionCommand → List ManagedExecutionEvent → ManagedExecutionState → Prop
  | prepare (request : ExecutionRequest) (hp : s.phase = .init) (hv : request.valid = true) :
      Step s (.prepare request) [.executionPrepared request] (s.evolve (.executionPrepared request))
  | authorize (authorization : WorkspaceAuthorization) (request : ExecutionRequest)
      (hr : s.request = some request) (hp : s.phase = .prepared)
      (hprofile : request.profile = .isolatedWorkspace) (hnone : s.workspaceAuthorization = none)
      (hv : authorization.valid = true) :
      Step s (.authorizeWorkspace authorization) [.workspaceAuthorized authorization]
        (s.evolve (.workspaceAuthorized authorization))
  | acknowledge (request : ExecutionRequest) (hr : s.request = some request) (hp : s.phase = .prepared)
      (hprofile : request.profile ≠ .dedicatedCompute)
      (hcap : request.requiredCapabilities ⊆ profileCapabilities request.profile)
      (hauth : request.profile = .isolatedWorkspace → s.workspaceAuthorization ≠ none) :
      Step s .acknowledge [.commandAcknowledged] (s.evolve .commandAcknowledged)
  | start (grant : WorkerGrant) (request : ExecutionRequest) (hr : s.request = some request)
      (hp : s.phase = .acknowledged) (hsus : s.suspended = false)
      (hexact : grantIsExact request grant = true) (hepoch : grant.epoch = 1) (hlast : s.lastEpoch = 0)
      (hactive : s.activeEpoch = none) :
      Step s (.start grant) [.workerStarted grant] (s.evolve (.workerStarted grant))
  | observe (epoch : Nat) (evidenceRef : String) (hp : s.phase = .running)
      (hactive : s.activeEpoch = some epoch) (hv : validIdentity evidenceRef = true) :
      Step s (.recordObservation epoch evidenceRef) [.observationRecorded epoch evidenceRef]
        (s.evolve (.observationRecorded epoch evidenceRef))
  | lose (epoch : Nat) (reason : String) (hp : s.phase = .running)
      (hactive : s.activeEpoch = some epoch) (hv : blank reason = false) :
      Step s (.workerLost epoch reason) [.workerLost epoch reason] (s.evolve (.workerLost epoch reason))
  | retry (grant : WorkerGrant) (request : ExecutionRequest) (hr : s.request = some request)
      (hp : s.phase = .retryable) (hsus : s.suspended = false)
      (hexact : grantIsExact request grant = true) (hepoch : grant.epoch = saturatingSucc64 s.lastEpoch)
      (hactive : s.activeEpoch = none) :
      Step s (.retry grant) [.workerRetried grant] (s.evolve (.workerRetried grant))
  | complete (epoch : Nat) (usage : ExecutionUsage) (request : ExecutionRequest)
      (hr : s.request = some request) (hp : s.phase = .running) (hactive : s.activeEpoch = some epoch)
      (hv : usage.valid = true) (hcharge : Chargeable s request usage.billableNanosUsd) :
      Step s (.complete epoch usage) [.executionCompleted epoch usage]
        (s.evolve (.executionCompleted epoch usage))
  | fail (epoch : Nat) (reason : String) (hp : s.phase = .running)
      (hactive : s.activeEpoch = some epoch) (hv : blank reason = false) :
      Step s (.fail epoch reason) [.executionFailed epoch reason]
        (s.evolve (.executionFailed epoch reason))
  | settle (settlement : ExecutionSettlement) (request : ExecutionRequest) (usage : ExecutionUsage)
      (hr : s.request = some request) (hp : s.phase = .completed) (hnone : s.settlement = none)
      (hv : settlement.valid = true) (husage : s.usage = some usage)
      (hcharge : settlement.chargedNanosUsd = usage.billableNanosUsd)
      (hdurable : request.profile = .durableWorkflow → settlement.chargedNanosUsd = 0)
      (hauth : ∀ authorization, s.workspaceAuthorization = some authorization →
        settlement.chargedNanosUsd ≤ authorization.reservedNanosUsd) :
      Step s (.settle settlement) [.executionSettled settlement]
        (s.evolve (.executionSettled settlement))
  | cancel (hp : s.phase = .prepared ∨ s.phase = .acknowledged ∨ s.phase = .running ∨
        s.phase = .retryable) :
      Step s .cancel [.executionCanceled s.activeEpoch] (s.evolve (.executionCanceled s.activeEpoch))
  | suspend (hp : s.phase ≠ .init) (hsus : s.suspended = false) :
      Step s .suspend [.machineSuspended s.activeEpoch] (s.evolve (.machineSuspended s.activeEpoch))

/-! ## Every command is refused or takes a step -/

section
variable {s : ManagedExecutionState} {c : ManagedExecutionCommand} {e : ManagedExecutionEvent}

theorem outcome_current {epoch : Nat} {reason : String} {x : Except Fault (List ManagedExecutionEvent)}
    (h : s.phase = .running → s.activeEpoch = some epoch → Outcome managedExecution Step s c x) :
    Outcome managedExecution Step s c
      (if s.phase ≠ .running ∨ s.activeEpoch ≠ some epoch then reject reason else x) := by
  refine .guard fun hg => ?_
  rw [not_or, not_not, not_not] at hg
  exact h hg.1 hg.2

theorem exceededBy_eq_false {authorization : WorkspaceAuthorization} {charge : Nat} :
    ¬ authorization.exceededBy charge = true ↔ charge ≤ authorization.reservedNanosUsd := by
  unfold WorkspaceAuthorization.exceededBy
  rw [decide_eq_true_iff, Nat.not_lt]

theorem outcome_complete (epoch : Nat) (usage : ExecutionUsage) :
    DecidesAt managedExecution Step s (.complete epoch usage) := by
  refine .okOr fun request hr => outcome_current fun hp hactive => .unless fun hv => ?_
  have hdone := fun hcharge => Outcome.one (R := managedExecution) rfl
    (Step.complete epoch usage request hr hp hactive hv hcharge)
  unfold decideUsage
  cases hprofile : request.profile with
  | durableWorkflow => exact .unless fun hzero => hdone (.durable hprofile hzero)
  | isolatedWorkspace =>
    refine .okOr fun authorization hauth => .guard fun hle => ?_
    exact hdone (.workspace authorization hprofile hauth (exceededBy_eq_false.mp hle))
  | dedicatedCompute => exact .reject _

theorem outcome_settle (settlement : ExecutionSettlement) :
    DecidesAt managedExecution Step s (.settle settlement) := by
  refine .okOr fun request hr => .guard fun hp => .unless fun hv => .okOr fun usage husage =>
    .unless fun hcharge => .guard fun hdurable => .guard fun hauth => ?_
  rw [not_or, not_not, not_isSome_iff_eq_none] at hp
  refine .one rfl (.settle settlement request usage hr hp.1 hp.2 hv husage hcharge (fun hd => ?_) fun authorization ha => ?_)
  · by_contra hne
    exact hdurable ⟨hd, hne⟩
  · rw [ha, any_some] at hauth
    exact exceededBy_eq_false.mp hauth

theorem outcome_cancel : DecidesAt managedExecution Step s .cancel := by
  unfold DecidesAt
  simp only [managedExecution, ManagedExecutionState.decide]
  cases hp : s.phase with
  | prepared | acknowledged | running | retryable => exact .one rfl (.cancel (by simp [hp]))
  | _ => exact .reject _

end

/-- **Every command is refused or takes one of the steps**, without a panic. -/
theorem managedExecution_decides : Decides managedExecution Step := by
  intro s c
  cases c with
  | prepare request =>
    exact .unless fun hp => .unless fun hv => .one rfl (.prepare request hp hv)
  | authorizeWorkspace authorization =>
    refine .okOr fun request hr => .guard fun hp => .guard fun hnone => .unless fun hv => ?_
    rw [not_or, not_not, not_not] at hp
    exact .one rfl (.authorize authorization request hr hp.1 hp.2 (not_isSome_iff_eq_none.mp hnone) hv)
  | acknowledge =>
    refine .okOr fun request hr => .unless fun hp => .guard fun hprofile => .unless fun hcap =>
      .guard fun hauth => ?_
    refine .one rfl (.acknowledge request hr hp hprofile hcap fun hw hnone => ?_)
    exact hauth ⟨hw, by rw [hnone]; rfl⟩
  | start grant =>
    refine .okOr fun request hr => .guard fun hp => .unless fun hexact => .guard fun hepoch => ?_
    rw [not_or, not_not, Bool.not_eq_true] at hp
    rw [not_or, not_or, not_not, not_not, not_isSome_iff_eq_none] at hepoch
    exact .one rfl (.start grant request hr hp.1 hp.2 hexact hepoch.1 hepoch.2.1 hepoch.2.2)
  | recordObservation epoch evidenceRef =>
    exact outcome_current fun hp ha => .unless fun hv => .one rfl (.observe epoch evidenceRef hp ha hv)
  | workerLost epoch reason =>
    exact outcome_current fun hp ha => .guard fun hv =>
      .one rfl (.lose epoch reason hp ha (Bool.eq_false_iff.mpr hv))
  | retry grant =>
    refine .okOr fun request hr => .guard fun hp => .unless fun hexact => .guard fun hepoch => ?_
    rw [not_or, not_not, Bool.not_eq_true] at hp
    rw [not_or, not_not, not_isSome_iff_eq_none] at hepoch
    exact .one rfl (.retry grant request hr hp.1 hp.2 hexact hepoch.1 hepoch.2)
  | complete epoch usage => exact outcome_complete epoch usage
  | fail epoch reason =>
    exact outcome_current fun hp ha => .guard fun hv =>
      .one rfl (.fail epoch reason hp ha (Bool.eq_false_iff.mpr hv))
  | settle settlement => exact outcome_settle settlement
  | cancel => exact outcome_cancel
  | suspend =>
    refine .guard fun hp => ?_
    rw [not_or, Bool.not_eq_true] at hp
    exact .one rfl (.suspend hp.1 hp.2)

end GaugeDesk.Machine
