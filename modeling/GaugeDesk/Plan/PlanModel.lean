import Mathlib.Data.Finset.Card
import Mathlib.Data.Finset.Dedup
import GaugeDesk.Core.Lifecycle
import GaugeDesk.Lib.OrderedMap

/-!
# Plans: the reducer of `plan.rs`

A plan's standing as governed work, translated from the source: claims with
their leases, evidence and the cycle it was recorded in, settlements under a
policy epoch, reopenings and supersession.  A `BTreeMap` is a `TreeMap`, and a
`BTreeSet` that is only tested for membership a `Finset`.

Cycles and epochs are `u32`: the cycle of a reopened step wraps, and an epoch is
the index of a policy cut to 32 bits.
-/

namespace GaugeDesk.Plan

open Std

abbrev Authority := String

inductive EvidenceKind where
  | attestation | workRecord
deriving DecidableEq, Repr

structure SettlementPolicy where
  accepts : Finset EvidenceKind
  claimantMaySettle : Bool
deriving DecidableEq

structure StepSpec where
  id : String
  title : String
  blockedBy : Finset String
deriving DecidableEq

structure StepClaim where
  holder : Authority
  claimedAtMs : Nat
  leaseUntilMs : Nat
deriving DecidableEq, Repr

def StepClaim.isLive (claim : StepClaim) (nowMs : Nat) : Bool := decide (nowMs < claim.leaseUntilMs)

structure Evidence where
  id : String
  step : String
  kind : EvidenceKind
  author : Authority
  reference : String
  cycle : Nat
  recordedAtMs : Nat
deriving DecidableEq, Repr

structure ReopenCause where
  reference : String
  reason : String
deriving DecidableEq, Repr

structure StepSettlement where
  evidence : String
  epoch : Nat
  by_ : Authority
  atMs : Nat
deriving DecidableEq, Repr

structure StepState where
  title : String
  blockedBy : Finset String
  cycle : Nat := 0
  claim : Option StepClaim := none
  settlement : Option StepSettlement := none
  reopened : List ReopenCause := []
deriving DecidableEq

inductive PlanPhase where
  | init | active | superseded
deriving DecidableEq, Repr

structure PlanState where
  phase : PlanPhase := .init
  planId : String := ""
  title : String := ""
  proposer : Option Authority := none
  policies : List SettlementPolicy := []
  steps : TreeMap String StepState := {}
  evidence : TreeMap String Evidence := {}
  supersededBy : Option String := none

inductive PlanCommand where
  | propose (planId title : String) (proposer : Authority) (steps : List StepSpec)
      (policy : SettlementPolicy) (atMs : Nat)
  | claimStep (step : String) (holder : Authority) (atMs leaseUntilMs : Nat)
  | releaseStep (step : String) (holder : Authority) (atMs : Nat)
  | recordEvidence (step : String) (kind : EvidenceKind) (author : Authority) (reference : String)
      (atMs : Nat)
  | settleStep (step evidence : String) (by_ : Authority) (atMs : Nat)
  | reopenStep (step : String) (cause : ReopenCause) (by_ : Authority) (atMs : Nat)
  | reviseSettlementPolicy (policy : SettlementPolicy) (by_ : Authority) (atMs : Nat)
  | supersede (successor reason : String) (by_ : Authority) (atMs : Nat)

inductive PlanEvent where
  | planProposed (planId title : String) (proposer : Authority) (steps : List StepSpec)
      (policy : SettlementPolicy) (atMs : Nat)
  | stepClaimed (step : String) (holder : Authority) (atMs leaseUntilMs : Nat)
  | stepReleased (step : String) (holder : Authority) (atMs : Nat)
  | evidenceRecorded (evidence : Evidence)
  | stepSettled (step evidence : String) (epoch : Nat) (by_ : Authority) (atMs : Nat)
  | stepReopened (step : String) (cause : ReopenCause) (by_ : Authority) (atMs : Nat)
  | settlementPolicyRevised (epoch : Nat) (policy : SettlementPolicy) (by_ : Authority) (atMs : Nat)
  | planSuperseded (successor reason : String) (by_ : Authority) (atMs : Nat)
deriving DecidableEq

/-! ## Readiness -/

/-- `as u32`. -/
def asU32 (n : Nat) : Nat := n % 2 ^ 32

/-- The current epoch: the last policy's index. -/
def PlanState.epoch (state : PlanState) : Option Nat :=
  if state.policies.length = 0 then none else some (asU32 (state.policies.length - 1))

def PlanState.unsettledBlockers (state : PlanState) (step : StepState) : Finset String :=
  step.blockedBy.filter fun b => state.steps[b]?.all fun s => s.settlement.isNone

inductive Readiness where
  | blocked (by_ : Finset String)
  | ready
  | claimed (holder : Authority) (leaseUntilMs : Nat)
  | settled
deriving DecidableEq

def PlanState.readiness (state : PlanState) (step : String) (nowMs : Nat) : Option Readiness :=
  state.steps[step]?.map fun current =>
    if current.settlement.isSome then .settled
    else
      match current.claim.filter fun claim => claim.isLive nowMs with
      | some claim => .claimed claim.holder claim.leaseUntilMs
      | none =>
        let by_ := state.unsettledBlockers current
        if by_ = ∅ then .ready else .blocked by_

/-! ## Well-formed proposals -/

def blank (s : String) : Bool := (trim s.toList).isEmpty

def validPolicy (policy : SettlementPolicy) : Bool := decide (policy.accepts ≠ ∅)

/-- The first loop of `valid_steps`: the steps are named and their ids are new. -/
def namedSteps : List String → List StepSpec → Except Fault Unit
  | _, [] => .ok ()
  | ids, step :: steps =>
    if blank step.id ∨ blank step.title then reject "propose: every step needs an id and a title"
    else if ids.contains step.id then reject "propose: step ids must be unique"
    else namedSteps (step.id :: ids) steps

/-- The steps that a round of Kahn's algorithm adds: all their blockers are done. -/
def kahnNext (steps : List StepSpec) (done : Finset String) : Finset String :=
  ((steps.filter fun step => decide (step.id ∉ done) && decide (step.blockedBy ⊆ done)).map
    (·.id)).toFinset

/-- The loop of `valid_steps`.  A round that adds nothing ends it, and every other adds a step, so
that as many rounds as there are steps are enough. -/
def kahn (steps : List StepSpec) : Nat → Finset String → Finset String
  | 0, done => done
  | rounds + 1, done =>
    let next := kahnNext steps done
    if next = ∅ then done else kahn steps rounds (done ∪ next)

def validSteps (steps : List StepSpec) : Except Fault Unit :=
  if steps.isEmpty then reject "propose: a plan needs at least one step"
  else do
    namedSteps [] steps
    let ids := (steps.map (·.id)).toFinset
    if ∃ step ∈ steps, ¬ step.blockedBy ⊆ ids then
      reject "propose: a step is blocked by a step outside the plan"
    else if (kahn steps steps.length ∅).card ≠ ids.card then
      reject "propose: the steps' blocks relations form a cycle"
    else .ok ()

/-! ## The reducer -/

def decideProposal (state : PlanState) (planId title : String) (proposer : Authority)
    (steps : List StepSpec) (policy : SettlementPolicy) (atMs : Nat) :
    Except Fault (List PlanEvent) :=
  if state.phase ≠ .init then reject "propose: the plan already exists"
  else if blank planId ∨ blank title then reject "propose: a plan needs an id and a title"
  else if ¬ validPolicy policy then reject "propose: the settlement policy accepts no evidence"
  else do
    validSteps steps
    return [.planProposed planId title proposer steps policy atMs]

/-- The commands on a proposed plan. -/
def decideActive (state : PlanState) : PlanCommand → Except Fault (List PlanEvent)
  | .propose .. => .error (.panicked "handled above")
  | .claimStep step holder atMs leaseUntilMs => do
    let current ← okOr "claim: no such step" state.steps[step]?
    if current.settlement.isSome then reject "claim: the step is settled"
    else if current.claim.any fun claim => claim.isLive atMs then
      reject "claim: the step already has a live claim"
    else if state.unsettledBlockers current ≠ ∅ then
      reject "claim: a step blocking this one is not settled"
    else if leaseUntilMs ≤ atMs then reject "claim: the lease must end after it begins"
    else .ok [.stepClaimed step holder atMs leaseUntilMs]
  | .releaseStep step holder atMs => do
    let current ← okOr "release: no such step" state.steps[step]?
    if ¬ (current.claim.any fun claim => claim.holder == holder && claim.isLive atMs &&
        current.settlement.isNone) then
      reject "release: the step has no live claim of yours"
    else .ok [.stepReleased step holder atMs]
  | .recordEvidence step kind author reference atMs => do
    let current ← okOr "evidence: no such step" state.steps[step]?
    if current.settlement.isSome then reject "evidence: the step is settled"
    else if blank reference then reject "evidence: it must name what it vouches for"
    else .ok [.evidenceRecorded
      { id := "evidence-" ++ toString (state.evidence.size + 1), step, kind, author, reference,
        cycle := current.cycle, recordedAtMs := atMs }]
  | .settleStep step evidence by_ atMs => do
    let current ← okOr "settle: no such step" state.steps[step]?
    if current.settlement.isSome then reject "settle: the step is already settled"
    else do
      let claim ← okOr "settle: nobody has claimed the step" current.claim
      let record ← okOr "settle: no such evidence for this step"
        (state.evidence[evidence]?.filter fun e => e.step == step)
      if record.cycle ≠ current.cycle then reject "settle: the evidence predates the step's reopening"
      else do
        let epoch ← okOr "settle: the plan has no settlement policy" state.epoch
        let policy ← okOr "settle: the plan has no settlement policy" state.policies.getLast?
        if record.kind ∉ policy.accepts then
          reject "settle: the policy epoch does not accept this kind of evidence"
        else if record.author = claim.holder ∧ ¬ policy.claimantMaySettle then
          reject "settle: the policy epoch does not accept the claimant's own record"
        else .ok [.stepSettled step evidence epoch by_ atMs]
  | .reopenStep step cause by_ atMs => do
    let current ← okOr "reopen: no such step" state.steps[step]?
    if current.settlement.isNone then reject "reopen: the step is not settled"
    else if blank cause.reference ∨ blank cause.reason then reject "reopen: it must cite a cause"
    else .ok [.stepReopened step cause by_ atMs]
  | .reviseSettlementPolicy policy by_ atMs =>
    if ¬ validPolicy policy then reject "revise: the settlement policy accepts no evidence"
    else if state.policies.getLast? = some policy then reject "revise: the policy is unchanged"
    else .ok [.settlementPolicyRevised (asU32 state.policies.length) policy by_ atMs]
  | .supersede successor reason by_ atMs =>
    if blank successor ∨ successor = state.planId then
      reject "supersede: it must name a different successor plan"
    else if blank reason then reject "supersede: it must give a reason"
    else .ok [.planSuperseded successor reason by_ atMs]

def PlanState.decide (state : PlanState) : PlanCommand → Except Fault (List PlanEvent)
  | .propose planId title proposer steps policy atMs =>
    decideProposal state planId title proposer steps policy atMs
  | command =>
    match state.phase with
    | .init => reject "the plan has not been proposed"
    | .superseded => reject "the plan is superseded"
    | .active => decideActive state command

/-- `if let Some(st) = s.steps.get_mut(&step)`, followed by a change of the value. -/
def PlanState.updateStep (state : PlanState) (step : String) (f : StepState → StepState) : PlanState :=
  match state.steps[step]? with
  | some current => { state with steps := state.steps.insert step (f current) }
  | none => state

def StepSpec.initial (spec : StepSpec) : StepState := { title := spec.title, blockedBy := spec.blockedBy }

/-- A claim whose step is settled: it is not live any more. -/
def StepClaim.close (claim : StepClaim) (atMs : Nat) : StepClaim :=
  { claim with leaseUntilMs := min claim.leaseUntilMs atMs }

def StepState.settle (step : StepState) (settlement : StepSettlement) : StepState :=
  { step with
    claim := step.claim.map fun claim => claim.close settlement.atMs
    settlement := some settlement }

def StepState.reopen (step : StepState) (cause : ReopenCause) : StepState :=
  { step with
    settlement := none, claim := none, cycle := asU32 (step.cycle + 1)
    reopened := step.reopened ++ [cause] }

def PlanState.evolve (state : PlanState) : PlanEvent → PlanState
  | .planProposed planId title proposer steps policy _ =>
    { state with
      phase := .active, planId, title, proposer := some proposer, policies := [policy]
      steps := TreeMap.ofList (steps.map fun spec => (spec.id, spec.initial)) }
  | .stepClaimed step holder atMs leaseUntilMs =>
    state.updateStep step fun current => { current with claim := some ⟨holder, atMs, leaseUntilMs⟩ }
  | .stepReleased step _ _ => state.updateStep step fun current => { current with claim := none }
  | .evidenceRecorded evidence =>
    { state with evidence := state.evidence.insert evidence.id evidence }
  | .stepSettled step evidence epoch by_ atMs =>
    state.updateStep step fun current => current.settle ⟨evidence, epoch, by_, atMs⟩
  | .stepReopened step cause _ _ => state.updateStep step fun current => current.reopen cause
  | .settlementPolicyRevised _ policy _ _ => { state with policies := state.policies ++ [policy] }
  | .planSuperseded successor _ _ _ =>
    { state with phase := .superseded, supersededBy := some successor }

/-- `impl Lifecycle for PlanState`. -/
def plan : Reducer PlanState PlanCommand PlanEvent Fault where
  init := {}
  decide := PlanState.decide
  evolve := fun state event => .ok (state.evolve event)

end GaugeDesk.Plan
