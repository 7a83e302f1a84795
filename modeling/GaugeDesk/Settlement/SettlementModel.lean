import Mathlib.Data.Finset.Card
import Mathlib.Data.Finset.Dedup
import GaugeDesk.Core.Lifecycle
import GaugeDesk.Lib.OrderedMap

/-!
# Target settlement: the coordinator of `target_settlement.rs`

The `(decide, evolve)` pair that coordinates the effects of one declaration,
translated from the source: every command, event, guard and refusal text.  The
members are a `BTreeMap`, iterated in key order.  An `expect` that fails is a
`Fault.panicked`, so that a theorem can say it is never reached.
-/

namespace GaugeDesk.Settlement

open Std

inductive SettlementAct where
  | propose | apply | publish | release | managedAdvance
deriving DecidableEq, Repr

structure SettlementMemberDeclaration where
  memberId : String
  targetId : String
  operationId : String
  expectedBasis : String
  candidateDigest : String
  expectedResultDigest : String
  policyDecisionHandle : String
  adapter : String
  act : SettlementAct
  retrySafeAfterFailure : Bool
  authoritativeQuery : Bool
deriving DecidableEq, Repr

def SettlementMemberDeclaration.valid (m : SettlementMemberDeclaration) : Bool :=
  [m.memberId, m.targetId, m.operationId, m.expectedBasis, m.candidateDigest,
    m.expectedResultDigest, m.policyDecisionHandle, m.adapter].all validIdentity &&
    m.authoritativeQuery

structure TargetSettlementDeclaration where
  declarationId : String
  projectId : String
  chatId : String
  sourceChangeSetRef : String
  promotionManifestRef : Option String
  members : List SettlementMemberDeclaration
deriving DecidableEq, Repr

/-- The loop of `TargetSettlementDeclaration::valid`: every member is valid and its member and
operation ids are new (`BTreeSet::insert` answers whether the value was absent). -/
def membersValid : List String → List String → List SettlementMemberDeclaration → Bool
  | _, _, [] => true
  | memberIds, operationIds, m :: ms =>
    m.valid && !memberIds.contains m.memberId && !operationIds.contains m.operationId &&
      membersValid (m.memberId :: memberIds) (m.operationId :: operationIds) ms

def TargetSettlementDeclaration.valid (d : TargetSettlementDeclaration) : Bool :=
  if !validIdentity d.declarationId || !validIdentity d.projectId || !validIdentity d.chatId ||
      !validIdentity d.sourceChangeSetRef || d.members.isEmpty ||
      d.promotionManifestRef.any (fun value => !validIdentity value) then false
  else membersValid [] [] d.members

structure MemberPreflightEvidence where
  memberId : String
  observedBasis : String
  observedCandidateDigest : String
  adapterContractRef : String
  governanceDecisionRef : String
  admitted : Bool
  refusalReason : Option String
deriving DecidableEq, Repr

def MemberPreflightEvidence.exactFor (e : MemberPreflightEvidence)
    (m : SettlementMemberDeclaration) : Bool :=
  e.memberId == m.memberId && e.governanceDecisionRef == m.policyDecisionHandle &&
    validIdentity e.adapterContractRef &&
    if e.admitted then
      e.observedBasis == m.expectedBasis && e.observedCandidateDigest == m.candidateDigest &&
        e.refusalReason.isNone
    else
      validIdentity e.observedBasis && validIdentity e.observedCandidateDigest &&
        e.refusalReason.any validIdentity

/-- Evidence from the Home-owned ordered lane for one stable target. -/
structure TargetLanePermit where
  laneId : String
  targetId : String
  memberId : String
  operationId : String
  sequence : Nat
  authorityPosition : String
deriving DecidableEq, Repr

def TargetLanePermit.exactFor (p : TargetLanePermit) (m : SettlementMemberDeclaration) : Bool :=
  p.targetId == m.targetId && p.memberId == m.memberId && p.operationId == m.operationId &&
    decide (p.sequence > 0) && validIdentity p.laneId && validIdentity p.authorityPosition

inductive ReceiptOutcome where
  | succeeded | failed
deriving DecidableEq, Repr

structure AuthenticatedTargetReceipt where
  receiptRef : String
  memberId : String
  targetId : String
  operationId : String
  expectedBasis : String
  resultingBasis : Option String
  resultingDigest : Option String
  outcome : ReceiptOutcome
  authorityRef : String
  authenticationRef : String
  failureReason : Option String
deriving DecidableEq, Repr

/-- A forward-repair receipt and the exact successful effect it compensates. -/
structure CompensationReceiptLink where
  originalReceiptRef : String
  compensationDeclarationId : String
  compensationMemberId : String
  compensationReceiptRef : String
deriving DecidableEq, Repr

def CompensationReceiptLink.valid (l : CompensationReceiptLink) : Bool :=
  validIdentity l.originalReceiptRef && validIdentity l.compensationDeclarationId &&
    validIdentity l.compensationMemberId && validIdentity l.compensationReceiptRef &&
    l.originalReceiptRef != l.compensationReceiptRef

def AuthenticatedTargetReceipt.exactFor (r : AuthenticatedTargetReceipt)
    (m : SettlementMemberDeclaration) : Bool :=
  if r.memberId != m.memberId || r.targetId != m.targetId || r.operationId != m.operationId ||
      r.expectedBasis != m.expectedBasis || !validIdentity r.receiptRef ||
      !validIdentity r.authorityRef || !validIdentity r.authenticationRef then false
  else
    match r.outcome with
    | .succeeded =>
      r.resultingBasis.any validIdentity && r.resultingDigest == some m.expectedResultDigest &&
        r.failureReason.isNone
    | .failed => r.resultingDigest.isNone && r.failureReason.any validIdentity

inductive SettlementPhase where
  | undeclared | declared | preflighting | ready | applying | completed | partiallyApplied
  | reconciliationRequired | refused | cancelled | expired | compensated | abandonedPartial
deriving DecidableEq, Repr

def SettlementPhase.terminal : SettlementPhase → Bool
  | .completed | .refused | .cancelled | .expired | .compensated | .abandonedPartial => true
  | _ => false

inductive SettlementMemberPhase where
  | pending | preflightPassed | started | succeeded | failed | unknown | cancelledBeforeStart
  | supersededBeforeStart
deriving DecidableEq, Repr

structure SettlementMemberState where
  phase : SettlementMemberPhase := .pending
  preflightEvidence : Option MemberPreflightEvidence := none
  lanePermit : Option TargetLanePermit := none
  attempts : Nat := 0
  receipt : Option AuthenticatedTargetReceipt := none
  unknownEvidenceRef : Option String := none
  queryRefs : List String := []
  supersededBy : Option String := none
deriving DecidableEq, Repr

structure TargetSettlementState where
  phase : SettlementPhase := .undeclared
  declaration : Option TargetSettlementDeclaration := none
  members : TreeMap String SettlementMemberState := {}
  startedEffects : Nat := 0
  terminalReason : Option String := none
  compensationReceiptRefs : List String := []
  compensationReceiptLinks : List CompensationReceiptLink := []
  historyEvents : Nat := 0

inductive TargetSettlementCommand where
  | declare (declaration : TargetSettlementDeclaration)
  | beginPreflight
  | recordPreflight (evidence : MemberPreflightEvidence)
  | cancelBeforeEffects (reason : String)
  | expireBeforeEffects (reason : String)
  | startMember (memberId : String) (lanePermit : TargetLanePermit)
  | recordReceipt (receipt : AuthenticatedTargetReceipt)
  | recordUnknown (memberId evidenceRef : String)
  | requestAuthoritativeQuery (memberId queryRef : String)
  | recordQueryReceipt (receipt : AuthenticatedTargetReceipt)
  | retryKnownFailure (memberId : String) (lanePermit : TargetLanePermit)
  | cancelUnstarted (reason : String)
  | supersedeNotStarted (memberId laterMemberRef : String)
  | markCompensated (receiptLinks : List CompensationReceiptLink)
  | abandonPartial (reason : String)
deriving DecidableEq, Repr

inductive TargetSettlementEvent where
  | declarationRecorded (declaration : TargetSettlementDeclaration)
  | preflightStarted
  | memberPreflightPassed (evidence : MemberPreflightEvidence)
  | memberPreflightRefused (evidence : MemberPreflightEvidence)
  | coordinatorReady
  | coordinatorRefused (reason : String)
  | coordinatorCancelled (reason : String)
  | coordinatorExpired (reason : String)
  | memberStarted (memberId : String) (lanePermit : TargetLanePermit)
  | memberReceiptRecorded (receipt : AuthenticatedTargetReceipt)
  | memberOutcomeUnknown (memberId evidenceRef : String)
  | authoritativeQueryRequested (memberId queryRef : String)
  | memberRetryStarted (memberId : String) (lanePermit : TargetLanePermit)
  | memberCancelledBeforeStart (memberId reason : String)
  | memberSupersededBeforeStart (memberId laterMemberRef : String)
  | coordinatorPhaseChanged (phase : SettlementPhase)
  | coordinatorCompensated (receiptRefs : List String)
  | coordinatorCompensatedV2 (receiptLinks : List CompensationReceiptLink)
  | coordinatorAbandonedPartial (reason : String)
deriving DecidableEq, Repr

abbrev Members := TreeMap String SettlementMemberState

/-! ## Lookups and projections -/

def declaration (state : TargetSettlementState) : Except Fault TargetSettlementDeclaration :=
  okOr "target settlement declaration is absent" state.declaration

def TargetSettlementDeclaration.find (d : TargetSettlementDeclaration) (memberId : String) :
    Option SettlementMemberDeclaration :=
  d.members.find? fun member => member.memberId == memberId

def member (state : TargetSettlementState) (memberId : String) :
    Except Fault (SettlementMemberDeclaration × SettlementMemberState) := do
  let declaration ← declaration state
  let declared ← okOr "target settlement member is not declared" (declaration.find memberId)
  let current ← okOr "target settlement member state is absent" state.members[memberId]?
  return (declared, current)

/-- `members.get_mut(id).expect(message)`, followed by a change of the value. -/
def updateMember (members : Members) (message memberId : String)
    (f : SettlementMemberState → SettlementMemberState) : Except Fault Members := do
  let current ← expect message members[memberId]?
  return members.insert memberId (f current)

/-- The counters of the loop in `projected_phase`. -/
structure Tally where
  succeeded : Nat := 0
  resolvedNotSuccess : Nat := 0
  unknown : Bool := false
  active : Bool := false

def Tally.add (t : Tally) : SettlementMemberPhase → Tally
  | .succeeded => { t with succeeded := t.succeeded + 1 }
  | .failed | .cancelledBeforeStart | .supersededBeforeStart =>
    { t with resolvedNotSuccess := t.resolvedNotSuccess + 1 }
  | .unknown => { t with unknown := true }
  | .pending | .preflightPassed | .started => { t with active := true }

def tally (members : Members) : Tally := members.toList.foldl (fun t p => t.add p.2.phase) {}

def projectedPhase (members : Members) : SettlementPhase :=
  let t := tally members
  if t.unknown then .reconciliationRequired
  else if !t.active && t.resolvedNotSuccess == 0 && t.succeeded == members.size then .completed
  else if !t.active && decide (t.succeeded > 0) && decide (t.resolvedNotSuccess > 0) then
    .partiallyApplied
  else .applying

def phaseAfterMemberChange (state : TargetSettlementState) (changedId : String)
    (changedPhase : SettlementMemberPhase) : Except Fault SettlementPhase := do
  let members ← updateMember state.members "declared member" changedId
    fun member => { member with phase := changedPhase }
  return projectedPhase members

/-- The phase a receipt of this outcome gives its member. -/
def ReceiptOutcome.phase : ReceiptOutcome → SettlementMemberPhase
  | .succeeded => .succeeded
  | .failed => .failed

def SettlementMemberPhase.unstarted : SettlementMemberPhase → Bool
  | .pending | .preflightPassed => true
  | _ => false

/-- The ids of the members with a phase that `CancelUnstarted` may cancel, in key order. -/
def unstartedIds (members : Members) : List String :=
  (members.toList.filter fun p => p.2.phase.unstarted).map (·.1)

def cancelMembers (members : Members) (ids : List String) : Except Fault Members :=
  ids.foldlM (fun ms id =>
    updateMember ms "member" id fun member => { member with phase := .cancelledBeforeStart }) members

/-- The receipt references of the successful effects, as the set of `MarkCompensated`. -/
def successfulReceipts (members : Members) : Finset String :=
  (members.toList.filterMap fun p =>
    p.2.receipt.bind fun receipt =>
      if receipt.outcome = .succeeded then some receipt.receiptRef else none).toFinset

def recordReceipt (state : TargetSettlementState) (receipt : AuthenticatedTargetReceipt)
    (fromQuery : Bool) : Except Fault (List TargetSettlementEvent) := do
  let (declared, current) ← member state receipt.memberId
  let expectedPhase := if fromQuery then SettlementMemberPhase.unknown else .started
  if current.phase ≠ expectedPhase ∨ current.receipt.isSome then
    reject "recordReceipt: member is not awaiting this receipt"
  else if fromQuery ∧ current.queryRefs.isEmpty then
    reject "recordReceipt: unknown member was not authoritatively queried"
  else if ¬ receipt.exactFor declared then
    reject "recordReceipt: authenticated receipt does not match declaration"
  else do
    let nextPhase ← phaseAfterMemberChange state receipt.memberId receipt.outcome.phase
    return [.memberReceiptRecorded receipt, .coordinatorPhaseChanged nextPhase]

/-! ## The reducer -/

def TargetSettlementState.decide (state : TargetSettlementState) :
    TargetSettlementCommand → Except Fault (List TargetSettlementEvent)
  | .declare declaration =>
    if state.phase ≠ .undeclared ∨ state.declaration.isSome then
      reject "declare: coordinator is already declared"
    else if ¬ declaration.valid then
      reject "declare: exact unique declaration members are required"
    else .ok [.declarationRecorded declaration]
  | .beginPreflight =>
    if state.phase ≠ .declared then reject "beginPreflight: coordinator is not declared"
    else .ok [.preflightStarted]
  | .recordPreflight evidence =>
    if state.phase ≠ .preflighting then
      reject "recordPreflight: coordinator is not preflighting"
    else do
      let (declared, current) ← member state evidence.memberId
      if current.phase ≠ .pending ∨ current.preflightEvidence.isSome then
        reject "recordPreflight: member was already preflighted"
      else if ¬ evidence.exactFor declared then
        reject "recordPreflight: evidence does not match the declaration"
      else if ¬ evidence.admitted then do
        let reason ← expect "validated reason" evidence.refusalReason
        return [.memberPreflightRefused evidence, .coordinatorRefused reason]
      else
        let allOthersPassed := state.members.toList.all fun p =>
          p.1 == declared.memberId || p.2.phase == .preflightPassed
        .ok (.memberPreflightPassed evidence :: if allOthersPassed then [.coordinatorReady] else [])
  | .cancelBeforeEffects reason =>
    if ¬ (state.phase = .declared ∨ state.phase = .preflighting ∨ state.phase = .ready) ∨
        state.startedEffects ≠ 0 ∨ ¬ validIdentity reason then
      reject "cancelBeforeEffects: cancellation is invalid or effects started"
    else .ok [.coordinatorCancelled reason]
  | .expireBeforeEffects reason =>
    if ¬ (state.phase = .declared ∨ state.phase = .preflighting ∨ state.phase = .ready) ∨
        state.startedEffects ≠ 0 ∨ ¬ validIdentity reason then
      reject "expireBeforeEffects: expiry is invalid or effects started"
    else .ok [.coordinatorExpired reason]
  | .startMember memberId lanePermit =>
    if ¬ (state.phase = .ready ∨ state.phase = .applying) then
      reject "startMember: all-member preflight is not ready"
    else do
      let (declared, current) ← member state memberId
      if current.phase ≠ .preflightPassed ∨ current.receipt.isSome then
        reject "startMember: member is not startable"
      else if ¬ lanePermit.exactFor declared then
        reject "startMember: ordered target-lane permit is not exact"
      else .ok [.memberStarted memberId lanePermit, .coordinatorPhaseChanged .applying]
  | .recordReceipt receipt => recordReceipt state receipt false
  | .recordUnknown memberId evidenceRef => do
    let (_, current) ← member state memberId
    if current.phase ≠ .started ∨ ¬ validIdentity evidenceRef then
      reject "recordUnknown: only a started member may become unknown"
    else .ok [.memberOutcomeUnknown memberId evidenceRef,
      .coordinatorPhaseChanged .reconciliationRequired]
  | .requestAuthoritativeQuery memberId queryRef => do
    let (declared, current) ← member state memberId
    if current.phase ≠ .unknown ∨ ¬ declared.authoritativeQuery ∨ ¬ validIdentity queryRef ∨
        current.queryRefs.contains queryRef then
      reject "requestAuthoritativeQuery: member is not queryable"
    else .ok [.authoritativeQueryRequested memberId queryRef]
  | .recordQueryReceipt receipt => recordReceipt state receipt true
  | .retryKnownFailure memberId lanePermit => do
    let (declared, current) ← member state memberId
    if current.phase ≠ .failed ∨ ¬ declared.retrySafeAfterFailure then
      reject "retryKnownFailure: member is not safely retryable"
    else if ¬ lanePermit.exactFor declared ∨
        current.lanePermit.any fun old => Decidable.decide (lanePermit.sequence ≤ old.sequence) then
      reject "retryKnownFailure: a newer exact lane permit is required"
    else .ok [.memberRetryStarted memberId lanePermit, .coordinatorPhaseChanged .applying]
  | .cancelUnstarted reason =>
    if state.phase.terminal ∨ state.startedEffects = 0 ∨ ¬ validIdentity reason then
      reject "cancelUnstarted: effects have not started or state is terminal"
    else
      let ids := unstartedIds state.members
      if ids.isEmpty then reject "cancelUnstarted: no unstarted member remains"
      else do
        let projected ← cancelMembers state.members ids
        return ids.map (fun memberId => .memberCancelledBeforeStart memberId reason) ++
          [.coordinatorPhaseChanged (projectedPhase projected)]
  | .supersedeNotStarted memberId laterMemberRef => do
    let (_, current) ← member state memberId
    if ¬ current.phase.unstarted ∨ ¬ validIdentity laterMemberRef then
      reject "supersedeNotStarted: only an exact not-started member may supersede"
    else do
      let phase ← phaseAfterMemberChange state memberId .supersededBeforeStart
      return [.memberSupersededBeforeStart memberId laterMemberRef, .coordinatorPhaseChanged phase]
  | .markCompensated receiptLinks =>
    let linkedOriginals := (receiptLinks.map (·.originalReceiptRef)).toFinset
    let linkedCompensations := (receiptLinks.map (·.compensationReceiptRef)).toFinset
    let linkedMembers := (receiptLinks.map fun link =>
      (link.compensationDeclarationId, link.compensationMemberId)).toFinset
    if state.phase ≠ .partiallyApplied ∨ successfulReceipts state.members = ∅ ∨
        receiptLinks.length ≠ (successfulReceipts state.members).card ∨
        receiptLinks.any (fun link => !link.valid) ∨
        linkedOriginals ≠ successfulReceipts state.members ∨
        linkedCompensations.card ≠ receiptLinks.length ∨
        linkedMembers.card ≠ receiptLinks.length then
      reject "markCompensated: exact one-to-one forward-repair evidence is required"
    else .ok [.coordinatorCompensatedV2 receiptLinks]
  | .abandonPartial reason =>
    if ¬ (state.phase = .applying ∨ state.phase = .partiallyApplied ∨
        state.phase = .reconciliationRequired) ∨ state.startedEffects = 0 ∨
        ¬ validIdentity reason then
      reject "abandonPartial: an explicit nonterminal partial state is required"
    else .ok [.coordinatorAbandonedPartial reason]

/-- Change one member, counting the event. -/
def TargetSettlementState.evolveMember (state : TargetSettlementState) (memberId : String)
    (f : SettlementMemberState → SettlementMemberState) : Except Fault TargetSettlementState := do
  let members ← updateMember state.members "declared member" memberId f
  return { state with members := members }

/-- A started or restarted member: a new permit and attempt, the last outcome cleared. -/
def SettlementMemberState.start (member : SettlementMemberState) (lanePermit : TargetLanePermit) :
    SettlementMemberState :=
  { member with
    phase := .started, lanePermit := some lanePermit
    attempts := saturatingSucc32 member.attempts, receipt := none, unknownEvidenceRef := none }

def SettlementMemberState.settle (member : SettlementMemberState)
    (receipt : AuthenticatedTargetReceipt) : SettlementMemberState :=
  { member with phase := receipt.outcome.phase, receipt := some receipt, unknownEvidenceRef := none }

def TargetSettlementState.evolve (state : TargetSettlementState) (event : TargetSettlementEvent) :
    Except Fault TargetSettlementState :=
  let next := { state with historyEvents := saturatingSucc64 state.historyEvents }
  match event with
  | .declarationRecorded declaration =>
    .ok { next with
      phase := .declared
      members := TreeMap.ofList (declaration.members.map fun member => (member.memberId, ({} : SettlementMemberState)))
      declaration := some declaration }
  | .preflightStarted => .ok { next with phase := .preflighting }
  | .memberPreflightPassed evidence =>
    next.evolveMember evidence.memberId fun member =>
      { member with phase := .preflightPassed, preflightEvidence := some evidence }
  | .memberPreflightRefused evidence =>
    next.evolveMember evidence.memberId fun member =>
      { member with preflightEvidence := some evidence }
  | .coordinatorReady => .ok { next with phase := .ready }
  | .coordinatorRefused reason => .ok { next with phase := .refused, terminalReason := some reason }
  | .coordinatorCancelled reason =>
    .ok { next with phase := .cancelled, terminalReason := some reason }
  | .coordinatorExpired reason => .ok { next with phase := .expired, terminalReason := some reason }
  | .memberStarted memberId lanePermit | .memberRetryStarted memberId lanePermit => do
    let started ← next.evolveMember memberId fun member => member.start lanePermit
    return { started with startedEffects := saturatingSucc32 started.startedEffects }
  | .memberReceiptRecorded receipt =>
    next.evolveMember receipt.memberId fun member => member.settle receipt
  | .memberOutcomeUnknown memberId evidenceRef =>
    next.evolveMember memberId fun member =>
      { member with phase := .unknown, unknownEvidenceRef := some evidenceRef }
  | .authoritativeQueryRequested memberId queryRef =>
    next.evolveMember memberId fun member =>
      { member with queryRefs := member.queryRefs ++ [queryRef] }
  | .memberCancelledBeforeStart memberId _ =>
    next.evolveMember memberId fun member => { member with phase := .cancelledBeforeStart }
  | .memberSupersededBeforeStart memberId laterMemberRef =>
    next.evolveMember memberId fun member =>
      { member with phase := .supersededBeforeStart, supersededBy := some laterMemberRef }
  | .coordinatorPhaseChanged phase => .ok { next with phase := phase }
  | .coordinatorCompensated receiptRefs =>
    .ok { next with phase := .compensated, compensationReceiptRefs := receiptRefs }
  | .coordinatorCompensatedV2 receiptLinks =>
    .ok { next with
      phase := .compensated
      compensationReceiptRefs := receiptLinks.map (·.compensationReceiptRef)
      compensationReceiptLinks := receiptLinks }
  | .coordinatorAbandonedPartial reason =>
    .ok { next with phase := .abandonedPartial, terminalReason := some reason }

/-- `impl Lifecycle for TargetSettlementState`. -/
def settlement : Reducer TargetSettlementState TargetSettlementCommand TargetSettlementEvent Fault where
  init := {}
  decide := TargetSettlementState.decide
  evolve := TargetSettlementState.evolve

end GaugeDesk.Settlement
