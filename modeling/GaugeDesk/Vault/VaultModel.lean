import Mathlib.Data.Finset.Insert
import GaugeDesk.Core.Lifecycle
import GaugeDesk.Lib.OrderedMap

/-!
# GaugeVault: the reducer of `gaugevault.rs`

Credential standing of one owner scope, translated from the source: candidates
from intake to cleanup, the current one, and the ledger of dispatches.  A
`BTreeMap` is a `TreeMap`, and the set of used references, which is only tested
and added to, a `Finset`.

The `revision` is a `u64` that wraps.  An `assert_eq!`, an `expect`, an index
into a map and an `unreachable!` of `evolve` are panics.
-/

namespace GaugeDesk.Vault

open Std

structure Binding where
  authority : String
  ownerScope : String
  credentialScope : String
  credential : String
deriving DecidableEq, Repr

inductive Status where
  | absent | pending | active | revoked | erasureFenced | erased
deriving DecidableEq, Repr

/-- `Status::Pending | Status::Active`. -/
def Status.isOpen : Status → Bool
  | .pending | .active => true
  | _ => false

inductive Candidate where
  | awaitingStore (deadline : Nat)
  | stored (reference : String) (deadline : Nat)
  | active (reference : String)
  | retired (reference : String)
  | cleanupRequired (reference : Option String)
  | cleaned (evidence : String) (reference : Option String)
deriving DecidableEq, Repr

def Candidate.reference : Candidate → Option String
  | .awaitingStore _ => none
  | .stored reference _ => some reference
  | .active reference => some reference
  | .retired reference => some reference
  | .cleanupRequired reference => reference
  | .cleaned _ reference => reference

/-- `Candidate::AwaitingStore { .. } | Candidate::Stored { .. }`, with the deadline. -/
def Candidate.intakeDeadline : Candidate → Option Nat
  | .awaitingStore deadline => some deadline
  | .stored _ deadline => some deadline
  | _ => none

/-- `Candidate::AwaitingStore { .. } | Candidate::CleanupRequired { reference: None }`. -/
def Candidate.isUnobserved : Candidate → Bool
  | .awaitingStore _ => true
  | .cleanupRequired none => true
  | _ => false

/-- `Candidate::CleanupRequired { .. } | Candidate::Retired { .. }`. -/
def Candidate.isCleanable : Candidate → Bool
  | .cleanupRequired _ => true
  | .retired _ => true
  | _ => false

def Candidate.isCleaned : Candidate → Bool
  | .cleaned _ _ => true
  | _ => false

inductive UseMode where
  | authenticateEffect | deliverMaterial
deriving DecidableEq, Repr

inductive CredentialKind where
  | bearer | basic | raw | hmacSha256 | ed25519 | awsSigv4 | jwtRs256 | mtlsClient
deriving DecidableEq, Repr

structure Effect where
  subject : String
  operation : String
  target : String
  mode : UseMode
  requestEvidence : String
deriving DecidableEq, Repr

inductive DispatchPhase where
  | dispatched | unknown | settled
deriving DecidableEq, Repr

/-- `enum Outcome`. -/
inductive UseOutcome where
  | effectObserved | noEffectObserved
deriving DecidableEq, Repr

structure DispatchRecord where
  effect : Effect
  reference : String
  grantEvidence : String
  fenceEvidence : String
  phase : DispatchPhase := .dispatched
  outcome : Option UseOutcome := none
  outcomeEvidence : Option String := none
deriving DecidableEq, Repr

structure VaultState where
  binding : Option Binding := none
  revision : Nat := 0
  lastAt : Nat := 0
  status : Status := .absent
  tenantPrefix : Option String := none
  candidateStorageNames : TreeMap String String := {}
  candidateKinds : TreeMap String CredentialKind := {}
  candidates : TreeMap String Candidate := {}
  intakeMarkers : TreeMap String String := {}
  current : Option String := none
  usedReferences : Finset String := ∅
  dispatches : TreeMap String DispatchRecord := {}

inductive Capability where
  | manage | intakeReceipt | confirmCleanup | ownerClosure | observeDeadline | admitFinalUse
  | confirmFinalUse
deriving DecidableEq, Repr

inductive Operation where
  | create (tenantPrefix : String)
  | beginCandidate (id : String) (kind : CredentialKind) (marker storageName : String) (deadline : Nat)
  | recordStored (id reference : String)
  | activate (id : String)
  | cancelCandidate (id : String)
  | expireCandidate (id : String)
  | recordCleaned (id evidence : String)
  | revoke
  | fenceErasure
  | confirmErasure (evidence : String)
  | dispatch (id : String) (effect : Effect) (expectedReference grantEvidence fenceEvidence : String)
  | outcomeUnknown (id evidence : String)
  | settleDispatch (id : String) (outcome : UseOutcome) (evidence : String)
deriving DecidableEq, Repr

structure Command where
  binding : Binding
  capability : Capability
  expectedRevision : Nat
  now : Nat
  operation : Operation
deriving DecidableEq, Repr

inductive Change where
  | created (tenantPrefix : String)
  | candidateBegun (id : String) (kind : CredentialKind) (marker storageName : String) (deadline : Nat)
  | candidateStored (id reference : String)
  | candidateCleanupRequired (id : String) (reference : Option String)
  | candidateActivated (id : String)
  | candidateCleaned (id evidence : String)
  | revoked
  | erasureFenced
  | erased (evidence : String)
  | dispatched (id : String) (effect : Effect) (reference grantEvidence fenceEvidence : String)
  | dispatchOutcomeUnknown (id evidence : String)
  | dispatchSettled (id : String) (outcome : UseOutcome) (evidence : String)
deriving DecidableEq, Repr

structure Event where
  binding : Binding
  at_ : Nat
  change : Change
deriving DecidableEq, Repr

/-! ## Standing -/

/-- A candidate in the phase `Active`, with its reference. -/
def Candidate.activeReference : Candidate → Option String
  | .active reference => some reference
  | _ => none

def VaultState.activeKind (state : VaultState) : Option CredentialKind :=
  if state.status ≠ .active then none
  else do
    let current ← state.current
    let candidate ← state.candidates[current]?
    let _ ← candidate.activeReference
    state.candidateKinds[current]?

def VaultState.activeReference (state : VaultState) : Option String :=
  if state.status ≠ .active then none
  else do
    let _ ← state.activeKind
    let current ← state.current
    let candidate ← state.candidates[current]?
    candidate.activeReference

/-! ## Decide -/

def isLowerHex (c : Char) : Bool := ('0' ≤ c && c ≤ '9') || ('a' ≤ c && c ≤ 'f')

def canonicalHex128 (value : List Char) : Bool := value.length == 32 && value.all isLowerHex

def canonicalIntakeMarker (marker : String) : Bool := canonicalHex128 marker.toList

/-- `gv-<prefix>-<32 hexadecimal digits>`. -/
def candidateNameMatchesPrefix (name tenantPrefix : String) : Bool :=
  ((("gv-".toList.isPrefixOf? name.toList).bind tenantPrefix.toList.isPrefixOf?).bind
    ['-'].isPrefixOf?).any canonicalHex128

/-- `map.values().any(|used| used == value)`. -/
def hasValue (map : TreeMap String String) (value : String) : Bool := map.toList.any fun p => p.2 == value

/-- The change that a receipt makes: a late one only requires cleanup. -/
def VaultState.receiptChange (state : VaultState) (now : Nat) (id reference : String) : Change :=
  match state.candidates[id]? with
  | some (.awaitingStore deadline) =>
    if now < deadline ∧ state.status.isOpen then .candidateStored id reference
    else .candidateCleanupRequired id (some reference)
  | _ => .candidateCleanupRequired id (some reference)

/-- The `match` of `decide`: the change of an operation that has standing and capability. -/
def VaultState.changeOf (state : VaultState) (capability : Capability) (now : Nat) :
    Operation → Option Change
  | .create tenantPrefix =>
    if capability = .manage ∧ state.status = .absent ∧ canonicalHex128 tenantPrefix.toList then
      some (.created tenantPrefix)
    else none
  | .beginCandidate id kind marker storageName deadline =>
    if capability = .manage ∧ state.status.isOpen ∧ now < deadline ∧ state.candidates[id]? = none ∧
        canonicalIntakeMarker marker ∧ ¬ hasValue state.intakeMarkers marker ∧
        state.tenantPrefix.any (candidateNameMatchesPrefix storageName) ∧
        ¬ hasValue state.candidateStorageNames storageName then
      some (.candidateBegun id kind marker storageName deadline)
    else none
  | .recordStored id reference =>
    if capability = .intakeReceipt ∧ state.candidateKinds[id]?.isSome ∧
        state.candidates[id]?.any (·.isUnobserved) ∧ state.status ≠ .erased ∧
        reference ∉ state.usedReferences then
      some (state.receiptChange now id reference)
    else none
  | .activate id =>
    match state.candidates[id]? with
    | some (.stored _ deadline) =>
      if capability = .manage ∧ state.candidateKinds[id]?.isSome ∧ state.status.isOpen ∧
          now < deadline then
        some (.candidateActivated id)
      else none
    | _ => none
  | .cancelCandidate id => do
    let candidate ← state.candidates[id]?
    if capability = .manage ∧ candidate.intakeDeadline.isSome then
      some (.candidateCleanupRequired id candidate.reference)
    else none
  | .expireCandidate id => do
    let candidate ← state.candidates[id]?
    let deadline ← candidate.intakeDeadline
    if capability = .observeDeadline ∧ deadline ≤ now then
      some (.candidateCleanupRequired id candidate.reference)
    else none
  | .recordCleaned id evidence =>
    if capability = .confirmCleanup ∧ state.candidates[id]?.any (·.isCleanable) then
      some (.candidateCleaned id evidence)
    else none
  | .revoke => if capability = .manage ∧ state.status.isOpen then some .revoked else none
  | .fenceErasure =>
    if (capability = .manage ∨ capability = .ownerClosure) ∧
        (state.status.isOpen ∨ state.status = .revoked) then
      some .erasureFenced
    else none
  | .confirmErasure evidence =>
    if capability = .confirmCleanup ∧ state.status = .erasureFenced ∧
        state.candidates.toList.all fun p => p.2.isCleaned then
      some (.erased evidence)
    else none
  | .dispatch id effect expectedReference grantEvidence fenceEvidence =>
    if capability = .admitFinalUse ∧ state.status = .active ∧ state.dispatches[id]? = none ∧
        state.activeReference = some expectedReference then
      some (.dispatched id effect expectedReference grantEvidence fenceEvidence)
    else none
  | .outcomeUnknown id evidence =>
    if capability = .confirmFinalUse ∧ state.dispatches[id]?.any (·.phase == .dispatched) then
      some (.dispatchOutcomeUnknown id evidence)
    else none
  | .settleDispatch id outcome evidence =>
    if capability = .confirmFinalUse ∧ state.dispatches[id]?.any (·.phase != .settled) then
      some (.dispatchSettled id outcome evidence)
    else none

def VaultState.decide (state : VaultState) (command : Command) : Except Fault (List Event) :=
  if state.revision ≠ command.expectedRevision then reject "GaugeVault: stale revision"
  else if command.now = 0 ∨ command.now < state.lastAt then
    reject "GaugeVault: invalid or stale observation time"
  else if state.binding.any (· != command.binding) then
    reject "GaugeVault: wrong authority, owner or credential"
  else do
    let change ← okOr "GaugeVault: operation lacks standing or capability"
      (state.changeOf command.capability command.now command.operation)
    return [⟨command.binding, command.now, change⟩]

/-! ## Evolve -/

/-- The header that every event writes. -/
def VaultState.stamp (state : VaultState) (binding : Binding) (at_ : Nat) : VaultState :=
  { state with binding := some binding, revision := (state.revision + 1) % 2 ^ 64, lastAt := at_ }

/-- `next.candidates[&id].reference().expect(message).clone()`. -/
def VaultState.exactReference (state : VaultState) (id message : String) : Except Fault String := do
  let candidate ← expect "no entry found for key" state.candidates[id]?
  expect message candidate.reference

/-- `if let Some(old) = next.current.take()`: the current candidate is retired. -/
def VaultState.retireCurrent (state : VaultState) : Except Fault VaultState :=
  match state.current with
  | none => .ok state
  | some old => do
    let reference ← state.exactReference old "active candidate has an exact reference"
    return { state with current := none, candidates := state.candidates.insert old (.retired reference) }

/-- A candidate that is not cleaned has to be. -/
def Candidate.fence (candidate : Candidate) : Candidate :=
  if candidate.isCleaned then candidate else .cleanupRequired candidate.reference

def VaultState.apply (state : VaultState) : Change → Except Fault VaultState
  | .created tenantPrefix => .ok { state with tenantPrefix := some tenantPrefix, status := .pending }
  | .candidateBegun id kind marker storageName deadline =>
    .ok { state with
      intakeMarkers := state.intakeMarkers.insert id marker
      candidateStorageNames := state.candidateStorageNames.insert id storageName
      candidateKinds := state.candidateKinds.insert id kind
      candidates := state.candidates.insert id (.awaitingStore deadline) }
  | .candidateStored id reference =>
    match state.candidates[id]? with
    | some (.awaitingStore deadline) =>
      .ok { state with
        usedReferences := insert reference state.usedReferences
        candidates := state.candidates.insert id (.stored reference deadline) }
    | _ => .error (.panicked "only admitted candidate events are folded")
  | .candidateCleanupRequired id reference =>
    .ok { state with
      usedReferences := reference.elim state.usedReferences fun r => insert r state.usedReferences
      candidates := state.candidates.insert id (.cleanupRequired reference) }
  | .candidateActivated id => do
    let retired ← state.retireCurrent
    let reference ← retired.exactReference id "stored candidate has an exact reference"
    return { retired with
      candidates := retired.candidates.insert id (.active reference)
      current := some id, status := .active }
  | .candidateCleaned id evidence =>
    .ok { state with
      candidateKinds := state.candidateKinds.erase id
      candidates := state.candidates.insert id
        (.cleaned evidence (state.candidates[id]?.bind Candidate.reference)) }
  | .revoked => ({ state with status := .revoked }).retireCurrent
  | .erasureFenced =>
    .ok { state with
      status := .erasureFenced, current := none
      candidates := state.candidates.map fun _ candidate => candidate.fence }
  | .erased _ => .ok { state with status := .erased }
  | .dispatched id effect reference grantEvidence fenceEvidence =>
    .ok { state with
      dispatches := state.dispatches.insert id { effect, reference, grantEvidence, fenceEvidence } }
  | .dispatchOutcomeUnknown id evidence => do
    let dispatch ← expect "admitted dispatch" state.dispatches[id]?
    return { state with
      dispatches := state.dispatches.insert id
        { dispatch with phase := .unknown, outcomeEvidence := some evidence } }
  | .dispatchSettled id outcome evidence => do
    let dispatch ← expect "admitted dispatch" state.dispatches[id]?
    return { state with
      dispatches := state.dispatches.insert id
        { dispatch with
          phase := .settled, outcome := some outcome, outcomeEvidence := some evidence } }

def VaultState.evolve (state : VaultState) (event : Event) : Except Fault VaultState :=
  if state.binding.any (· != event.binding) then
    .error (.panicked "GaugeVault event changed its owner")
  else (state.stamp event.binding event.at_).apply event.change

/-- `impl Lifecycle for State`. -/
def vault : Reducer VaultState Command Event Fault where
  init := {}
  decide := VaultState.decide
  evolve := VaultState.evolve

end GaugeDesk.Vault
