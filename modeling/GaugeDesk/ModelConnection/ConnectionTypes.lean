import Mathlib.Data.Finset.Basic
import Std.Data.TreeMap
import GaugeDesk.Core.Lifecycle

/-!
# Model connections: credentials, grants and provider attempts

The data of `model_connection.rs`, `access.rs` and `spend.rs`: one state per
organization holds its connections with their credential versions, the grants
on them and the ledger of provider attempts.  A `BTreeMap` is a `TreeMap`, a
`BTreeSet` that is only tested for membership a `Finset`.
-/

namespace GaugeDesk.ModelConnection

open Std

abbrev AuthorityId := String
abbrev ScopeId := String
abbrev HomeId := String
abbrev ProjectId := String
abbrev ModelConnectionId := String
abbrev CredentialVersionId := String
abbrev SecretHandleId := String
abbrev ObservationId := String
abbrev ModelGrantId := String
abbrev ModelAttemptId := String

/-! ## Connections -/

structure AuthorityBinding where
  authority : AuthorityId
  organization : ScopeId
  environment : String
deriving DecidableEq, Repr

inductive AuthenticationKind where
  | apiKey | organizationOauth
deriving DecidableEq, Repr

inductive ExecutionClass where
  | privateBroker | publicDirect
deriving DecidableEq, Repr

structure ProviderBinding where
  provider : String
  endpoint : String
  authentication : AuthenticationKind
deriving DecidableEq, Repr

structure ModelPolicy where
  models : Finset String
  executionClasses : Finset ExecutionClass
deriving DecidableEq

structure ConnectionDefinition where
  name : String
  provider : ProviderBinding
  policy : ModelPolicy
deriving DecidableEq

inductive ConnectionStatus where
  | pending | active | suspended | revoked | erased
deriving DecidableEq, Repr

inductive VerificationCheck where
  | modelCatalogRead
deriving DecidableEq, Repr

structure Verification where
  check : VerificationCheck
  observedAt : Nat
deriving DecidableEq, Repr

inductive VersionPhase where
  | awaitingSecret
  | sealed
  | verified (evidence : ObservationId)
  | activated (evidence : ObservationId)
  | failed (evidence : ObservationId)
  | cancelled
  | expired
deriving DecidableEq, Repr

def VersionPhase.isOpen : VersionPhase → Bool
  | .awaitingSecret | .sealed | .verified _ => true
  | _ => false

def VersionPhase.isActivated : VersionPhase → Bool
  | .activated _ => true
  | _ => false

inductive Material where
  | unobserved
  | held (handle : SecretHandleId)
  | erasureRequired (handle : Option SecretHandleId)
  | erased (evidence : ObservationId)
deriving DecidableEq, Repr

def Material.requireErasure : Material → Material
  | .unobserved => .erasureRequired none
  | .held handle => .erasureRequired (some handle)
  | .erasureRequired handle => .erasureRequired handle
  | .erased evidence => .erased evidence

def Material.gone : Material → Bool
  | .erased _ => true
  | _ => false

def Material.isHeld : Material → Bool
  | .held _ => true
  | _ => false

structure Version where
  expiresAt : Nat
  phase : VersionPhase
  material : Material
  verification : Option Verification
deriving DecidableEq, Repr

structure Connection where
  definition : ConnectionDefinition
  budgetFamily : ModelConnectionId
  status : ConnectionStatus
  versions : TreeMap CredentialVersionId Version
  currentVersion : Option CredentialVersionId
  erasureRequested : Bool

/-- The current version, if it is activated and its material held. -/
def Connection.usableVersion (c : Connection) : Option CredentialVersionId := do
  let id ← c.currentVersion
  let version ← c.versions[id]?
  if version.phase.isActivated && version.material.isHeld then some id else none

def Connection.activeVersion (c : Connection) : Option CredentialVersionId :=
  if c.status ≠ .active ∨ c.erasureRequested then none else c.usableVersion

def Connection.mutable (c : Connection) : Bool :=
  match c.status with
  | .revoked | .erased => false
  | _ => true

def Connection.materialGone (c : Connection) : Bool :=
  c.versions.toList.all fun p => p.2.material.gone

def Version.cancelOpen (v : Version) : Version :=
  if v.phase.isOpen then { v with phase := .cancelled, material := v.material.requireErasure } else v

def Connection.revoke (c : Connection) : Connection :=
  { c with status := .revoked, versions := c.versions.map fun _ v => v.cancelOpen }

structure ModelSelection where
  connection : ModelConnectionId
  model : String
deriving DecidableEq, Repr

/-! ## Grants -/

structure Project where
  authority : AuthorityId
  id : ProjectId
deriving DecidableEq, Repr

inductive Subject where
  | member (id : AuthorityId)
  | project (p : Project)
deriving DecidableEq, Repr

/-- The order of the derived `Ord`: the variant first, then its fields. -/
def Subject.key : Subject → List String
  | .member id => ["0", id]
  | .project p => ["1", p.authority, p.id]

/-- Stable across grant recreation and a connection's explicit reconnection lineage. -/
structure BudgetKey where
  connectionFamily : ModelConnectionId
  subject : Subject
deriving DecidableEq, Repr

def BudgetKey.key (b : BudgetKey) : List String := b.connectionFamily :: b.subject.key

instance : Ord BudgetKey := ⟨compareOn BudgetKey.key⟩

inductive PrincipalClass where
  | member | externalParticipant | service | publicSession
deriving DecidableEq, Repr

inductive Initiator where
  | member (id : AuthorityId)
  | externalParticipant (id : AuthorityId)
  | service (id : AuthorityId)
  | publicSession (deployment session : String)
deriving DecidableEq, Repr

def Initiator.principalClass : Initiator → PrincipalClass
  | .member _ => .member
  | .externalParticipant _ => .externalParticipant
  | .service _ => .service
  | .publicSession _ _ => .publicSession

def Initiator.isPublicSession : Initiator → Bool
  | .publicSession _ _ => true
  | _ => false

/-- `Currency::try_from`: three bytes, each an ASCII capital. -/
def currencyCode (value : String) : Bool :=
  value.utf8ByteSize == 3 && value.toList.all fun c => decide ('A' ≤ c ∧ c ≤ 'Z')

structure Currency where
  code : String
  parsed : currencyCode code = true
deriving DecidableEq

instance : Ord Currency := ⟨compareOn Currency.code⟩

/-- Fixed-point millionths of the named currency. -/
structure Money where
  currency : Currency
  micros : Nat
deriving DecidableEq

structure Caps where
  tokens : Option Nat := none
  money : Option Money := none
deriving DecidableEq

inductive GrantStatus where
  | active | suspended | revoked
deriving DecidableEq, Repr

structure GrantDefinition where
  connection : ModelConnectionId
  subject : Subject
  policy : ModelPolicy
  audiences : Finset PrincipalClass
  caps : Caps
deriving DecidableEq

structure Grant where
  definition : GrantDefinition
  budget : BudgetKey
  revision : Nat
  status : GrantStatus
deriving DecidableEq

inductive GrantOperation where
  | setCaps (id : ModelGrantId) (caps : Caps)
  | create (id : ModelGrantId) (definition : GrantDefinition) (subjectAdmission : ObservationId)
  | edit (id : ModelGrantId) (policy : ModelPolicy) (audiences : Finset PrincipalClass) (caps : Caps)
  | suspend (id : ModelGrantId)
  | resume (id : ModelGrantId) (subjectAdmission : ObservationId)
  | revoke (id : ModelGrantId)

inductive GrantChange where
  | capsChanged (id : ModelGrantId) (caps : Caps)
  | created (id : ModelGrantId) (grant : Grant) (subjectAdmission : ObservationId)
  | edited (id : ModelGrantId) (policy : ModelPolicy) (audiences : Finset PrincipalClass) (caps : Caps)
  | suspended (id : ModelGrantId)
  | resumed (id : ModelGrantId) (subjectAdmission : ObservationId)
  | revoked (id : ModelGrantId)

/-- Exact, secret-free facts for one actual provider request. -/
structure Invocation where
  connection : ModelConnectionId
  version : CredentialVersionId
  provider : ProviderBinding
  model : String
  executionClass : ExecutionClass
  initiator : Initiator
  project : Option Project
  home : Option HomeId
  work : ObservationId
  finalFetch : AuthorityId
  requestDigest : Vector UInt8 32
deriving DecidableEq

structure ExecutionEvidence where
  observed : Invocation
  currentIdentityAndWork : Bool
  fundingAdmitted : Bool
  privatePlaintextAdmitted : Bool
  publicDeploymentAndBudgetAdmitted : Bool
  observation : ObservationId
deriving DecidableEq

structure ApplicableGrant where
  id : ModelGrantId
  revision : Nat
  budget : BudgetKey
  caps : Caps
deriving DecidableEq

/-! ## Attempts -/

structure Month where
  year : Nat
  month : Nat
deriving DecidableEq, Repr

/-- Conservative maximum enforced by the trusted provider adapter on the exact request. -/
structure Bound where
  tokens : Nat
  money : Option Money
  rate : Option ObservationId
  enforcement : ObservationId
deriving DecidableEq

structure Usage where
  tokens : Nat
  money : Option Money
  rate : Option ObservationId
  runtime : ObservationId
deriving DecidableEq

inductive Phase where
  | reserved | dispatched | unknown | settled | accountedAtBound | released
deriving DecidableEq, Repr

structure Attempt where
  invocation : Invocation
  grants : List ApplicableGrant
  month : Month
  bound : Bound
  reservedUntil : Nat
  reconcileBy : Nat
  revision : Nat
  phase : Phase
  usage : Option Usage
  measurements : TreeMap ObservationId Usage
  unknownEvidence : Option ObservationId
  overrun : Bool
  reconciledWith : Option ObservationId

inductive SpendOperation where
  | reserve (id : ModelAttemptId) (invocation : Invocation) (evidence : ExecutionEvidence)
      (bound : Bound) (reservedUntil reconcileBy : Nat)
  | dispatch (id : ModelAttemptId) (evidence : ExecutionEvidence) (bound : Bound)
  | cancel (id : ModelAttemptId)
  | expire (id : ModelAttemptId)
  | outcomeUnknown (id : ModelAttemptId) (evidence : ObservationId)
  | settle (id : ModelAttemptId) (usage : Usage) (evidence : ObservationId)
  | reconcileDeadline (id : ModelAttemptId)
  | correct (id : ModelAttemptId) (usage : Usage) (evidence : ObservationId)
  | reconcileOverrun (id : ModelAttemptId) (repairedEnforcement evidence : ObservationId)

inductive SpendChange where
  | reserved (id : ModelAttemptId) (attempt : Attempt) (evidence : ObservationId)
  | dispatched (id : ModelAttemptId) (evidence : ObservationId)
  | released (id : ModelAttemptId)
  | outcomeUnknown (id : ModelAttemptId) (evidence : ObservationId)
  | settled (id : ModelAttemptId) (usage : Usage) (evidence : ObservationId) (overrun : Bool)
  | accountedAtBound (id : ModelAttemptId)
  | corrected (id : ModelAttemptId) (usage : Usage) (evidence : ObservationId) (overrun : Bool)
  | overrunReconciled (id : ModelAttemptId) (repairedEnforcement evidence : ObservationId)

/-! ## State, commands and events -/

structure State where
  binding : Option AuthorityBinding := none
  revision : Nat := 0
  lastAt : Nat := 0
  connections : TreeMap ModelConnectionId Connection := {}
  default : Option ModelSelection := none
  usedHandles : Finset SecretHandleId := ∅
  grants : TreeMap ModelGrantId Grant := {}
  attempts : TreeMap ModelAttemptId Attempt := {}
  failedEnforcements : Finset ObservationId := ∅

inductive Capability where
  | manageConnections | manageGrants | invokeProvider | observeUsage | reconcileBounds
  | sealCandidate | verifyCandidate | observeDeadline | confirmErasure | organizationClosure
deriving DecidableEq, Repr

inductive Basis where
  | metadata (revision : Nat)
  | dispatch (metadata : Nat) (attempt : ModelAttemptId) (revision : Nat)
  | attempt (id : ModelAttemptId) (revision : Nat)
deriving DecidableEq, Repr

inductive Operation where
  | grant (operation : GrantOperation)
  | spend (operation : SpendOperation)
  | beginIntake (connection : ModelConnectionId) (definition : ConnectionDefinition)
      (reconnects : Option ModelConnectionId) (version : CredentialVersionId) (expiresAt : Nat)
  | beginReplacement (connection : ModelConnectionId) (version : CredentialVersionId)
      (expiresAt : Nat)
  | recordSealed (connection : ModelConnectionId) (version : CredentialVersionId)
      (handle : SecretHandleId)
  | recordVerification (connection : ModelConnectionId) (version : CredentialVersionId)
      (provider : ProviderBinding) (handle : SecretHandleId) (evidence : ObservationId)
      (check : VerificationCheck) (passed : Bool)
  | activate (connection : ModelConnectionId) (version : CredentialVersionId)
  | cancelCandidate (connection : ModelConnectionId) (version : CredentialVersionId)
  | expireCandidate (connection : ModelConnectionId) (version : CredentialVersionId)
  | rename (connection : ModelConnectionId) (name : String)
  | setModelPolicy (connection : ModelConnectionId) (policy : ModelPolicy)
  | setDefault (selection : Option ModelSelection)
  | suspend (connection : ModelConnectionId)
  | resume (connection : ModelConnectionId)
  | revoke (connection : ModelConnectionId)
  | requestErasure (connection : ModelConnectionId)
  | recordMaterialErased (connection : ModelConnectionId) (version : CredentialVersionId)
      (expectedHandle : Option SecretHandleId) (evidence : ObservationId)

structure Command where
  binding : AuthorityBinding
  actor : AuthorityId
  capability : Capability
  basis : Basis
  now : Nat
  operation : Operation

inductive Change where
  | grant (change : GrantChange)
  | spend (change : SpendChange)
  | intakeBegun (connection : ModelConnectionId) (definition : ConnectionDefinition)
      (reconnects : Option ModelConnectionId) (version : CredentialVersionId) (expiresAt : Nat)
  | replacementBegun (connection : ModelConnectionId) (version : CredentialVersionId)
      (expiresAt : Nat)
  | candidateSealed (connection : ModelConnectionId) (version : CredentialVersionId)
      (handle : SecretHandleId)
  | candidateVerified (connection : ModelConnectionId) (version : CredentialVersionId)
      (evidence : ObservationId) (check : Option VerificationCheck)
  | candidateFailed (connection : ModelConnectionId) (version : CredentialVersionId)
      (evidence : ObservationId) (check : Option VerificationCheck)
  | versionActivated (connection : ModelConnectionId) (version : CredentialVersionId)
      (evidence : ObservationId)
  | candidateCancelled (connection : ModelConnectionId) (version : CredentialVersionId)
  | candidateExpired (connection : ModelConnectionId) (version : CredentialVersionId)
  | connectionRenamed (connection : ModelConnectionId) (name : String)
  | modelPolicyChanged (connection : ModelConnectionId) (policy : ModelPolicy)
  | defaultChanged (selection : Option ModelSelection)
  | connectionSuspended (connection : ModelConnectionId)
  | connectionResumed (connection : ModelConnectionId)
  | connectionRevoked (connection : ModelConnectionId)
  | erasureRequested (connection : ModelConnectionId)
  | materialErased (connection : ModelConnectionId) (version : CredentialVersionId)
      (evidence : ObservationId)
  | connectionErased (connection : ModelConnectionId)

structure Event where
  binding : AuthorityBinding
  actor : AuthorityId
  atTime : Nat
  change : Change

/-! ## Map keys -/

theorem Subject.key_injective : Function.Injective Subject.key := by
  intro a b h
  cases a with
  | member id =>
    cases b with
    | member id' => simpa [Subject.key] using h
    | project q => simp [Subject.key] at h
  | project p =>
    cases b with
    | member id' => simp [Subject.key] at h
    | project q =>
      obtain ⟨authority, id⟩ := p
      obtain ⟨authority', id'⟩ := q
      simpa [Subject.key] using h

theorem BudgetKey.key_injective : Function.Injective BudgetKey.key := by
  intro a b h
  obtain ⟨hf, hs⟩ := List.cons.inj h
  cases a
  cases b
  simp only [BudgetKey.mk.injEq]
  exact ⟨hf, Subject.key_injective hs⟩

instance : TransOrd BudgetKey := inferInstanceAs (TransCmp (compareOn BudgetKey.key))

instance : LawfulEqOrd BudgetKey where
  compare_self := by
    intro a
    exact ReflCmp.compare_self
  eq_of_compare h := BudgetKey.key_injective (LawfulEqOrd.eq_of_compare h)

instance : TransOrd Currency := inferInstanceAs (TransCmp (compareOn Currency.code))

instance : LawfulEqOrd Currency where
  compare_self := by
    intro a
    exact ReflCmp.compare_self
  eq_of_compare h := by
    rename_i a b
    have hcode : a.code = b.code := LawfulEqOrd.eq_of_compare h
    cases a
    cases b
    cases hcode
    rfl

end GaugeDesk.ModelConnection
