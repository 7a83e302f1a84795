import GaugeDesk.ModelConnection.Spend

/-!
# Model connections: the lifecycle

`decide` and `evolve` of `model_connection.rs`.  A command names the binding it
was prepared for, the capability its actor was authenticated with, the basis it
read and the time; the operation then decides its changes.
-/

namespace GaugeDesk.ModelConnection

open Std

/-! ## Deciding -/

def candidate (current : Connection) (id : CredentialVersionId) : Except Fault Version :=
  okOr "unknown credential version" current.versions[id]?

def requiredCapability : Operation → Capability
  | .grant _ => .manageGrants
  | .spend operation => operation.capability
  | .recordSealed .. => .sealCandidate
  | .recordVerification .. => .verifyCandidate
  | .expireCandidate .. => .observeDeadline
  | .recordMaterialErased .. => .confirmErasure
  | _ => .manageConnections

/-- The operations an organization's closure may perform. -/
def Operation.closing : Operation → Bool
  | .revoke _ | .requestErasure _ | .grant (.revoke _) => true
  | _ => false

/-- A reconnection names a terminal connection of the same provider binding. -/
def checkPredecessor (state : State) (definition : ConnectionDefinition) :
    Option ModelConnectionId → Except Fault Unit
  | some previous => do
    let previous ← connection state previous
    require (!previous.mutable && previous.definition.provider == definition.provider)
      "reconnection requires a terminal predecessor with the same provider binding"
  | none => .ok ()

def checkSelection (state : State) : Option ModelSelection → Except Fault Unit
  | some value => do
    let current ← connection state value.connection
    require (current.activeVersion.isSome &&
      decide (value.model ∈ current.definition.policy.models) &&
      decide (current.definition.policy.executionClasses ≠ ∅))
      "default is not an active approved model"
  | none => .ok ()

/-- The verification an activation rests on. -/
def Version.verifiedEvidence (item : Version) : Except Fault ObservationId :=
  match item.phase with
  | .verified evidence => do
    require item.material.isHeld "verified material is unavailable"
    require item.verification.isSome
      "candidate verification does not identify the tested capability"
    return evidence
  | _ => reject "candidate has not passed verification"

def decideOperation (state : State) (actor : AuthorityId) (now : Nat) :
    Operation → Except Fault (List Change)
  | .grant operation => do
    let change ← decideGrant state operation
    return [.grant change]
  | .spend operation => do
    let change ← decideSpend state operation actor now
    return (change.map Change.spend).toList
  | .beginIntake id definition reconnects version expiresAt => do
    require (!state.connections.contains id) "connection identity already exists"
    require (decide (expiresAt > now)) "candidate deadline must be in the future"
    checkPredecessor state definition reconnects
    return [.intakeBegun id definition reconnects version expiresAt]
  | .beginReplacement id version expiresAt => do
    let current ← connection state id
    require current.mutable "connection is terminal"
    require (decide (expiresAt > now)) "candidate deadline must be in the future"
    require (!current.versions.contains version) "credential version identity already exists"
    require (!current.versions.toList.any fun p => p.2.phase.isOpen)
      "finish or cancel the existing candidate"
    return [.replacementBegun id version expiresAt]
  | .recordSealed id version handle => do
    let current ← connection state id
    let item ← candidate current version
    require (current.mutable && decide (now < item.expiresAt)) "candidate is no longer open"
    require (item.phase == .awaitingSecret && item.material == .unobserved)
      "candidate already received material"
    require (decide (handle ∉ state.usedHandles)) "secret handle already belongs to another version"
    return [.candidateSealed id version handle]
  | .recordVerification id version provider handle evidence check passed => do
    let current ← connection state id
    let item ← candidate current version
    require (current.mutable && decide (now < item.expiresAt)) "candidate is no longer open"
    require (current.definition.provider == provider)
      "verification targets a different provider binding"
    require (item.phase == .sealed && item.material == .held handle)
      "verification targets different or unsealed material"
    return [if passed then .candidateVerified id version evidence (some check)
      else .candidateFailed id version evidence (some check)]
  | .activate id version => do
    let current ← connection state id
    let item ← candidate current version
    require (current.mutable && decide (now < item.expiresAt)) "candidate is no longer activatable"
    let evidence ← item.verifiedEvidence
    return [.versionActivated id version evidence]
  | .cancelCandidate id version => do
    let current ← connection state id
    let item ← candidate current version
    require item.phase.isOpen "candidate is already terminal"
    return [.candidateCancelled id version]
  | .expireCandidate id version => do
    let current ← connection state id
    let item ← candidate current version
    require (item.phase.isOpen && decide (now ≥ item.expiresAt))
      "candidate has not expired or is terminal"
    return [.candidateExpired id version]
  | .rename id name => do
    let current ← connection state id
    require current.mutable "connection is terminal"
    return [.connectionRenamed id name]
  | .setModelPolicy id policy => do
    let current ← connection state id
    require current.mutable "connection is terminal"
    return [.modelPolicyChanged id policy]
  | .setDefault selection => do
    checkSelection state selection
    return [.defaultChanged selection]
  | .suspend id => do
    let current ← connection state id
    require (current.status == .active) "only active connections may be suspended"
    return [.connectionSuspended id]
  | .resume id => do
    let current ← connection state id
    require (current.status == .suspended) "connection is not suspended"
    require current.usableVersion.isSome "current credential is unavailable"
    return [.connectionResumed id]
  | .revoke id => do
    let current ← connection state id
    require current.mutable "connection is already terminal"
    return [.connectionRevoked id]
  | .requestErasure id => do
    let current ← connection state id
    require (current.status != .erased && !current.erasureRequested)
      "erasure is already requested or complete"
    return (if current.mutable then [.connectionRevoked id] else []) ++ [.erasureRequested id] ++
      (if current.materialGone then [.connectionErased id] else [])
  | .recordMaterialErased id version expectedHandle evidence => do
    let current ← connection state id
    let item ← candidate current version
    require (item.material == .erasureRequired expectedHandle)
      "erasure does not match an outstanding cleanup obligation"
    return .materialErased id version evidence ::
      (if current.erasureRequested &&
          current.versions.toList.all fun p => p.1 == version || p.2.material.gone
        then [.connectionErased id] else [])

def Change.isSpend : Change → Bool
  | .spend _ => true
  | _ => false

def Operation.checkBasis (state : State) (basis : Basis) : Operation → Except Fault Unit
  | .spend operation => ModelConnection.checkBasis state operation basis
  | _ => require (basis == .metadata state.revision) "stale connection authority basis"

def Command.event (command : Command) (change : Change) : Event :=
  ⟨command.binding, command.actor, command.now, change⟩

def State.decide (state : State) (command : Command) : Except Fault (List Event) := do
  require (state.binding.all fun current => current == command.binding)
    "wrong connection authority, organization or environment"
  command.operation.checkBasis state command.basis
  require (Decidable.decide (command.now > 0) && Decidable.decide (command.now ≥ state.lastAt))
    "invalid or stale observation time"
  require (command.capability == requiredCapability command.operation ||
    command.capability == .organizationClosure && command.operation.closing)
    "operation not permitted by authenticated capability"
  let changes ← decideOperation state command.actor command.now command.operation
  require (checkedAdd64 state.revision (changes.countP fun change => !change.isSpend)).isSome
    "connection authority revision exhausted"
  return changes.map command.event

/-! ## Evolving -/

def newVersion (expiresAt : Nat) : Version :=
  { expiresAt := expiresAt, phase := .awaitingSecret, material := .unobserved, verification := none }

/-- A reconnection keeps its predecessor's budget family. -/
def inheritedFamily (state : State) (id : ModelConnectionId) :
    Option ModelConnectionId → Except Fault ModelConnectionId
  | some previous => do
    let previous ← expect "no entry found for key" state.connections[previous]?
    return previous.budgetFamily
  | none => .ok id

/-- `stored_connection`, followed by a change of the connection. -/
def updateConnection (state : State) (id : ModelConnectionId) (f : Connection → Connection) :
    Except Fault State := do
  let current ← expect "admitted event names an existing connection" state.connections[id]?
  return { state with connections := state.connections.insert id (f current) }

/-- `stored_version`, followed by a change of the version. -/
def updateVersion (state : State) (id : ModelConnectionId) (version : CredentialVersionId)
    (f : Version → Version) : Except Fault State := do
  let current ← expect "admitted event names an existing connection" state.connections[id]?
  let item ← expect "admitted event names an existing version" current.versions[version]?
  let updated := { current with versions := current.versions.insert version (f item) }
  return { state with connections := state.connections.insert id updated }

/-- The change of one event, after the binding, the revision and the time. -/
def evolveChange (state : State) (atTime : Nat) : Change → Except Fault State
  | .grant change => evolveGrant state change
  | .spend change => evolveSpend state change
  | .intakeBegun id definition reconnects version expiresAt => do
    let budgetFamily ← inheritedFamily state id reconnects
    let begun : Connection :=
      { definition := definition, budgetFamily := budgetFamily, status := .pending
        versions := ({} : TreeMap CredentialVersionId Version).insert version (newVersion expiresAt)
        currentVersion := none, erasureRequested := false }
    return { state with connections := state.connections.insert id begun }
  | .replacementBegun id version expiresAt =>
    updateConnection state id fun current =>
      { current with versions := current.versions.insert version (newVersion expiresAt) }
  | .candidateSealed id version handle =>
    updateVersion { state with usedHandles := insert handle state.usedHandles } id version fun item =>
      { item with phase := .sealed, material := .held handle }
  | .candidateVerified id version evidence check =>
    updateVersion state id version fun item =>
      { item with phase := .verified evidence, verification := check.map (⟨·, atTime⟩) }
  | .candidateFailed id version evidence check =>
    updateVersion state id version fun item =>
      { item with
        phase := .failed evidence
        verification := check.map (⟨·, atTime⟩)
        material := item.material.requireErasure }
  | .candidateCancelled id version =>
    updateVersion state id version fun item =>
      { item with phase := .cancelled, material := item.material.requireErasure }
  | .candidateExpired id version =>
    updateVersion state id version fun item =>
      { item with phase := .expired, material := item.material.requireErasure }
  | .versionActivated id version evidence => do
    let current ← expect "admitted event names an existing connection" state.connections[id]?
    let item ← expect "admitted version" current.versions[version]?
    let activated := { current with
      versions := current.versions.insert version { item with phase := .activated evidence }
      currentVersion := some version
      status := if current.status = .pending then .active else current.status }
    return { state with connections := state.connections.insert id activated }
  | .connectionRenamed id name =>
    updateConnection state id fun current =>
      { current with definition := { current.definition with name := name } }
  | .modelPolicyChanged id policy =>
    updateConnection state id fun current =>
      { current with definition := { current.definition with policy := policy } }
  | .defaultChanged selection => .ok { state with default := selection }
  | .connectionSuspended id => updateConnection state id fun current => { current with status := .suspended }
  | .connectionResumed id => updateConnection state id fun current => { current with status := .active }
  | .connectionRevoked id => updateConnection state id Connection.revoke
  | .erasureRequested id =>
    updateConnection state id fun current =>
      { current with
        erasureRequested := true
        versions := current.versions.map fun _ item =>
          { item with material := item.material.requireErasure } }
  | .materialErased id version evidence =>
    updateVersion state id version fun item => { item with material := .erased evidence }
  | .connectionErased id => updateConnection state id fun current => { current with status := .erased }

def State.stamp (state : State) (event : Event) : State :=
  { state with
    binding := some event.binding
    revision := if event.change.isSpend then state.revision else state.revision + 1
    lastAt := event.atTime }

def State.evolve (state : State) (event : Event) : Except Fault State :=
  evolveChange (state.stamp event) event.atTime event.change

/-- `impl Lifecycle for ModelConnection`. -/
def modelConnection : Reducer State Command Event Fault where
  init := {}
  decide := State.decide
  evolve := State.evolve

end GaugeDesk.ModelConnection
