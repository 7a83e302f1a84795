import GaugeDesk.Lib.OrderedMap
import GaugeDesk.ModelConnection.ConnectionTypes

/-!
# Model connections: grants

`access.rs`: the grant operations, and `applicable`, which authorizes an
invocation through at least one grant and returns every active grant of the
invocation's subjects on its connection.

    applicable s i e actor = ok gs → gs is matchingGrants s i, and i.connection
      is active with i.version  (applicable_eq_ok)
-/

namespace GaugeDesk.ModelConnection

open Std

/-! ## Algorithm -/

def connection (state : State) (id : ModelConnectionId) : Except Fault Connection :=
  okOr "unknown connection" state.connections[id]?

def grant (state : State) (id : ModelGrantId) : Except Fault Grant :=
  okOr "unknown model grant" state.grants[id]?

def Subject.isMember : Subject → Bool
  | .member _ => true
  | .project _ => false

def validDefinition (state : State) (definition : GrantDefinition) : Except Fault Unit := do
  let current ← connection state definition.connection
  require current.mutable "cannot grant a terminal connection"
  require (decide (definition.policy.models ≠ ∅) &&
    decide (definition.policy.models ⊆ current.definition.policy.models) &&
    decide (definition.policy.executionClasses ≠ ∅) &&
    decide (definition.policy.executionClasses ⊆ current.definition.policy.executionClasses))
    "grant models or execution classes are not approved"
  require (decide (definition.audiences ≠ ∅)) "grant requires an admitted audience"
  if definition.subject.isMember then
    require (decide (definition.audiences = {.member}) &&
      decide (.publicDirect ∉ definition.policy.executionClasses))
      "a member grant cannot fund another principal or public deployment"

/-- `revision.checked_add(1).is_some()`. -/
def canRevise (revision : Nat) : Bool := (checkedAdd64 revision 1).isSome

def decideGrant (state : State) : GrantOperation → Except Fault GrantChange
  | .setCaps id caps => do
    let current ← grant state id
    require (current.status != .revoked) "grant is terminal"
    let target ← connection state current.definition.connection
    require target.mutable "connection is terminal"
    require (canRevise current.revision) "grant revision exhausted"
    return .capsChanged id caps
  | .create id definition subjectAdmission => do
    require (!state.grants.contains id) "grant identity already exists"
    validDefinition state definition
    let target ← connection state definition.connection
    let budget : BudgetKey := ⟨target.budgetFamily, definition.subject⟩
    return .created id ⟨definition, budget, 1, .active⟩ subjectAdmission
  | .edit id policy audiences caps => do
    let current ← grant state id
    require (current.status != .revoked) "grant is terminal"
    require (canRevise current.revision) "grant revision exhausted"
    validDefinition state
      { current.definition with policy := policy, audiences := audiences, caps := caps }
    return .edited id policy audiences caps
  | .suspend id => do
    let current ← grant state id
    require (current.status == .active) "grant is not active"
    require (canRevise current.revision) "grant revision exhausted"
    return .suspended id
  | .resume id subjectAdmission => do
    let current ← grant state id
    require (current.status == .suspended) "grant is not suspended"
    require (canRevise current.revision) "grant revision exhausted"
    validDefinition state current.definition
    return .resumed id subjectAdmission
  | .revoke id => do
    let current ← grant state id
    require (current.status != .revoked) "grant is already revoked"
    require (canRevise current.revision) "grant revision exhausted"
    return .revoked id

/-- `grants.get_mut(id).expect("admitted grant")`, followed by a change and a new revision. -/
def reviseGrant (state : State) (id : ModelGrantId) (f : Grant → Grant) : Except Fault State := do
  let current ← expect "admitted grant" state.grants[id]?
  return { state with
    grants := state.grants.insert id { f current with revision := current.revision + 1 } }

def evolveGrant (state : State) : GrantChange → Except Fault State
  | .capsChanged id caps =>
    reviseGrant state id fun grant => { grant with definition := { grant.definition with caps := caps } }
  | .created id grant _ => .ok { state with grants := state.grants.insert id grant }
  | .edited id policy audiences caps =>
    reviseGrant state id fun grant => { grant with
      definition := { grant.definition with policy := policy, audiences := audiences, caps := caps } }
  | .suspended id => reviseGrant state id fun grant => { grant with status := .suspended }
  | .resumed id _ => reviseGrant state id fun grant => { grant with status := .active }
  | .revoked id => reviseGrant state id fun grant => { grant with status := .revoked }

/-- The invocation acts for the subject: its initiating member, or its project. -/
def Subject.matches (invocation : Invocation) : Subject → Bool
  | .member id => invocation.initiator == .member id
  | .project p => invocation.project == some p

/-- The active grants of the invocation's subjects on its connection, in key order. -/
def activeGrants (state : State) (invocation : Invocation) : List (ModelGrantId × Grant) :=
  state.grants.toList.filter fun p =>
    p.2.status == .active && p.2.definition.connection == invocation.connection &&
      p.2.definition.subject.matches invocation

def Grant.authorizes (g : Grant) (invocation : Invocation) : Bool :=
  decide (invocation.model ∈ g.definition.policy.models) &&
    decide (invocation.executionClass ∈ g.definition.policy.executionClasses) &&
    decide (invocation.initiator.principalClass ∈ g.definition.audiences) &&
    (invocation.executionClass != .publicDirect || !g.definition.subject.isMember)

def ApplicableGrant.of (p : ModelGrantId × Grant) : ApplicableGrant :=
  ⟨p.1, p.2.revision, p.2.budget, p.2.definition.caps⟩

def matchingGrants (state : State) (invocation : Invocation) : List ApplicableGrant :=
  (activeGrants state invocation).map ApplicableGrant.of

def checkExecutionClass (invocation : Invocation) (evidence : ExecutionEvidence) :
    Except Fault Unit :=
  match invocation.executionClass with
  | .privateBroker =>
    require (evidence.privatePlaintextAdmitted && !invocation.initiator.isPublicSession &&
      (invocation.project.isNone || invocation.home.isSome))
      "private broker is not an admitted plaintext recipient"
  | .publicDirect =>
    require (evidence.publicDeploymentAndBudgetAdmitted && invocation.project.isSome &&
      invocation.home.isNone && invocation.initiator.isPublicSession)
      "public use requires owner-admitted project deployment and budget"

def applicable (state : State) (invocation : Invocation) (evidence : ExecutionEvidence)
    (actor : AuthorityId) : Except Fault (List ApplicableGrant) := do
  require (invocation.finalFetch == actor) "wrong final-fetch actor"
  require (evidence.observed == invocation && evidence.currentIdentityAndWork &&
    evidence.fundingAdmitted)
    "current identity, work or funding admission is missing or mismatched"
  checkExecutionClass invocation evidence
  let current ← connection state invocation.connection
  require (current.activeVersion == some invocation.version &&
    current.definition.provider == invocation.provider &&
    decide (invocation.model ∈ current.definition.policy.models) &&
    decide (invocation.executionClass ∈ current.definition.policy.executionClasses))
    "connection, version, provider, model or execution class is not current"
  require ((activeGrants state invocation).any fun p => p.2.authorizes invocation)
    "no current grant authorizes this invocation"
  return matchingGrants state invocation

def budgets (grants : List ApplicableGrant) : TreeMap BudgetKey (List Caps) :=
  grants.foldl (fun result grant =>
    result.insert grant.budget (result.getD grant.budget [] ++ [grant.caps])) {}

/-! ## Lemmas -/

/-- What no change of a grant touches. -/
structure Grant.SameOwner (g g' : Grant) : Prop where
  budget : g'.budget = g.budget
  connection : g'.definition.connection = g.definition.connection
  subject : g'.definition.subject = g.definition.subject

theorem Grant.SameOwner.refl (g : Grant) : g.SameOwner g := ⟨rfl, rfl, rfl⟩

theorem evolveGrant_eq_ok {s s' : State} {change : GrantChange}
    (h : evolveGrant s change = .ok s') : ∃ grants, s' = { s with grants := grants } := by
  have hrevise : ∀ id f, reviseGrant s id f = .ok s' → ∃ grants, s' = { s with grants := grants } := by
    intro id f hr
    simp only [reviseGrant, bind_eq_ok, pure_eq_ok] at hr
    obtain ⟨g, -, rfl⟩ := hr
    exact ⟨_, rfl⟩
  cases change with
  | created =>
    cases h
    exact ⟨_, rfl⟩
  | _ => exact hrevise _ _ h

theorem status_of_activeVersion {c : Connection} {version : CredentialVersionId}
    (h : c.activeVersion = some version) : c.status = .active := by
  unfold Connection.activeVersion at h
  by_contra hne
  rw [if_pos (.inl hne)] at h
  cases h

theorem applicable_eq_ok {s : State} {invocation : Invocation} {evidence : ExecutionEvidence}
    {actor : AuthorityId} {grants : List ApplicableGrant}
    (h : applicable s invocation evidence actor = .ok grants) :
    grants = matchingGrants s invocation ∧
      ∃ c, s.connections[invocation.connection]? = some c ∧
        c.activeVersion = some invocation.version := by
  simp only [applicable, connection, bind_eq_ok, require_eq_ok, okOr_eq_ok,
    Bool.and_eq_true, beq_iff_eq, pure_eq_ok] at h
  obtain ⟨-, -, -, -, -, -, c, hc, -, ⟨⟨⟨hv, -⟩, -⟩, -⟩, -, -, rfl⟩ := h
  exact ⟨rfl, c, hc, hv⟩

end GaugeDesk.ModelConnection
