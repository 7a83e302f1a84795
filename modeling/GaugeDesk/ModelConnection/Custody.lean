import GaugeDesk.ModelConnection.SpendSteps

/-!
# Model connections: what one admitted command does to connections and handles

An admitted command leaves connections and used handles alone, begins a
connection, seals a candidate with an unused handle, or takes one connection
through a `Turn`, which lists the guards and the next connection:

    Step s c es s'  →  CustodyStep s s' (sealings es)  (custodyStep)
-/

namespace GaugeDesk.ModelConnection

open Std TreeMap

variable {f : Connection → Connection} {evidence : ObservationId} {s t s' : State}
  {id : ModelConnectionId} {c c' d : Connection} {version : CredentialVersionId} {gone : Bool}
  {handles : List (ModelConnectionId × CredentialVersionId × SecretHandleId)}

/-! ## Turns of one connection -/

/-- Every other version's material is gone, and the erasure was requested. -/
def Connection.lastMaterial (c : Connection) (version : CredentialVersionId) : Bool :=
  c.erasureRequested && c.versions.toList.all fun p => p.1 == version || p.2.material.gone

/-- The connection that an erasure starts from: revoked, if it was not terminal. -/
def Connection.closed (c : Connection) : Connection := if c.mutable then c.revoke else c

/-- `Connection` after an erasure was requested. -/
def Connection.requested (c : Connection) : Connection :=
  { c.closed with
    erasureRequested := true
    versions := c.closed.versions.map fun _ item =>
      { item with material := item.material.requireErasure }
    status := if c.materialGone then .erased else c.closed.status }

/-- What a command does to an existing connection, a seal apart. -/
inductive Turn (c : Connection) : Connection → Prop
  | replace (version : CredentialVersionId) (expiresAt : Nat) (hmut : c.mutable = true)
      (hnew : c.versions[version]? = none)
      (hnone : c.versions.Each fun item => item.phase.isOpen = false) :
      Turn c { c with versions := c.versions.insert version (newVersion expiresAt) }
  | verify (version : CredentialVersionId) (item : Version) (evidence : ObservationId)
      (verification : Option Verification) (hmut : c.mutable = true)
      (hl : c.versions[version]? = some item) (hphase : item.phase = .sealed) :
      Turn c { c with
        versions := c.versions.insert version
          { item with phase := .verified evidence, verification := verification } }
  | activate (version : CredentialVersionId) (item : Version) (evidence : ObservationId)
      (hmut : c.mutable = true) (hl : c.versions[version]? = some item)
      (hphase : item.phase = .verified evidence) (hheld : item.material.isHeld = true)
      (hver : item.verification.isSome = true) :
      Turn c { c with
        versions := c.versions.insert version { item with phase := .activated evidence }
        currentVersion := some version
        status := if c.status = .pending then .active else c.status }
  | discard (version : CredentialVersionId) (item : Version) (phase : VersionPhase)
      (verification : Option Verification) (hl : c.versions[version]? = some item)
      (hopen : item.phase.isOpen = true)
      (hphase : phase.isOpen = false ∧ phase.isActivated = false) :
      Turn c { c with
        versions := c.versions.insert version
          { item with
            phase := phase, verification := verification
            material := item.material.requireErasure } }
  | define (definition : ConnectionDefinition) (hmut : c.mutable = true) :
      Turn c { c with definition := definition }
  | suspend (hstatus : c.status = .active) : Turn c { c with status := .suspended }
  | resume (hstatus : c.status = .suspended) (husable : c.usableVersion.isSome = true) :
      Turn c { c with status := .active }
  | revoke (hmut : c.mutable = true) : Turn c c.revoke
  | request (hstatus : c.status ≠ .erased) (hreq : c.erasureRequested = false) : Turn c c.requested
  | erase (version : CredentialVersionId) (item : Version) (handle : Option SecretHandleId)
      (evidence : ObservationId) (hl : c.versions[version]? = some item)
      (hmaterial : item.material = .erasureRequired handle) :
      Turn c { c with
        versions := c.versions.insert version { item with material := .erased evidence }
        status := if c.lastMaterial version then .erased else c.status }

/-! ## Steps -/

/-- The pair and the handle that an event seals. -/
def Event.sealing (event : Event) :
    Option (ModelConnectionId × CredentialVersionId × SecretHandleId) :=
  match event.change with
  | .candidateSealed id version handle => some (id, version, handle)
  | _ => none

/-- The handles that a history binds, with their connections and versions. -/
def sealings (tr : List Event) : List (ModelConnectionId × CredentialVersionId × SecretHandleId) :=
  tr.filterMap (·.sealing)

/-- The connection `id` became `c`, and no other changed. -/
structure Put (s s' : State) (id : ModelConnectionId) (c : Connection) : Prop where
  connections : ∀ id', s'.connections[id']? = if id = id' then some c else s.connections[id']?
  usedHandles : s'.usedHandles = s.usedHandles

theorem Put.trans {u : State} (h : Put s t id c) (h' : Put t u id d) : Put s u id d := by
  refine ⟨fun id' => ?_, h'.usedHandles.trans h.usedHandles⟩
  rw [h'.connections, h.connections]
  by_cases hid : id = id'
  · rw [if_pos hid, if_pos hid]
  · rw [if_neg hid, if_neg hid, if_neg hid]

theorem Put.lookup (h : Put s t id d) : t.connections[id]? = some d := by
  rw [h.connections, if_pos rfl]

/-- What a command does to connections and handles. -/
inductive CustodyStep (s s' : State) :
    List (ModelConnectionId × CredentialVersionId × SecretHandleId) → Prop
  | same (hc : s'.connections = s.connections) (hu : s'.usedHandles = s.usedHandles) :
      CustodyStep s s' []
  | begin (id : ModelConnectionId) (c : Connection) (version : CredentialVersionId)
      (expiresAt : Nat) (hnew : s.connections[id]? = none) (hput : Put s s' id c)
      (hstatus : c.status = .pending) (hreq : c.erasureRequested = false)
      (hversions : c.versions =
        ({} : TreeMap CredentialVersionId Version).insert version (newVersion expiresAt))
      (hcurrent : c.currentVersion = none) : CustodyStep s s' []
  | turn (id : ModelConnectionId) (c c' : Connection) (hl : s.connections[id]? = some c)
      (hput : Put s s' id c') (ht : Turn c c') : CustodyStep s s' []
  | sealed (id : ModelConnectionId) (c : Connection) (version : CredentialVersionId)
      (item : Version) (handle : SecretHandleId) (hl : s.connections[id]? = some c)
      (hmut : c.mutable = true)
      (hv : c.versions[version]? = some item) (hmaterial : item.material = .unobserved)
      (hfresh : handle ∉ s.usedHandles)
      (hput : ∀ id', s'.connections[id']? = if id = id' then
        some { c with
          versions := c.versions.insert version
            { item with phase := .sealed, material := .held handle } }
        else s.connections[id']?)
      (hu : s'.usedHandles = insert handle s.usedHandles) (hphase : item.phase = .awaitingSecret) :
      CustodyStep s s' [(id, version, handle)]

/-- A connection stays, as it was or after a turn or a seal. -/
theorem CustodyStep.stays
    (h : CustodyStep s s' handles) (hc : s.connections[id]? = some c) :
    ∃ c', s'.connections[id]? = some c' ∧ (c' = c ∨ Turn c c' ∨
      c.mutable = true ∧ ∃ versions, c' = { c with versions := versions }) := by
  cases h with
  | same hsame hu => exact ⟨c, hsame ▸ hc, .inl rfl⟩
  | begin id' c' version expiresAt hnew hput hstatus hreq hversions =>
    rw [hput.connections]
    by_cases hid : id' = id
    · subst hid
      cases hc.symm.trans hnew
    · exact ⟨c, (if_neg hid).trans hc, .inl rfl⟩
  | turn id' d c' hl hput ht =>
    rw [hput.connections]
    by_cases hid : id' = id
    · subst hid
      cases hc.symm.trans hl
      exact ⟨c', if_pos rfl, .inr (.inl ht)⟩
    · exact ⟨c, (if_neg hid).trans hc, .inl rfl⟩
  | sealed id' d version item handle hl hmut hv hmaterial hfresh hput hu =>
    rw [hput]
    by_cases hid : id' = id
    · subst hid
      cases hc.symm.trans hl
      exact ⟨_, if_pos rfl, .inr (.inr ⟨hmut, _, rfl⟩)⟩
    · exact ⟨c, (if_neg hid).trans hc, .inl rfl⟩

/-- What a new connection has and every turn and seal keeps, all connections keep. -/
theorem CustodyStep.each {P : Connection → Prop}
    (h : CustodyStep s s' handles) (hi : s.connections.Each P)
    (hbegin : ∀ c version expiresAt, c.status = .pending → c.erasureRequested = false →
      c.currentVersion = none → c.versions =
        ({} : TreeMap CredentialVersionId Version).insert version (newVersion expiresAt) → P c)
    (hturn : ∀ c c', P c → Turn c c' → P c')
    (hseal : ∀ c version item handle, P c → c.mutable = true → c.versions[version]? = some item →
      item.phase = .awaitingSecret → P { c with
        versions := c.versions.insert version
          { item with phase := .sealed, material := .held handle } }) :
    s'.connections.Each P := by
  have hone : ∀ (id : ModelConnectionId) (c : Connection), (∀ id', s'.connections[id']? =
      if id = id' then some c else s.connections[id']?) → P c → s'.connections.Each P := by
    intro id c hput hc id' d hd
    rw [hput] at hd
    by_cases hid : id = id'
    · rw [if_pos hid] at hd
      cases hd
      exact hc
    · rw [if_neg hid] at hd
      exact hi id' d hd
  cases h with
  | same hc hu =>
    rw [hc]
    exact hi
  | begin id c version expiresAt hnew hput hstatus hreq hversions hcurrent =>
    exact hone id c hput.connections (hbegin c version expiresAt hstatus hreq hcurrent hversions)
  | turn id c c' hl hput ht => exact hone id c' hput.connections (hturn c c' (hi id c hl) ht)
  | sealed id c version item handle hl hmut hv hmaterial hfresh hput hu hphase =>
    exact hone id _ hput (hseal c version item handle (hi id c hl) hmut hv hphase)

/-! ## Folding the changes of one connection -/

section
variable {c : Command} {change : Change} {current : Connection} {item : Version} {es : List Event}

theorem updateConnection_ok (hl : s.connections[id]? = some current) :
    updateConnection s id f = .ok { s with connections := s.connections.insert id (f current) } := by
  rw [updateConnection, hl]
  rfl

theorem updateVersion_ok {f : Version → Version} (hl : s.connections[id]? = some current)
    (hv : current.versions[version]? = some item) :
    updateVersion s id version f = .ok { s with
      connections := s.connections.insert id
        { current with versions := current.versions.insert version (f item) } } := by
  simp only [updateVersion, hl, hv, expect, bind, Except.bind]
  rfl

/-- The events fold, and leave the connection `d`. -/
def PutBy (s : State) (es : List Event) (id : ModelConnectionId) (d : Connection) : Prop :=
  ∃ s', modelConnection.evolveAll s es = .ok s' ∧ Put s s' id d

theorem PutBy.cons (h : evolveChange (s.stamp (c.event change)) c.now change =
      .ok { s.stamp (c.event change) with connections := s.connections.insert id c' })
    (hrest : ∀ t : State, t.connections[id]? = some c' → PutBy t es id d) :
    PutBy s (c.event change :: es) id d := by
  have hput : Put s { s.stamp (c.event change) with connections := s.connections.insert id c' } id c' :=
    ⟨fun _ => getElem?_insert_eq _ _ _ _, rfl⟩
  obtain ⟨s', hs', hput'⟩ := hrest _ hput.lookup
  exact ⟨s', (Reducer.evolveAll_cons_of_ok _ h es).trans hs', hput.trans hput'⟩

theorem PutBy.nil (hl : s.connections[id]? = some c') : PutBy s [] id c' := by
  refine ⟨s, rfl, fun id' => ?_, rfl⟩
  by_cases hid : id = id'
  · rw [if_pos hid, ← hid, hl]
  · rw [if_neg hid]

theorem PutBy.single (h : evolveChange (s.stamp (c.event change)) c.now change =
      .ok { s.stamp (c.event change) with connections := s.connections.insert id c' }) :
    PutBy s [c.event change] id c' :=
  .cons h fun _ => .nil

/-- The change that completes an erasure, where it is complete. -/
def erasedChanges (id : ModelConnectionId) (gone : Bool) : List Change :=
  if gone then [.connectionErased id] else []

/-- The changes of an erasure request. -/
def requestChanges (id : ModelConnectionId) (c : Connection) : List Change :=
  (if c.mutable then [.connectionRevoked id] else []) ++ [.erasureRequested id] ++
    erasedChanges id c.materialGone

section
variable (hl : s.connections[id]? = some current)
include hl

theorem erased_put : PutBy s ((erasedChanges id gone).map c.event) id
      { current with status := if gone then .erased else current.status } := by
  cases gone with
  | true => exact .single (updateConnection_ok hl)
  | false => exact .nil hl

/-- The changes of an erasure request, from the closed connection on. -/
theorem requested_put : PutBy s ((.erasureRequested id :: erasedChanges id gone).map c.event) id
      { current with
        erasureRequested := true
        versions := current.versions.map fun _ item =>
          { item with material := item.material.requireErasure }
        status := if gone then .erased else current.status } :=
  .cons (updateConnection_ok hl) fun _ => erased_put

theorem request_put : PutBy s ((requestChanges id current).map c.event) id current.requested := by
  unfold requestChanges Connection.requested Connection.closed
  cases current.mutable with
  | true => exact .cons (updateConnection_ok hl) fun _ => requested_put
  | false => exact requested_put hl

end

theorem verifiedEvidence_eq_ok (h : item.verifiedEvidence = .ok evidence) :
    item.phase = .verified evidence ∧ item.material.isHeld = true ∧
      item.verification.isSome = true := by
  unfold Version.verifiedEvidence at h
  split at h
  · next e hphase =>
    simp only [bind_eq_ok, require_eq_ok, pure_eq_ok] at h
    obtain ⟨-, hheld, -, hver, rfl⟩ := h
    exact ⟨hphase, hheld, hver⟩
  · cases h

/-- The changes fold, and do to connections and handles what a command may. -/
def CustodyBy (s : State) (es : List Event) : Prop :=
  ∃ s', modelConnection.evolveAll s es = .ok s' ∧ CustodyStep s s' (sealings es)

theorem PutBy.turn (hl : s.connections[id]? = some current) (h : PutBy s es id c') (ht : Turn current c')
    (hnone : sealings es = []) : CustodyBy s es := by
  obtain ⟨s', hs', hput⟩ := h
  exact ⟨s', hs', hnone ▸ .turn id current c' hl hput ht⟩

end

/-- An intake after a checked predecessor folds, with some family. -/
theorem intake_put {definition : ConnectionDefinition} {reconnects : Option ModelConnectionId}
    (c : Command) (id : ModelConnectionId) (version : CredentialVersionId) (expiresAt : Nat)
    (h : checkPredecessor s definition reconnects = .ok ()) :
    ∃ family, PutBy s [c.event (.intakeBegun id definition reconnects version expiresAt)] id
      { definition := definition, budgetFamily := family, status := .pending
        versions := ({} : TreeMap CredentialVersionId Version).insert version (newVersion expiresAt)
        currentVersion := none, erasureRequested := false } := by
  cases reconnects with
  | none => exact ⟨id, .single rfl⟩
  | some previous =>
    simp only [checkPredecessor, connection, bind_eq_ok, okOr_eq_ok] at h
    obtain ⟨old, hold, -⟩ := h
    refine ⟨old.budgetFamily, .single ?_⟩
    simp only [evolveChange, inheritedFamily, State.stamp, hold, expect, bind, Except.bind]
    rfl

theorem custodyStep_connection {c : Command} {op : Operation} {changes : List Change}
    (hop : op.isConnection = true) (hd : decideOperation s c.actor c.now op = .ok changes) :
    CustodyBy s (changes.map c.event) := by
  cases op
  all_goals simp only [decideOperation, connection, candidate, bind_eq_ok, require_eq_ok,
    okOr_eq_ok, Bool.and_eq_true, beq_iff_eq, bne_iff_ne, decide_eq_true_eq, Bool.not_eq_true',
    pure_eq_ok] at hd
  case grant | spend => cases hop
  case beginIntake id definition reconnects version expiresAt =>
    obtain ⟨-, hnew, -, -, u, hcheck, rfl⟩ := hd
    obtain ⟨family, s', hs', hput⟩ := intake_put c id version expiresAt hcheck
    rw [contains_eq_false_iff_none] at hnew
    exact ⟨s', hs', .begin id _ version expiresAt hnew hput rfl rfl rfl rfl⟩
  case beginReplacement id version expiresAt =>
    obtain ⟨current, hl, -, hmut, -, -, -, hnew, -, hnone, rfl⟩ := hd
    rw [contains_eq_false_iff_none] at hnew
    rw [List.any_eq_false, current.versions.forall_mem_toList_iff fun _ item =>
      ¬ item.phase.isOpen = true] at hnone
    refine PutBy.turn hl (.single (updateConnection_ok hl))
      (.replace version expiresAt hmut hnew fun v item hv => ?_) rfl
    exact Bool.eq_false_of_not_eq_true (hnone v item hv)
  case recordSealed id version handle =>
    obtain ⟨current, hl, item, hv, -, ⟨hmut, -⟩, -, ⟨hphase, hmaterial⟩, -, hfresh, rfl⟩ := hd
    have hfold : modelConnection.evolve s (c.event (.candidateSealed id version handle)) = .ok _ :=
      updateVersion_ok hl hv
    exact ⟨_, Reducer.evolveAll_cons_of_ok _ hfold [],
      .sealed id current version item handle hl hmut hv hmaterial hfresh
        (fun id' => getElem?_insert_eq _ _ _ _) rfl hphase⟩
  case recordVerification id version provider handle evidence check passed =>
    obtain ⟨current, hl, item, hv, -, ⟨hmut, -⟩, -, -, -, ⟨hphase, -⟩, rfl⟩ := hd
    cases passed with
    | true =>
      exact PutBy.turn hl (.single (updateVersion_ok hl hv))
        (.verify version item evidence (some ⟨check, c.now⟩) hmut hv hphase) rfl
    | false =>
      exact PutBy.turn hl (.single (updateVersion_ok hl hv))
        (.discard version item (.failed evidence) (some ⟨check, c.now⟩) hv (by rw [hphase]; rfl)
          ⟨rfl, rfl⟩) rfl
  case activate id version =>
    obtain ⟨current, hl, item, hv, -, ⟨hmut, -⟩, evidence, hev, rfl⟩ := hd
    obtain ⟨hphase, hheld, hver⟩ := verifiedEvidence_eq_ok hev
    refine PutBy.turn hl (.single ?_) (.activate version item evidence hmut hv hphase hheld hver) rfl
    simp only [Command.event, evolveChange, State.stamp, hl, hv, expect, bind, Except.bind]
    rfl
  case cancelCandidate id version =>
    obtain ⟨current, hl, item, hv, -, hopen, rfl⟩ := hd
    exact PutBy.turn hl (.single (updateVersion_ok hl hv))
      (.discard version item .cancelled item.verification hv hopen ⟨rfl, rfl⟩) rfl
  case expireCandidate id version =>
    obtain ⟨current, hl, item, hv, -, ⟨hopen, -⟩, rfl⟩ := hd
    exact PutBy.turn hl (.single (updateVersion_ok hl hv))
      (.discard version item .expired item.verification hv hopen ⟨rfl, rfl⟩) rfl
  case rename id | setModelPolicy id =>
    obtain ⟨current, hl, -, hmut, rfl⟩ := hd
    exact PutBy.turn hl (.single (updateConnection_ok hl)) (.define _ hmut) rfl
  case setDefault selection =>
    obtain ⟨-, -, rfl⟩ := hd
    exact ⟨_, rfl, .same rfl rfl⟩
  case suspend id =>
    obtain ⟨current, hl, -, hstatus, rfl⟩ := hd
    exact PutBy.turn hl (.single (updateConnection_ok hl)) (.suspend hstatus) rfl
  case resume id =>
    obtain ⟨current, hl, -, hstatus, -, husable, rfl⟩ := hd
    exact PutBy.turn hl (.single (updateConnection_ok hl)) (.resume hstatus husable) rfl
  case revoke id =>
    obtain ⟨current, hl, -, hmut, rfl⟩ := hd
    exact PutBy.turn hl (.single (updateConnection_ok hl)) (.revoke hmut) rfl
  case requestErasure id =>
    obtain ⟨current, hl, -, ⟨hstatus, hreq⟩, rfl⟩ := hd
    refine PutBy.turn hl (request_put hl) (.request hstatus hreq) ?_
    cases current.mutable <;> cases current.materialGone <;> rfl
  case recordMaterialErased id version expectedHandle evidence =>
    obtain ⟨current, hl, item, hv, -, hmaterial, rfl⟩ := hd
    simp only [← Bool.and_eq_true]
    refine PutBy.turn hl (.cons (updateVersion_ok hl hv) fun _ => erased_put)
      (.erase version item expectedHandle evidence hv hmaterial) ?_
    split <;> rfl

theorem custodyStep {c : Command} {es : List Event} (h : Step s c es s') :
    CustodyStep s s' (sealings es) := by
  cases h with
  | replay op hop hd => exact .same rfl rfl
  | spend op change s' hop hd he =>
    obtain ⟨a, ha⟩ := hd.folds (c.event (.spend change))
    cases he.symm.trans ha
    exact .same rfl rfl
  | grant op change s' hop hd he =>
    obtain ⟨grants, rfl⟩ := evolveGrant_eq_ok he
    exact .same rfl rfl
  | connection changes s' hop hc hd he hs =>
    obtain ⟨t, ht, hstep⟩ := custodyStep_connection hop hd
    cases he.symm.trans ht
    exact hstep

end GaugeDesk.ModelConnection
