import GaugeDesk.Vault.VaultModel

/-!
# GaugeVault: what one admitted command does

`Move s now capability operation change s'` lists, once per operation and
change, the guards that held and the folded state; a step stamps the header and
moves:

    what is decided and folded is a Step  (vault_admits)

Folding may panic on a state whose current candidate has no reference; on the
reachable ones it does not (`VaultInvariant`).
-/

namespace GaugeDesk.Vault

open Std Option Except TreeMap

variable {s retired : VaultState} {id reference : String} {candidate : Candidate}
  {c : Command}

/-! ## Moves -/

/-- The admitted operations on a state with its header written. -/
inductive Move (s : VaultState) (now : Nat) :
    Capability → Operation → Change → VaultState → Prop
  | create (tenantPrefix : String) (hstatus : s.status = .absent)
      (hhex : canonicalHex128 tenantPrefix.toList = true) :
      Move s now .manage (.create tenantPrefix) (.created tenantPrefix)
        { s with tenantPrefix := some tenantPrefix, status := .pending }
  | begin (id : String) (kind : CredentialKind) (marker storageName : String) (deadline : Nat)
      (hopen : s.status.isOpen = true) (hdeadline : now < deadline) (hnew : s.candidates[id]? = none)
      (hhex : canonicalIntakeMarker marker = true)
      (hmarker : ∀ (i : String) used, s.intakeMarkers[i]? = some used → used ≠ marker)
      (hmatch : s.tenantPrefix.any (candidateNameMatchesPrefix storageName) = true)
      (hname : ∀ (i : String) used, s.candidateStorageNames[i]? = some used → used ≠ storageName) :
      Move s now .manage (.beginCandidate id kind marker storageName deadline)
        (.candidateBegun id kind marker storageName deadline)
        { s with
          intakeMarkers := s.intakeMarkers.insert id marker
          candidateStorageNames := s.candidateStorageNames.insert id storageName
          candidateKinds := s.candidateKinds.insert id kind
          candidates := s.candidates.insert id (.awaitingStore deadline) }
  | store (id reference : String) (deadline : Nat) (hkind : s.candidateKinds[id]?.isSome = true)
      (hl : s.candidates[id]? = some (.awaitingStore deadline)) (hfresh : reference ∉ s.usedReferences)
      (hdeadline : now < deadline) (hopen : s.status.isOpen = true) :
      Move s now .intakeReceipt (.recordStored id reference) (.candidateStored id reference)
        { s with
          usedReferences := insert reference s.usedReferences
          candidates := s.candidates.insert id (.stored reference deadline) }
  | observe (id reference : String) (candidate : Candidate)
      (hkind : s.candidateKinds[id]?.isSome = true) (hl : s.candidates[id]? = some candidate)
      (hunobserved : candidate.isUnobserved = true) (hstatus : s.status ≠ .erased)
      (hfresh : reference ∉ s.usedReferences) :
      Move s now .intakeReceipt (.recordStored id reference)
        (.candidateCleanupRequired id (some reference))
        { s with
          usedReferences := insert reference s.usedReferences
          candidates := s.candidates.insert id (.cleanupRequired (some reference)) }
  | activate (id reference : String) (deadline : Nat) (retired : VaultState)
      (hkind : s.candidateKinds[id]?.isSome = true)
      (hl : s.candidates[id]? = some (.stored reference deadline)) (hopen : s.status.isOpen = true)
      (hdeadline : now < deadline) (hretire : s.retireCurrent = .ok retired) :
      Move s now .manage (.activate id) (.candidateActivated id)
        { retired with
          candidates := retired.candidates.insert id (.active reference)
          current := some id, status := .active }
  | cancel (id : String) (candidate : Candidate) (hl : s.candidates[id]? = some candidate)
      (hintake : candidate.intakeDeadline ≠ none) :
      Move s now .manage (.cancelCandidate id) (.candidateCleanupRequired id candidate.reference)
        { s with
          usedReferences :=
            candidate.reference.elim s.usedReferences fun r => insert r s.usedReferences
          candidates := s.candidates.insert id (.cleanupRequired candidate.reference) }
  | expire (id : String) (candidate : Candidate) (deadline : Nat)
      (hl : s.candidates[id]? = some candidate) (hintake : candidate.intakeDeadline = some deadline)
      (hdeadline : deadline ≤ now) :
      Move s now .observeDeadline (.expireCandidate id)
        (.candidateCleanupRequired id candidate.reference)
        { s with
          usedReferences :=
            candidate.reference.elim s.usedReferences fun r => insert r s.usedReferences
          candidates := s.candidates.insert id (.cleanupRequired candidate.reference) }
  | clean (id evidence : String) (candidate : Candidate) (hl : s.candidates[id]? = some candidate)
      (hcleanable : candidate.isCleanable = true) :
      Move s now .confirmCleanup (.recordCleaned id evidence) (.candidateCleaned id evidence)
        { s with
          candidateKinds := s.candidateKinds.erase id
          candidates := s.candidates.insert id (.cleaned evidence candidate.reference) }
  | revoke (retired : VaultState) (hopen : s.status.isOpen = true)
      (hretire : s.retireCurrent = .ok retired) :
      Move s now .manage .revoke .revoked { retired with status := .revoked }
  | fence (capability : Capability) (hcap : capability = .manage ∨ capability = .ownerClosure)
      (hstatus : s.status.isOpen = true ∨ s.status = .revoked) :
      Move s now capability .fenceErasure .erasureFenced
        { s with
          status := .erasureFenced, current := none
          candidates := s.candidates.map fun _ candidate => candidate.fence }
  | erase (evidence : String) (hstatus : s.status = .erasureFenced)
      (hall : s.candidates.Each fun candidate => candidate.isCleaned = true) :
      Move s now .confirmCleanup (.confirmErasure evidence) (.erased evidence)
        { s with status := .erased }
  | dispatch (id : String) (effect : Effect) (reference grantEvidence fenceEvidence current : String)
      (hstatus : s.status = .active) (hnew : s.dispatches[id]? = none)
      (hcurrent : s.current = some current) (hl : s.candidates[current]? = some (.active reference)) :
      Move s now .admitFinalUse (.dispatch id effect reference grantEvidence fenceEvidence)
        (.dispatched id effect reference grantEvidence fenceEvidence)
        { s with
          dispatches := s.dispatches.insert id { effect, reference, grantEvidence, fenceEvidence } }
  | unknown (id evidence : String) (dispatch : DispatchRecord) (hl : s.dispatches[id]? = some dispatch)
      (hphase : dispatch.phase = .dispatched) :
      Move s now .confirmFinalUse (.outcomeUnknown id evidence) (.dispatchOutcomeUnknown id evidence)
        { s with
          dispatches := s.dispatches.insert id
            { dispatch with phase := .unknown, outcomeEvidence := some evidence } }
  | settle (id : String) (outcome : UseOutcome) (evidence : String) (dispatch : DispatchRecord)
      (hl : s.dispatches[id]? = some dispatch) (hphase : dispatch.phase ≠ .settled) :
      Move s now .confirmFinalUse (.settleDispatch id outcome evidence)
        (.dispatchSettled id outcome evidence)
        { s with
          dispatches := s.dispatches.insert id
            { dispatch with
              phase := .settled, outcome := some outcome, outcomeEvidence := some evidence } }

/-- One admitted command: the header is current, and the state moves under the new one. -/
structure Step (s : VaultState) (c : Command) (es : List Event) (s' : VaultState) : Prop where
  revision : s.revision = c.expectedRevision
  time : c.now ≠ 0 ∧ s.lastAt ≤ c.now
  binding : ∀ binding, s.binding = some binding → binding = c.binding
  moves : ∃ change, es = [⟨c.binding, c.now, change⟩] ∧
    Move (s.stamp c.binding c.now) c.now c.capability c.operation change s'

/-! ## Retiring the current candidate -/

theorem exactReference_eq_ok {message : String} : s.exactReference id message = .ok reference ↔
      ∃ candidate, s.candidates[id]? = some candidate ∧ candidate.reference = some reference := by
  unfold VaultState.exactReference
  simp only [bind_eq_ok, expect_eq_ok]

theorem retireCurrent_cases (h : s.retireCurrent = .ok retired) : (s.current = none ∧ retired = s) ∨
      ∃ old candidate reference, s.current = some old ∧ s.candidates[old]? = some candidate ∧
        candidate.reference = some reference ∧
        retired = { s with
          current := none, candidates := s.candidates.insert old (.retired reference) } := by
  unfold VaultState.retireCurrent at h
  cases hcur : s.current with
  | none =>
    rw [hcur] at h
    exact .inl ⟨rfl, (ok.inj h).symm⟩
  | some old =>
    rw [hcur] at h
    obtain ⟨reference, hexact, hret⟩ := bind_eq_ok.mp h
    obtain ⟨candidate, hl, href⟩ := exactReference_eq_ok.mp hexact
    exact .inr ⟨old, candidate, reference, rfl, hl, href, (ok.inj hret).symm⟩

theorem retireCurrent_reference (h : s.retireCurrent = .ok retired)
    (hl : s.candidates[id]? = some candidate) :
    ∃ next, retired.candidates[id]? = some next ∧ next.reference = candidate.reference := by
  rcases retireCurrent_cases h with ⟨-, rfl⟩ | ⟨old, c, reference, -, hold, href, rfl⟩
  · exact ⟨candidate, hl, rfl⟩
  · by_cases hid : old = id
    · subst hid
      rw [hl, some.injEq] at hold
      exact ⟨.retired reference, getElem?_insert_self, by rw [hold, href]; rfl⟩
    · exact ⟨candidate, by rw [getElem?_insert_eq, if_neg hid, hl], rfl⟩

theorem retireCurrent_status (s : VaultState) (status : Status) :
    ({ s with status }).retireCurrent = s.retireCurrent.map fun retired => { retired with status } := by
  unfold VaultState.retireCurrent
  cases hcur : s.current with
  | none => simp only [Except.map, ← hcur]
  | some old =>
    show (s.exactReference old _ >>= _) = (s.exactReference old _ >>= _).map _
    cases s.exactReference old "active candidate has an exact reference" <;> rfl

/-! ## What is decided and folded is a step -/

theorem hasValue_eq_false {map : TreeMap String String} {value : String} :
    ¬ hasValue map value = true ↔ ∀ (i : String) used, map[i]? = some used → used ≠ value := by
  unfold hasValue
  rw [List.any_eq_true, not_exists, ← forall_mem_toList_iff]
  constructor
  · intro h p hp heq
    exact h p ⟨hp, beq_iff_eq.mpr heq⟩
  · rintro h p ⟨hp, heq⟩
    exact h p hp (beq_iff_eq.mp heq)

theorem activeReference_eq_some :
    candidate.activeReference = some reference ↔ candidate = .active reference := by
  cases candidate <;> simp [Candidate.activeReference]

theorem VaultState.activeReference_eq_some (h : s.activeReference = some reference) :
    ∃ current, s.current = some current ∧ s.candidates[current]? = some (.active reference) := by
  simp only [VaultState.activeReference, ite_none_left_eq_some, bind_eq_bind,
    bind_eq_some_iff] at h
  obtain ⟨-, -, -, current, hcurrent, candidate, hl, hactive⟩ := h
  rw [Vault.activeReference_eq_some.mp hactive] at hl
  exact ⟨current, hcurrent, hl⟩

section
variable {capability : Capability} {operation : Operation} {now : Nat} {change : Change}

/-- The change is folded, and that is a move. -/
def Moved (s : VaultState) (now : Nat) (capability : Capability) (operation : Operation)
    (change : Change) : Prop :=
  ∃ s', s.apply change = .ok s' ∧ Move s now capability operation change s'

/-- The current candidate cannot be retired, nor the change be folded. -/
def Stuck (s : VaultState) (change : Change) : Prop :=
  (∀ retired, s.retireCurrent ≠ .ok retired) ∧ ∀ s', s.apply change ≠ .ok s'

theorem moved_recordStored
    (hc : s.changeOf capability now (.recordStored id reference) = some change) :
    Moved s now capability (.recordStored id reference) change := by
  obtain ⟨⟨rfl, hkind, hun, hstatus, hfresh⟩, hchange⟩ := ite_none_right_eq_some.mp hc
  obtain ⟨candidate, hl, hun⟩ := (any_eq_true _ _).mp hun
  have hobserve : Moved s now .intakeReceipt (.recordStored id reference)
      (.candidateCleanupRequired id (some reference)) :=
    ⟨_, rfl, .observe id reference candidate hkind hl hun hstatus hfresh⟩
  cases candidate with
  | awaitingStore deadline =>
    simp only [VaultState.receiptChange, hl, some.injEq] at hchange
    by_cases hopen : now < deadline ∧ s.status.isOpen = true
    · rw [if_pos hopen] at hchange
      subst hchange
      refine ⟨_, ?_, .store id reference deadline hkind hl hfresh hopen.1 hopen.2⟩
      simp only [VaultState.apply, hl]
    · rw [if_neg hopen] at hchange
      exact hchange ▸ hobserve
  | _ =>
    simp only [VaultState.receiptChange, hl, some.injEq] at hchange
    exact hchange ▸ hobserve

theorem moved_activate (hc : s.changeOf capability now (.activate id) = some change) :
    Moved s now capability (.activate id) change ∨ Stuck s change := by
  simp only [VaultState.changeOf] at hc
  split at hc
  · rename_i reference deadline hl
    obtain ⟨⟨rfl, hkind, hopen, hdeadline⟩, hchange⟩ := ite_none_right_eq_some.mp hc
    cases hchange
    simp only [Moved, Stuck, VaultState.apply]
    cases hretire : s.retireCurrent with
    | error fault => exact .inr ⟨nofun, nofun⟩
    | ok retired =>
      obtain ⟨next, hnext, href⟩ := retireCurrent_reference hretire hl
      have hexact : retired.exactReference id "stored candidate has an exact reference" = .ok reference :=
        exactReference_eq_ok.mpr ⟨next, hnext, href⟩
      refine .inl ⟨_, bind_eq_ok.mpr ⟨retired, rfl, ?_⟩,
        .activate id reference deadline retired hkind hl hopen hdeadline hretire⟩
      rw [hexact]
      rfl
  · cases hc

/-- **A change is folded as a move**, unless the current candidate cannot be retired. -/
theorem moved_of_changeOf (hc : s.changeOf capability now operation = some change) :
    Moved s now capability operation change ∨ Stuck s change := by
  cases operation
  case recordStored id reference => exact .inl (moved_recordStored hc)
  case activate id => exact moved_activate hc
  all_goals
    simp only [VaultState.changeOf, bind_eq_bind, bind_eq_some_iff,
      ite_none_right_eq_some, some.injEq, any_eq_true] at hc
  case create tenantPrefix =>
    obtain ⟨⟨rfl, hstatus, hhex⟩, rfl⟩ := hc
    exact .inl ⟨_, rfl, .create tenantPrefix hstatus hhex⟩
  case beginCandidate id kind marker storageName deadline =>
    obtain ⟨⟨rfl, hopen, hdeadline, hnew, hhex, hmarker, hmatch, hname⟩, rfl⟩ := hc
    exact .inl ⟨_, rfl, .begin id kind marker storageName deadline hopen hdeadline hnew hhex
      (hasValue_eq_false.mp hmarker) ((any_eq_true _ _).mpr hmatch) (hasValue_eq_false.mp hname)⟩
  case cancelCandidate id =>
    obtain ⟨candidate, hl, ⟨rfl, hintake⟩, rfl⟩ := hc
    exact .inl ⟨_, rfl, .cancel id candidate hl (isSome_iff_ne_none.mp hintake)⟩
  case expireCandidate id =>
    obtain ⟨candidate, hl, deadline, hintake, ⟨rfl, hdeadline⟩, rfl⟩ := hc
    exact .inl ⟨_, rfl, .expire id candidate deadline hl hintake hdeadline⟩
  case recordCleaned id evidence =>
    obtain ⟨⟨rfl, candidate, hl, hcleanable⟩, rfl⟩ := hc
    refine .inl ⟨_, ?_, .clean id evidence candidate hl hcleanable⟩
    simp only [VaultState.apply, hl, bind_some]
  case revoke =>
    obtain ⟨⟨rfl, hopen⟩, rfl⟩ := hc
    simp only [Moved, Stuck, VaultState.apply, retireCurrent_status]
    cases hretire : s.retireCurrent with
    | error fault => exact .inr ⟨nofun, nofun⟩
    | ok retired => exact .inl ⟨_, rfl, .revoke retired hopen hretire⟩
  case fenceErasure =>
    obtain ⟨⟨hcap, hstatus⟩, rfl⟩ := hc
    exact .inl ⟨_, rfl, .fence capability hcap hstatus⟩
  case confirmErasure evidence =>
    obtain ⟨⟨rfl, hstatus, hall⟩, rfl⟩ := hc
    refine .inl ⟨_, rfl, .erase evidence hstatus fun i candidate hl => ?_⟩
    exact (forall_mem_toList_iff _ fun _ c => c.isCleaned = true).mp
      (List.all_eq_true.mp hall) i candidate hl
  case dispatch id effect reference grantEvidence fenceEvidence =>
    obtain ⟨⟨rfl, hstatus, hnew, hactive⟩, rfl⟩ := hc
    obtain ⟨current, hcurrent, hl⟩ := VaultState.activeReference_eq_some hactive
    exact .inl ⟨_, rfl,
      .dispatch id effect reference grantEvidence fenceEvidence current hstatus hnew hcurrent hl⟩
  case outcomeUnknown id evidence =>
    obtain ⟨⟨rfl, dispatch, hl, hphase⟩, rfl⟩ := hc
    refine .inl ⟨_, ?_, .unknown id evidence dispatch hl (beq_iff_eq.mp hphase)⟩
    rw [VaultState.apply, hl]
    rfl
  case settleDispatch id outcome evidence =>
    obtain ⟨⟨rfl, dispatch, hl, hphase⟩, rfl⟩ := hc
    refine .inl ⟨_, ?_, .settle id outcome evidence dispatch hl (bne_iff_ne.mp hphase)⟩
    rw [VaultState.apply, hl]
    rfl

end

/-! ## Decisions -/

theorem decide_eq_ok {es : List Event} (h : vault.decide s c = .ok es) :
    s.revision = c.expectedRevision ∧ (c.now ≠ 0 ∧ s.lastAt ≤ c.now) ∧
      (∀ binding, s.binding = some binding → binding = c.binding) ∧
      ∃ change, s.changeOf c.capability c.now c.operation = some change ∧
        es = [⟨c.binding, c.now, change⟩] := by
  change s.decide c = .ok es at h
  unfold VaultState.decide at h
  simp only [ite_reject_eq_ok, bind_eq_ok, okOr_eq_ok, not_not] at h
  obtain ⟨hrev, htime, hbinding, change, hc, hes⟩ := h
  rw [not_or, Nat.not_lt] at htime
  refine ⟨hrev, htime, fun binding hb => ?_, change, hc, (ok.inj hes).symm⟩
  rw [hb, any_some, bne_iff_ne, not_not] at hbinding
  exact hbinding

/-- The assertion of `evolve` holds, and the rest of it is `apply`. -/
theorem evolve_decided {change : Change}
    (hb : ∀ binding, s.binding = some binding → binding = c.binding) :
    vault.evolveAll s [⟨c.binding, c.now, change⟩] = (s.stamp c.binding c.now).apply change := by
  have hno : ¬ s.binding.any (· != c.binding) = true := by
    rw [any_eq_true]
    rintro ⟨binding, hbinding, hne⟩
    exact bne_iff_ne.mp hne (hb binding hbinding)
  show (s.evolve ⟨c.binding, c.now, change⟩ >>= fun t => ok t) = _
  unfold VaultState.evolve
  rw [if_neg hno]
  cases (s.stamp c.binding c.now).apply change <;> rfl

/-- **What is decided and folded is a step.** -/
theorem vault_admits : Admits vault Step := by
  intro s c es s' hd he
  obtain ⟨hrev, htime, hb, change, hc, rfl⟩ := decide_eq_ok hd
  rw [evolve_decided hb] at he
  rcases moved_of_changeOf (s := s.stamp c.binding c.now) hc with ⟨t, ht, hm⟩ | ⟨-, hstuck⟩
  · obtain rfl : t = s' := ok.inj (ht.symm.trans he)
    exact ⟨hrev, htime, hb, change, rfl, hm⟩
  · exact absurd he (hstuck s')

end GaugeDesk.Vault
