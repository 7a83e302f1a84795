import GaugeDesk.Settlement.SettlementModel

/-!
# Target settlement: what one admitted command does

`Step s c es s'` lists, once per admitted command, the guards that held, the
events and the next state.  Every later invariant is a case analysis of it:

    decide s c is a refusal, or its events fold into a Step of c  (settlement_decides)
-/

namespace GaugeDesk.Settlement

open Std List

variable {s t : TargetSettlementState} {id : String} {m : SettlementMemberState}
  {e : TargetSettlementEvent}

/-! ## Next states -/

/-- One more event in the history. -/
def TargetSettlementState.tick (s : TargetSettlementState) : TargetSettlementState :=
  { s with historyEvents := saturatingSucc64 s.historyEvents }

@[simp] theorem tick_phase (s : TargetSettlementState) : s.tick.phase = s.phase := rfl
@[simp] theorem tick_declaration (s : TargetSettlementState) : s.tick.declaration = s.declaration := rfl
@[simp] theorem tick_members (s : TargetSettlementState) : s.tick.members = s.members := rfl
@[simp] theorem tick_startedEffects (s : TargetSettlementState) :
    s.tick.startedEffects = s.startedEffects := rfl

def TargetSettlementDeclaration.initialMembers (d : TargetSettlementDeclaration) : Members :=
  TreeMap.ofList (d.members.map fun member => (member.memberId, ({} : SettlementMemberState)))

def SettlementMemberState.cancel (m : SettlementMemberState) : SettlementMemberState :=
  { m with phase := .cancelledBeforeStart }

/-- The members after cancelling the listed ones; an id without a member is skipped. -/
def cancelledMembers (members : Members) : List String → Members
  | [] => members
  | id :: ids =>
    match members[id]? with
    | some m => cancelledMembers (members.insert id m.cancel) ids
    | none => cancelledMembers members ids

/-- The command that records a receipt, directly or from an authoritative query. -/
def receiptCommand (fromQuery : Bool) (r : AuthenticatedTargetReceipt) : TargetSettlementCommand :=
  if fromQuery then .recordQueryReceipt r else .recordReceipt r

/-- The phase a member must be in to take a receipt. -/
def awaiting (fromQuery : Bool) : SettlementMemberPhase := if fromQuery then .unknown else .started

/-! ## Steps -/

/-- The admitted commands: guards, events and next state. -/
inductive Step (s : TargetSettlementState) :
    TargetSettlementCommand → List TargetSettlementEvent → TargetSettlementState → Prop
  | declare (d : TargetSettlementDeclaration) (hp : s.phase = .undeclared)
      (hd : s.declaration = none) (hv : d.valid = true) :
      Step s (.declare d) [.declarationRecorded d]
        { s.tick with phase := .declared, members := d.initialMembers, declaration := some d }
  | beginPreflight (hp : s.phase = .declared) :
      Step s .beginPreflight [.preflightStarted] { s.tick with phase := .preflighting }
  | refuse (e : MemberPreflightEvidence) (dm : SettlementMemberDeclaration)
      (m : SettlementMemberState) (reason : String) (hp : s.phase = .preflighting)
      (hm : member s e.memberId = .ok (dm, m)) (hph : m.phase = .pending)
      (hne : m.preflightEvidence = none) (hex : e.exactFor dm = true) (hna : e.admitted = false)
      (hr : e.refusalReason = some reason) :
      Step s (.recordPreflight e) [.memberPreflightRefused e, .coordinatorRefused reason]
        { s.tick.tick with
          members := s.members.insert e.memberId { m with preflightEvidence := some e }
          phase := .refused, terminalReason := some reason }
  | pass (e : MemberPreflightEvidence) (dm : SettlementMemberDeclaration)
      (m : SettlementMemberState) (hp : s.phase = .preflighting)
      (hm : member s e.memberId = .ok (dm, m)) (hph : m.phase = .pending)
      (hne : m.preflightEvidence = none) (hex : e.exactFor dm = true) (had : e.admitted = true)
      (hlast : ∃ p ∈ s.members.toList, p.1 ≠ dm.memberId ∧ p.2.phase ≠ .preflightPassed) :
      Step s (.recordPreflight e) [.memberPreflightPassed e]
        { s.tick with
          members := s.members.insert e.memberId
            { m with phase := .preflightPassed, preflightEvidence := some e } }
  | passLast (e : MemberPreflightEvidence) (dm : SettlementMemberDeclaration)
      (m : SettlementMemberState) (hp : s.phase = .preflighting)
      (hm : member s e.memberId = .ok (dm, m)) (hph : m.phase = .pending)
      (hne : m.preflightEvidence = none) (hex : e.exactFor dm = true) (had : e.admitted = true)
      (hlast : ∀ p ∈ s.members.toList, p.1 = dm.memberId ∨ p.2.phase = .preflightPassed) :
      Step s (.recordPreflight e) [.memberPreflightPassed e, .coordinatorReady]
        { s.tick.tick with
          members := s.members.insert e.memberId
            { m with phase := .preflightPassed, preflightEvidence := some e }
          phase := .ready }
  | cancelBeforeEffects (reason : String)
      (hp : s.phase = .declared ∨ s.phase = .preflighting ∨ s.phase = .ready)
      (hz : s.startedEffects = 0) (hr : validIdentity reason = true) :
      Step s (.cancelBeforeEffects reason) [.coordinatorCancelled reason]
        { s.tick with phase := .cancelled, terminalReason := some reason }
  | expireBeforeEffects (reason : String)
      (hp : s.phase = .declared ∨ s.phase = .preflighting ∨ s.phase = .ready)
      (hz : s.startedEffects = 0) (hr : validIdentity reason = true) :
      Step s (.expireBeforeEffects reason) [.coordinatorExpired reason]
        { s.tick with phase := .expired, terminalReason := some reason }
  | startMember (id : String) (p : TargetLanePermit) (dm : SettlementMemberDeclaration)
      (m : SettlementMemberState) (hp : s.phase = .ready ∨ s.phase = .applying)
      (hm : member s id = .ok (dm, m)) (hph : m.phase = .preflightPassed) (hrc : m.receipt = none)
      (hex : p.exactFor dm = true) :
      Step s (.startMember id p) [.memberStarted id p, .coordinatorPhaseChanged .applying]
        { s.tick.tick with
          members := s.members.insert id (m.start p)
          startedEffects := saturatingSucc32 s.startedEffects, phase := .applying }
  | settle (fromQuery : Bool) (r : AuthenticatedTargetReceipt) (dm : SettlementMemberDeclaration)
      (m : SettlementMemberState) (hm : member s r.memberId = .ok (dm, m))
      (hph : m.phase = awaiting fromQuery) (hrc : m.receipt = none)
      (hq : fromQuery = true → m.queryRefs ≠ []) (hex : r.exactFor dm = true) :
      Step s (receiptCommand fromQuery r)
        [.memberReceiptRecorded r, .coordinatorPhaseChanged
          (projectedPhase (s.members.insert r.memberId { m with phase := r.outcome.phase }))]
        { s.tick.tick with
          members := s.members.insert r.memberId (m.settle r)
          phase := projectedPhase (s.members.insert r.memberId { m with phase := r.outcome.phase }) }
  | recordUnknown (id ev : String) (dm : SettlementMemberDeclaration) (m : SettlementMemberState)
      (hm : member s id = .ok (dm, m)) (hph : m.phase = .started) (hev : validIdentity ev = true) :
      Step s (.recordUnknown id ev)
        [.memberOutcomeUnknown id ev, .coordinatorPhaseChanged .reconciliationRequired]
        { s.tick.tick with
          members := s.members.insert id { m with phase := .unknown, unknownEvidenceRef := some ev }
          phase := .reconciliationRequired }
  | requestQuery (id q : String) (dm : SettlementMemberDeclaration) (m : SettlementMemberState)
      (hm : member s id = .ok (dm, m)) (hph : m.phase = .unknown)
      (hdq : dm.authoritativeQuery = true) (hq : validIdentity q = true) (hnew : q ∉ m.queryRefs) :
      Step s (.requestAuthoritativeQuery id q) [.authoritativeQueryRequested id q]
        { s.tick with members := s.members.insert id { m with queryRefs := m.queryRefs ++ [q] } }
  | retry (id : String) (p : TargetLanePermit) (dm : SettlementMemberDeclaration)
      (m : SettlementMemberState) (hm : member s id = .ok (dm, m)) (hph : m.phase = .failed)
      (hsafe : dm.retrySafeAfterFailure = true) (hex : p.exactFor dm = true)
      (hnew : ∀ old, m.lanePermit = some old → old.sequence < p.sequence) :
      Step s (.retryKnownFailure id p) [.memberRetryStarted id p, .coordinatorPhaseChanged .applying]
        { s.tick.tick with
          members := s.members.insert id (m.start p)
          startedEffects := saturatingSucc32 s.startedEffects, phase := .applying }
  | cancelUnstarted (reason : String) (events : Nat) (hp : s.phase.terminal = false)
      (hz : s.startedEffects ≠ 0) (hr : validIdentity reason = true)
      (hids : unstartedIds s.members ≠ []) :
      Step s (.cancelUnstarted reason)
        ((unstartedIds s.members).map (fun id => .memberCancelledBeforeStart id reason) ++
          [.coordinatorPhaseChanged
            (projectedPhase (cancelledMembers s.members (unstartedIds s.members)))])
        { s with
          members := cancelledMembers s.members (unstartedIds s.members)
          phase := projectedPhase (cancelledMembers s.members (unstartedIds s.members))
          historyEvents := events }
  | supersede (id later : String) (dm : SettlementMemberDeclaration) (m : SettlementMemberState)
      (hm : member s id = .ok (dm, m)) (hph : m.phase.unstarted = true)
      (hl : validIdentity later = true) :
      Step s (.supersedeNotStarted id later)
        [.memberSupersededBeforeStart id later, .coordinatorPhaseChanged
          (projectedPhase (s.members.insert id { m with phase := .supersededBeforeStart }))]
        { s.tick.tick with
          members := s.members.insert id
            { m with phase := .supersededBeforeStart, supersededBy := some later }
          phase := projectedPhase (s.members.insert id { m with phase := .supersededBeforeStart }) }
  | compensate (links : List CompensationReceiptLink) (hp : s.phase = .partiallyApplied)
      (hne : successfulReceipts s.members ≠ ∅)
      (hlen : links.length = (successfulReceipts s.members).card)
      (hv : ∀ l ∈ links, l.valid = true)
      (ho : (links.map (·.originalReceiptRef)).toFinset = successfulReceipts s.members)
      (hc : (links.map (·.compensationReceiptRef)).toFinset.card = links.length)
      (hmem : (links.map fun l =>
        (l.compensationDeclarationId, l.compensationMemberId)).toFinset.card = links.length) :
      Step s (.markCompensated links) [.coordinatorCompensatedV2 links]
        { s.tick with
          phase := .compensated
          compensationReceiptRefs := links.map (·.compensationReceiptRef)
          compensationReceiptLinks := links }
  | abandon (reason : String)
      (hp : s.phase = .applying ∨ s.phase = .partiallyApplied ∨ s.phase = .reconciliationRequired)
      (hz : s.startedEffects ≠ 0) (hr : validIdentity reason = true) :
      Step s (.abandonPartial reason) [.coordinatorAbandonedPartial reason]
        { s.tick with phase := .abandonedPartial, terminalReason := some reason }

/-! ## Lookups -/

theorem member_eq_ok (s : TargetSettlementState) (id : String) (dm : SettlementMemberDeclaration)
    (m : SettlementMemberState) :
    member s id = .ok (dm, m) ↔
      ∃ d, s.declaration = some d ∧ d.find id = some dm ∧ s.members[id]? = some m := by
  unfold member declaration
  simp only [bind_eq_ok, okOr_eq_ok, pure_eq_ok, Prod.mk.injEq]
  constructor
  · rintro ⟨d, hd, dm', hf, m', hm, rfl, rfl⟩
    exact ⟨d, hd, hf, hm⟩
  · rintro ⟨d, hd, hf, hm⟩
    exact ⟨d, hd, dm, hf, m, hm, rfl, rfl⟩

variable {f : SettlementMemberState → SettlementMemberState}

theorem updateMember_of_some {members : Members} {message : String} (h : members[id]? = some m) :
    updateMember members message id f = .ok (members.insert id (f m)) := by
  rw [updateMember, h]
  rfl

theorem evolveMember_of_some (h : s.members[id]? = some m) :
    s.evolveMember id f = .ok { s with members := s.members.insert id (f m) } := by
  rw [TargetSettlementState.evolveMember, updateMember_of_some h]
  rfl

/-! ## Every command is refused or takes a step -/

theorem member_cases (s : TargetSettlementState) (id : String) :
    (∃ r, member s id = .error (.rejected r)) ∨ ∃ dm m, member s id = .ok (dm, m) := by
  unfold member declaration
  cases hd : s.declaration with
  | none => exact .inl ⟨_, rfl⟩
  | some d =>
    cases hf : d.find id with
    | none => left; simp [okOr, reject, bind, Except.bind, hf]
    | some dm =>
      cases hm : s.members[id]? with
      | none => left; simp [okOr, reject, bind, Except.bind, hf]
      | some m => right; simp [okOr, bind, Except.bind, hf, pure, Except.pure]

theorem outcome_member {c : TargetSettlementCommand}
    {f : SettlementMemberDeclaration × SettlementMemberState → Except Fault (List TargetSettlementEvent)}
    (h : ∀ dm m, member s id = .ok (dm, m) → Outcome settlement Step s c (f (dm, m))) :
    Outcome settlement Step s c (member s id >>= f) := by
  rcases member_cases s id with ⟨r, hr⟩ | ⟨dm, m, hm⟩
  · rw [hr]
    exact .inl ⟨r, rfl⟩
  · rw [hm]
    exact h dm m hm

theorem members_of_member {dm : SettlementMemberDeclaration} (h : member s id = .ok (dm, m)) :
    s.members[id]? = some m := by
  obtain ⟨d, -, -, hm⟩ := (member_eq_ok s id dm m).mp h
  exact hm

/-! ### Folding the events of a command -/

theorem evolve_member {dm : SettlementMemberDeclaration} (hm : member s id = .ok (dm, m)) :
    s.tick.evolveMember id f = .ok { s.tick with members := s.members.insert id (f m) } :=
  evolveMember_of_some (members_of_member hm)

theorem start_of_some (p : TargetLanePermit) (h : s.members[id]? = some m) : (do
      let started ← s.tick.evolveMember id fun member => member.start p
      return { started with startedEffects := saturatingSucc32 started.startedEffects }) =
      Except.ok { s.tick with
        members := s.members.insert id (m.start p)
        startedEffects := saturatingSucc32 s.startedEffects } := by
  rw [evolveMember_of_some (s := s.tick) h]
  rfl

theorem phaseAfterMemberChange_of_some {p : SettlementMemberPhase} (h : s.members[id]? = some m) :
    phaseAfterMemberChange s id p = .ok (projectedPhase (s.members.insert id { m with phase := p })) := by
  rw [phaseAfterMemberChange, updateMember_of_some h]
  rfl

theorem ne_none_insert {members : Members} {ids : List String} {x : SettlementMemberState}
    (h : ∀ id' ∈ id :: ids, members[id']? ≠ none) : ∀ id' ∈ ids, (members.insert id x)[id']? ≠ none := by
  intro id' hid'
  rw [TreeMap.getElem?_insert_eq]
  split
  · simp
  · exact h id' (mem_cons_of_mem _ hid')

theorem cancelMembers_of_mem (ids : List String) (members : Members)
    (h : ∀ id ∈ ids, members[id]? ≠ none) :
    cancelMembers members ids = .ok (cancelledMembers members ids) := by
  induction ids generalizing members with
  | nil => rfl
  | cons id ids ih =>
    obtain ⟨m, hm⟩ := Option.ne_none_iff_exists'.mp (h id mem_cons_self)
    unfold cancelMembers cancelledMembers
    rw [foldlM_cons, updateMember_of_some hm, hm]
    exact ih _ (ne_none_insert h)

theorem evolveAll_cancelled (ids : List String) (reason : String) (s : TargetSettlementState)
    (h : ∀ id ∈ ids, s.members[id]? ≠ none) :
    ∃ events, settlement.evolveAll s (ids.map fun id => .memberCancelledBeforeStart id reason) =
      .ok { s with members := cancelledMembers s.members ids, historyEvents := events } := by
  induction ids generalizing s with
  | nil => exact ⟨s.historyEvents, rfl⟩
  | cons id ids ih =>
    obtain ⟨m, hm⟩ := Option.ne_none_iff_exists'.mp (h id mem_cons_self)
    have h1 : s.evolve (.memberCancelledBeforeStart id reason) =
        .ok { s.tick with members := s.members.insert id m.cancel } :=
      evolveMember_of_some hm
    obtain ⟨events, h2⟩ := ih { s.tick with members := s.members.insert id m.cancel } (ne_none_insert h)
    refine ⟨events, (settlement.evolveAll_cons _ _ _ _).mpr ⟨_, h1, ?_⟩⟩
    rw [h2, cancelledMembers, hm]
    rfl

theorem mem_unstartedIds (members : Members) (id : String) :
    id ∈ unstartedIds members ↔ ∃ m, members[id]? = some m ∧ m.phase.unstarted = true := by
  unfold unstartedIds
  simp only [mem_map, mem_filter, Prod.exists, TreeMap.mem_toList_iff_getElem?_eq_some]
  constructor
  · rintro ⟨a, m, ⟨hm, hu⟩, rfl⟩; exact ⟨m, hm, hu⟩
  · rintro ⟨m, hm, hu⟩; exact ⟨id, m, ⟨hm, hu⟩, rfl⟩

/-! ### One lemma per command -/

section
variable (s : TargetSettlementState)

theorem outcome_recordPreflight (e : MemberPreflightEvidence) :
    DecidesAt settlement Step s (.recordPreflight e) := by
  refine .guard fun hp => outcome_member fun dm m hm => .guard fun hr => .guard fun hex => ?_
  simp only [not_or, Decidable.not_not, Option.not_isSome_iff_eq_none] at hp hr hex
  by_cases had : e.admitted = true
  · rw [if_neg (not_not.mpr had)]
    simp only []
    by_cases hall : (s.members.toList.all fun p =>
        p.1 == dm.memberId || p.2.phase == .preflightPassed) = true
    · rw [if_pos hall]
      refine .two (evolve_member hm) rfl (.passLast e dm m hp hm hr.1 hr.2 hex had ?_)
      simpa [all_eq_true] using hall
    · rw [if_neg hall]
      refine .one (evolve_member hm) (.pass e dm m hp hm hr.1 hr.2 hex had ?_)
      simpa [all_eq_true] using hall
  · -- a refusal that matches the declaration carries its reason, so `expect` cannot fail
    rw [if_pos had]
    have hfalse : e.admitted = false := by simpa using had
    have hreason : e.refusalReason.any validIdentity = true := by
      simp only [MemberPreflightEvidence.exactFor, hfalse, Bool.false_eq_true, if_false,
        Bool.and_eq_true] at hex
      exact hex.2.2
    obtain ⟨reason, hreason, -⟩ := (Option.any_eq_true _ _).mp hreason
    rw [hreason]
    exact .two (evolve_member hm) rfl (.refuse e dm m reason hp hm hr.1 hr.2 hex hfalse hreason)

theorem outcome_recordReceipt (fromQuery : Bool) (r : AuthenticatedTargetReceipt) :
    Outcome settlement Step s (receiptCommand fromQuery r) (recordReceipt s r fromQuery) := by
  refine outcome_member fun dm m hm => .guard fun hr => .guard fun hq => .guard fun hex => ?_
  simp only [not_or, Decidable.not_not, Option.not_isSome_iff_eq_none] at hr hex
  have hq' : fromQuery = true → m.queryRefs ≠ [] := by
    intro hf he
    exact hq ⟨hf, by rw [he]; rfl⟩
  rw [phaseAfterMemberChange_of_some (members_of_member hm)]
  exact .two (evolve_member hm) rfl (.settle fromQuery r dm m hm hr.1 hr.2 hq' hex)

theorem outcome_retryKnownFailure (id : String) (p : TargetLanePermit) :
    DecidesAt settlement Step s (.retryKnownFailure id p) := by
  refine outcome_member fun dm m hm => .guard fun hr => .guard fun hex => ?_
  simp only [not_or, Decidable.not_not] at hr hex
  have hnew : ∀ old, m.lanePermit = some old → old.sequence < p.sequence := by
    intro old hold
    have h := hex.2
    rw [hold, Option.any_some, decide_eq_true_iff] at h
    omega
  exact .two (start_of_some p (members_of_member hm)) rfl
    (.retry id p dm m hm hr.1 hr.2 hex.1 hnew)

theorem outcome_cancelUnstarted (reason : String) :
    DecidesAt settlement Step s (.cancelUnstarted reason) := by
  refine .guard fun hp => .guard fun hids => ?_
  simp only [not_or, Decidable.not_not] at hp
  rw [List.isEmpty_iff] at hids
  have hkeys : ∀ id ∈ unstartedIds s.members, s.members[id]? ≠ none := by
    intro id hid
    obtain ⟨m, hm, -⟩ := (mem_unstartedIds s.members id).mp hid
    rw [hm]
    simp
  rw [cancelMembers_of_mem _ _ hkeys]
  obtain ⟨events, he⟩ := evolveAll_cancelled (unstartedIds s.members) reason s hkeys
  refine .ok ?_ (.cancelUnstarted reason (saturatingSucc64 events) (by simpa using hp.1) hp.2.1 hp.2.2 hids)
  exact (settlement.evolveAll_append _ _ _ _).mpr ⟨_, he, settlement.evolveAll_one rfl⟩

theorem outcome_markCompensated (links : List CompensationReceiptLink) :
    DecidesAt settlement Step s (.markCompensated links) := by
  refine .guard fun h => ?_
  simp only [not_or, Decidable.not_not] at h
  obtain ⟨hp, hne, hlen, hv, ho, hc, hmem⟩ := h
  refine .one rfl (.compensate links hp hne hlen ?_ ho hc hmem)
  intro l hl
  by_contra hbad
  exact hv (any_eq_true.mpr ⟨l, hl, by simpa using hbad⟩)

end

/-- **Every command is refused or takes one of the steps**, without a panic. -/
theorem settlement_decides : Decides settlement Step := by
  intro s c
  cases c with
  | declare d =>
    refine .guard fun hp => .guard fun hv => ?_
    simp only [not_or, Decidable.not_not] at hp hv
    exact .one rfl (.declare d hp.1 (by simpa using hp.2) hv)
  | beginPreflight =>
    exact .unless fun hp => .one rfl (.beginPreflight hp)
  | recordPreflight => exact outcome_recordPreflight s ..
  | cancelBeforeEffects reason =>
    refine .guard fun h => ?_
    simp only [↓not_or, ↓not_not] at h
    exact .one rfl (.cancelBeforeEffects reason h.1 h.2.1 h.2.2)
  | expireBeforeEffects reason =>
    refine .guard fun h => ?_
    simp only [↓not_or, ↓not_not] at h
    exact .one rfl (.expireBeforeEffects reason h.1 h.2.1 h.2.2)
  | startMember id p =>
    refine .unless fun hp => outcome_member fun dm m hm => .guard fun hr => .unless fun hex => ?_
    simp only [not_or, Decidable.not_not, Option.not_isSome_iff_eq_none] at hr
    exact .two (start_of_some p (members_of_member hm)) rfl
      (.startMember id p dm m hp hm hr.1 hr.2 hex)
  | recordReceipt r => exact outcome_recordReceipt s false r
  | recordUnknown id ev =>
    refine outcome_member fun dm m hm => .guard fun hr => ?_
    simp only [not_or, Decidable.not_not] at hr
    exact .two (evolve_member hm) rfl (.recordUnknown id ev dm m hm hr.1 hr.2)
  | requestAuthoritativeQuery id q =>
    refine outcome_member fun dm m hm => .guard fun hr => ?_
    simp only [not_or, Decidable.not_not, contains_iff_mem] at hr
    exact .one (evolve_member hm) (.requestQuery id q dm m hm hr.1 hr.2.1 hr.2.2.1 hr.2.2.2)
  | recordQueryReceipt r => exact outcome_recordReceipt s true r
  | retryKnownFailure => exact outcome_retryKnownFailure s ..
  | cancelUnstarted => exact outcome_cancelUnstarted s ..
  | supersedeNotStarted id later =>
    refine outcome_member fun dm m hm => .guard fun hr => ?_
    simp only [not_or, Decidable.not_not] at hr
    rw [phaseAfterMemberChange_of_some (members_of_member hm)]
    exact .two (evolve_member hm) rfl (.supersede id later dm m hm hr.1 hr.2)
  | markCompensated => exact outcome_markCompensated s ..
  | abandonPartial reason =>
    refine .guard fun h => ?_
    simp only [↓not_or, ↓not_not] at h
    exact .one rfl (.abandon reason h.1 h.2.1 h.2.2)

end GaugeDesk.Settlement
