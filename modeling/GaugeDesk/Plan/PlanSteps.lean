import GaugeDesk.Plan.PlanModel

/-!
# Plans: what one admitted command does

`Step s c es s'` lists, once per admitted command, the guards that held, the
event and the next state:

    decide s c is a refusal, or its events fold into a Step of c  (plan_decides)
-/

namespace GaugeDesk.Plan

open Std Finset Option Except

/-! ## Steps -/

/-- The record of a piece of evidence. -/
def PlanState.nextEvidence (s : PlanState) (step : String) (current : StepState) (kind : EvidenceKind)
    (author : Authority) (reference : String) (atMs : Nat) : Evidence :=
  { id := "evidence-" ++ toString (s.evidence.size + 1), step, kind, author, reference,
    cycle := current.cycle, recordedAtMs := atMs }

/-- The admitted commands: guards, events and next state. -/
inductive Step (s : PlanState) : PlanCommand → List PlanEvent → PlanState → Prop
  | propose (planId title : String) (proposer : Authority) (steps : List StepSpec)
      (policy : SettlementPolicy) (atMs : Nat) (hp : s.phase = .init)
      (hpolicy : validPolicy policy = true) (hv : validSteps steps = .ok ()) :
      Step s (.propose planId title proposer steps policy atMs)
        [.planProposed planId title proposer steps policy atMs]
        { s with
          phase := .active, planId, title, proposer := some proposer, policies := [policy]
          steps := TreeMap.ofList (steps.map fun spec => (spec.id, spec.initial)) }
  | claim (step : String) (holder : Authority) (atMs leaseUntilMs : Nat) (current : StepState)
      (hp : s.phase = .active) (hl : s.steps[step]? = some current) (hns : current.settlement = none)
      (hfree : ∀ claim, current.claim = some claim → claim.isLive atMs = false)
      (hready : s.unsettledBlockers current = ∅) (hlease : atMs < leaseUntilMs) :
      Step s (.claimStep step holder atMs leaseUntilMs) [.stepClaimed step holder atMs leaseUntilMs]
        { s with
          steps := s.steps.insert step { current with claim := some ⟨holder, atMs, leaseUntilMs⟩ } }
  | release (step : String) (holder : Authority) (atMs : Nat) (current : StepState) (claim : StepClaim)
      (hp : s.phase = .active) (hl : s.steps[step]? = some current) (hns : current.settlement = none)
      (hclaim : current.claim = some claim) (hholder : claim.holder = holder)
      (hlive : claim.isLive atMs = true) :
      Step s (.releaseStep step holder atMs) [.stepReleased step holder atMs]
        { s with steps := s.steps.insert step { current with claim := none } }
  | record (step : String) (kind : EvidenceKind) (author : Authority) (reference : String) (atMs : Nat)
      (current : StepState) (hp : s.phase = .active) (hl : s.steps[step]? = some current)
      (hns : current.settlement = none) (hr : blank reference = false) :
      Step s (.recordEvidence step kind author reference atMs)
        [.evidenceRecorded (s.nextEvidence step current kind author reference atMs)]
        { s with
          evidence := s.evidence.insert ("evidence-" ++ toString (s.evidence.size + 1))
            (s.nextEvidence step current kind author reference atMs) }
  | settle (step evidence : String) (by_ : Authority) (atMs : Nat) (current : StepState)
      (claim : StepClaim) (record : Evidence) (epoch : Nat) (policy : SettlementPolicy)
      (hp : s.phase = .active) (hl : s.steps[step]? = some current) (hns : current.settlement = none)
      (hclaim : current.claim = some claim) (hrecord : s.evidence[evidence]? = some record)
      (hstep : record.step = step) (hcycle : record.cycle = current.cycle)
      (hepoch : s.epoch = some epoch) (hpolicy : s.policies.getLast? = some policy)
      (hkind : record.kind ∈ policy.accepts)
      (hown : record.author = claim.holder → policy.claimantMaySettle = true) :
      Step s (.settleStep step evidence by_ atMs) [.stepSettled step evidence epoch by_ atMs]
        { s with steps := s.steps.insert step (current.settle ⟨evidence, epoch, by_, atMs⟩) }
  | reopen (step : String) (cause : ReopenCause) (by_ : Authority) (atMs : Nat) (current : StepState)
      (settlement : StepSettlement) (hp : s.phase = .active) (hl : s.steps[step]? = some current)
      (hs : current.settlement = some settlement)
      (hcause : blank cause.reference = false ∧ blank cause.reason = false) :
      Step s (.reopenStep step cause by_ atMs) [.stepReopened step cause by_ atMs]
        { s with steps := s.steps.insert step (current.reopen cause) }
  | revise (policy : SettlementPolicy) (by_ : Authority) (atMs : Nat) (hp : s.phase = .active)
      (hpolicy : validPolicy policy = true) (hnew : s.policies.getLast? ≠ some policy) :
      Step s (.reviseSettlementPolicy policy by_ atMs)
        [.settlementPolicyRevised (asU32 s.policies.length) policy by_ atMs]
        { s with policies := s.policies ++ [policy] }
  | supersede (successor reason : String) (by_ : Authority) (atMs : Nat) (hp : s.phase = .active)
      (hs : blank successor = false ∧ successor ≠ s.planId) (hr : blank reason = false) :
      Step s (.supersede successor reason by_ atMs) [.planSuperseded successor reason by_ atMs]
        { s with phase := .superseded, supersededBy := some successor }

/-! ## Every command is refused or takes a step -/

theorem updateStep_of_some {s : PlanState} {step : String} {current : StepState}
    (h : s.steps[step]? = some current) (f : StepState → StepState) :
    s.updateStep step f = { s with steps := s.steps.insert step (f current) } := by
  unfold PlanState.updateStep
  rw [h]

theorem namedSteps_cases (ids : List String) (steps : List StepSpec) :
    namedSteps ids steps = .ok () ∨ ∃ r, namedSteps ids steps = .error (.rejected r) := by
  induction steps generalizing ids with
  | nil => exact .inl rfl
  | cons step steps ih =>
    unfold namedSteps
    split
    · exact .inr ⟨_, rfl⟩
    · split
      · exact .inr ⟨_, rfl⟩
      · exact ih _

variable (steps : List StepSpec)

theorem validSteps_cases :
    validSteps steps = .ok () ∨ ∃ r, validSteps steps = .error (.rejected r) := by
  unfold validSteps
  split
  · exact .inr ⟨_, rfl⟩
  · rcases namedSteps_cases [] steps with hn | ⟨r, hn⟩
    · rw [hn]
      simp only [bind, Except.bind]
      split
      · exact .inr ⟨_, rfl⟩
      · split
        · exact .inr ⟨_, rfl⟩
        · exact .inl rfl
    · rw [hn]
      exact .inr ⟨r, rfl⟩

/-- What an active plan decides. -/
abbrev ActiveAt (s : PlanState) (c : PlanCommand) : Prop := Outcome plan Step s c (decideActive s c)

section
variable (s : PlanState)

variable {s} (hp : s.phase = .active)
include hp

theorem outcome_claimStep (step : String) (holder : Authority) (atMs leaseUntilMs : Nat) :
    ActiveAt s (.claimStep step holder atMs leaseUntilMs) := by
  refine .okOr fun current hl => .guard fun hns => .guard fun hfree => .unless fun hready =>
    .guard fun hlease => ?_
  refine .one (congrArg ok (updateStep_of_some hl _)) (.claim step holder atMs leaseUntilMs current
    hp hl (not_isSome_iff_eq_none.mp hns) ?_ hready (Nat.lt_of_not_le hlease))
  intro claim hclaim
  rw [hclaim, any_some] at hfree
  exact Bool.eq_false_iff.mpr hfree

theorem outcome_settleStep (step evidence : String) (by_ : Authority) (atMs : Nat) :
    ActiveAt s (.settleStep step evidence by_ atMs) := by
  refine .okOr fun current hl => .guard fun hns => .okOr fun claim hclaim => .okOr fun record hr =>
    .unless fun hcycle => .okOr fun epoch hepoch => .okOr fun policy hpolicy => .unless fun hkind =>
    .guard fun hown => ?_
  obtain ⟨hrecord, hstep⟩ := filter_eq_some_iff.mp hr
  refine .one (congrArg ok (updateStep_of_some hl _)) (.settle step evidence by_ atMs current claim
    record epoch policy hp hl (not_isSome_iff_eq_none.mp hns) hclaim hrecord
    (beq_iff_eq.mp hstep) hcycle hepoch hpolicy hkind ?_)
  intro hauthor
  by_contra hno
  exact hown ⟨hauthor, hno⟩

end

theorem outcome_active {s : PlanState} {c : PlanCommand}
    (h : s.phase = .active → ActiveAt s c) :
    Outcome plan Step s c (match s.phase with
      | .init => reject "the plan has not been proposed"
      | .superseded => reject "the plan is superseded"
      | .active => decideActive s c) := by
  cases hp : s.phase with
  | init => exact .reject _
  | superseded => exact .reject _
  | active => exact h hp

/-- **Every command is refused or takes one of the steps**, without a panic. -/
theorem plan_decides : Decides plan Step := by
  intro s c
  cases c with
  | propose planId title proposer steps policy atMs =>
    refine .unless fun hp => .guard fun _ => .unless fun hpolicy => ?_
    rcases validSteps_cases steps with hv | ⟨r, hv⟩
    · rw [hv]
      exact .one rfl (.propose planId title proposer steps policy atMs hp hpolicy hv)
    · rw [hv]
      exact .inl ⟨r, rfl⟩
  | claimStep => exact outcome_active fun hp => outcome_claimStep hp ..
  | releaseStep step holder atMs =>
    refine outcome_active fun hp => .okOr fun current hl => .unless fun hlive => ?_
    rw [any_eq_true] at hlive
    obtain ⟨claim, hclaim, hlive⟩ := hlive
    simp only [Bool.and_eq_true, beq_iff_eq, isNone_iff_eq_none] at hlive
    exact .one (congrArg ok (updateStep_of_some hl _))
      (.release step holder atMs current claim hp hl hlive.2 hclaim hlive.1.1 hlive.1.2)
  | recordEvidence step kind author reference atMs =>
    refine outcome_active fun hp => .okOr fun current hl => .guard fun hns => .guard fun hr => ?_
    exact .one rfl (.record step kind author reference atMs current hp hl
      (not_isSome_iff_eq_none.mp hns) (Bool.eq_false_iff.mpr hr))
  | settleStep => exact outcome_active fun hp => outcome_settleStep hp ..
  | reopenStep step cause by_ atMs =>
    refine outcome_active fun hp => .okOr fun current hl => .guard fun hs => .guard fun hcause => ?_
    rw [isNone_iff_eq_none] at hs
    obtain ⟨settlement, hs⟩ := ne_none_iff_exists'.mp hs
    rw [not_or, Bool.not_eq_true, Bool.not_eq_true] at hcause
    exact .one (congrArg ok (updateStep_of_some hl _))
      (.reopen step cause by_ atMs current settlement hp hl hs hcause)
  | reviseSettlementPolicy policy by_ atMs =>
    exact outcome_active fun hp => .unless fun hpolicy => .guard fun hnew =>
      .one rfl (.revise policy by_ atMs hp hpolicy hnew)
  | supersede successor reason by_ atMs =>
    refine outcome_active fun hp => .guard fun hs => .guard fun hr => ?_
    rw [not_or, Bool.not_eq_true] at hs
    exact .one rfl
      (.supersede successor reason by_ atMs hp hs (Bool.eq_false_iff.mpr hr))

/-! ## The rounds of Kahn's algorithm -/

theorem mem_kahnNext {steps : List StepSpec} {done : Finset String} {id : String} :
    id ∈ kahnNext steps done ↔ ∃ step ∈ steps, step.id = id ∧ id ∉ done ∧ step.blockedBy ⊆ done := by
  unfold kahnNext
  simp only [List.mem_toFinset, List.mem_map, List.mem_filter, Bool.and_eq_true, decide_eq_true_eq]
  constructor
  · rintro ⟨step, ⟨hm, hd, hb⟩, rfl⟩
    exact ⟨step, hm, rfl, hd, hb⟩
  · rintro ⟨step, hm, rfl, hd, hb⟩
    exact ⟨step, ⟨hm, hd, hb⟩, rfl⟩

theorem kahn_inv {steps : List StepSpec} (I : Finset String → Prop)
    (h : ∀ done, I done → I (done ∪ kahnNext steps done)) (rounds : Nat) (done : Finset String)
    (hi : I done) : I (kahn steps rounds done) := by
  induction rounds generalizing done with
  | zero => exact hi
  | succ rounds ih =>
    simp only [kahn]
    split
    · exact hi
    · exact ih _ (h done hi)

theorem kahnNext_subset (done : Finset String) :
    kahnNext steps done ⊆ (steps.map (·.id)).toFinset := by
  intro id hid
  obtain ⟨step, hm, rfl, -, -⟩ := mem_kahnNext.mp hid
  exact List.mem_toFinset.mpr (List.mem_map_of_mem hm)

theorem kahn_subset (rounds : Nat) :
    kahn steps rounds ∅ ⊆ (steps.map (·.id)).toFinset :=
  kahn_inv (· ⊆ _) (fun done hi => union_subset hi (kahnNext_subset steps done)) rounds ∅
    (empty_subset _)

theorem kahn_spec (rounds : Nat) (done : Finset String) (hsub : done ⊆ (steps.map (·.id)).toFinset)
    (hrounds : (steps.map (·.id)).toFinset.card ≤ done.card + rounds) :
    kahnNext steps (kahn steps rounds done) = ∅ := by
  induction rounds generalizing done with
  | zero =>
    -- every step is done, so that no round has anything to add
    have hall : done = (steps.map (·.id)).toFinset := eq_of_subset_of_card_le hsub hrounds
    refine eq_empty_iff_forall_notMem.mpr fun id hid => ?_
    obtain ⟨-, -, -, hd, -⟩ := mem_kahnNext.mp hid
    exact hd (hall ▸ kahnNext_subset steps done hid)
  | succ rounds ih =>
    unfold kahn
    by_cases hnext : kahnNext steps done = ∅
    · simp only [if_pos hnext]
      exact hnext
    · simp only [if_neg hnext]
      have hdisjoint : Disjoint done (kahnNext steps done) := by
        refine disjoint_right.mpr fun id hid => ?_
        obtain ⟨step, -, -, hd, -⟩ := mem_kahnNext.mp hid
        exact hd
      have hpos : 0 < (kahnNext steps done).card :=
        card_pos.mpr (nonempty_iff_ne_empty.mpr hnext)
      refine ih (done ∪ kahnNext steps done) (union_subset hsub (kahnNext_subset steps done)) ?_
      rw [card_union_of_disjoint hdisjoint]
      omega

/-- **The loop of `valid_steps` reaches its end.** -/
theorem kahnNext_kahn : kahnNext steps (kahn steps steps.length ∅) = ∅ := by
  refine kahn_spec steps steps.length ∅ (empty_subset _) ?_
  rw [card_empty, Nat.zero_add, ← List.length_map (f := (·.id))]
  exact List.toFinset_card_le _

end GaugeDesk.Plan
