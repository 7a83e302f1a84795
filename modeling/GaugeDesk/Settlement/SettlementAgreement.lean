import GaugeDesk.Settlement.SettlementProgress

/-!
# Target settlement: the coordinator agrees with its members

From the first effect on, a nonterminal coordinator is in the phase projected
from its members.  Most commands write the projected phase; `StartMember` and
`RetryKnownFailure` write `Applying` and `RecordUnknown` writes
`ReconciliationRequired`, which agrees as long as no failure is retried while
another member's outcome is unknown.

    no blind retries → phase = projectedPhase members  (agrees_step, phase_agrees)
-/

namespace GaugeDesk.Settlement

open Std TreeMap

variable {id : String} {m m' : SettlementMemberState} {members : Members}

/-! ## The projected phase of an updated map -/

/-- `projectedPhase`, from the list of members. -/
def phaseOf (l : List (String × SettlementMemberState)) : SettlementPhase :=
  let t := l.foldl (fun t p => t.add p.2.phase) ({} : Tally)
  if t.unknown then .reconciliationRequired
  else if !t.active && t.resolvedNotSuccess == 0 && t.succeeded == l.length then .completed
  else if !t.active && decide (t.succeeded > 0) && decide (t.resolvedNotSuccess > 0) then
    .partiallyApplied
  else .applying

theorem projectedPhase_eq (members : Members) : projectedPhase members = phaseOf members.toList := by
  unfold projectedPhase phaseOf tally
  rw [length_toList]

theorem phaseOf_perm {l l' : List (String × SettlementMemberState)} (h : l.Perm l') :
    phaseOf l = phaseOf l' := by
  unfold phaseOf
  simp only [foldl_tally, h.countP_eq, h.any_eq, h.length_eq]

theorem phaseOf_cons_congr (h : m'.phase = m.phase) (l : List (String × SettlementMemberState)) :
    phaseOf ((id, m') :: l) = phaseOf ((id, m) :: l) := by
  have hfold : ((id, m') :: l).foldl (fun t p => t.add p.2.phase) ({} : Tally) =
      ((id, m) :: l).foldl (fun t p => t.add p.2.phase) {} := by
    rw [List.foldl_cons, List.foldl_cons, h]
  unfold phaseOf
  rw [hfold]
  rfl

theorem projectedPhase_insert (members : Members) (h : m'.phase = m.phase) :
    projectedPhase (members.insert id m') = projectedPhase (members.insert id m) := by
  rw [projectedPhase_eq, projectedPhase_eq,
    phaseOf_perm (toList_insert_perm_others members id m'),
    phaseOf_perm (toList_insert_perm_others members id m), phaseOf_cons_congr h]

theorem projectedPhase_rewrite (hm : members[id]? = some m) (h : m'.phase = m.phase) :
    projectedPhase (members.insert id m') = projectedPhase members := by
  rw [projectedPhase_eq, projectedPhase_eq,
    phaseOf_perm (toList_insert_perm_others members id m'),
    phaseOf_perm (toList_perm_of_some members id m hm), phaseOf_cons_congr h]

theorem projectedPhase_unknown (hm : members[id]? = some m) (hp : m.phase = .unknown) :
    projectedPhase members = .reconciliationRequired := by
  unfold projectedPhase
  refine if_pos ?_
  by_contra hu
  exact (tally_spec members).1.mp (Bool.eq_false_iff.mpr hu) id m hm hp

/-- No member's outcome is unknown. -/
def Known (members : Members) : Prop := members.Each fun m => m.phase ≠ .unknown

theorem projectedPhase_active (hk : Known members) (hm : members[id]? = some m)
    (hp : m.phase = .started) : projectedPhase members = .applying := by
  have hactive : (tally members).active = true := by
    by_contra ha
    exact ((tally_spec members).2.1.mp (Bool.eq_false_iff.mpr ha) id m hm).2.2 hp
  simp [projectedPhase, (tally_spec members).1.mpr hk, hactive]

/-! ## Agreement -/

/-- From the first effect on, a nonterminal phase is the projected one. -/
def Agrees (s : TargetSettlementState) : Prop :=
  s.startedEffects ≠ 0 → s.phase.terminal = false → s.phase = projectedPhase s.members

/-- An accepted retry of a failed member while another member's outcome is unknown. -/
def BlindRetry (s : TargetSettlementState) (c : TargetSettlementCommand) : Prop :=
  ∃ id p dm m, c = .retryKnownFailure id p ∧ member s id = .ok (dm, m) ∧ m.phase = .failed ∧
    dm.retrySafeAfterFailure = true ∧ p.exactFor dm = true ∧
    (∀ old, m.lanePermit = some old → old.sequence < p.sequence) ∧ ¬ Known s.members

theorem projectedPhase_start (hk : Known members) (id : String) (m : SettlementMemberState)
    (p : TargetLanePermit) : projectedPhase (members.insert id (m.start p)) = .applying := by
  refine projectedPhase_active (hk.insert id ?_) getElem?_insert_self rfl
  show SettlementMemberPhase.started ≠ .unknown
  simp

theorem Agrees.known {s : TargetSettlementState} (h : Agrees s) (hst : Staged s)
    (hp : s.phase = .ready ∨ s.phase = .applying) : Known s.members := by
  intro id m hm hu
  by_cases hz : s.startedEffects = 0
  · have hquiet : m.phase.unlaunched = true := hst.quiet hz id m hm
    rw [hu] at hquiet
    cases hquiet
  · have hterminal : s.phase.terminal = false := by
      rcases hp with hp | hp <;> rw [hp] <;> rfl
    have hphase := h hz hterminal
    rw [projectedPhase_unknown hm hu] at hphase
    rcases hp with hp | hp <;> cases hp.symm.trans hphase

theorem agrees_step {s s' : TargetSettlementState} {c : TargetSettlementCommand}
    {es : List TargetSettlementEvent} (h : Agrees s) (hst : Staged s) (hs : Step s c es s')
    (hc : ¬ BlindRetry s c) : Agrees s' := by
  have hpreparing : s.phase.preparing = true → s'.startedEffects = s.startedEffects → Agrees s' := by
    intro hp he hne
    exact absurd (he.trans (hst.preparing hp)) hne
  cases hs with
  | declare d hp | beginPreflight hp | refuse e dm m reason hp | pass e dm m hp
  | passLast e dm m hp => exact hpreparing (by rw [hp]; rfl) rfl
  | cancelBeforeEffects reason hp hz | expireBeforeEffects reason hp hz =>
    exact fun hne => absurd hz hne
  | startMember id p dm m hp =>
    exact fun _ _ => (projectedPhase_start (h.known hst hp) id m p).symm
  | settle | supersede =>
    exact fun _ _ => projectedPhase_insert s.members rfl
  | recordUnknown =>
    exact fun _ _ => (projectedPhase_unknown getElem?_insert_self rfl).symm
  | requestQuery id q dm m hm =>
    intro hne hterminal
    rw [projectedPhase_rewrite (members_of_member hm) (by rfl)]
    exact h hne hterminal
  | retry id p dm m hm hph hsafe hex hnew =>
    have hk : Known s.members := by
      by_contra hk
      exact hc ⟨id, p, dm, m, rfl, hm, hph, hsafe, hex, hnew, hk⟩
    exact fun _ _ => (projectedPhase_start hk id m p).symm
  | cancelUnstarted => exact fun _ _ => rfl
  | compensate | abandon => exact nofun

theorem agrees_run (cs : List TargetSettlementCommand)
    (h : settlement.StepsMeet (fun s c => ¬ BlindRetry s c) settlement.init cs) :
    Agrees (settlement.run cs) := by
  refine (Reducer.StepsMeet.inv settlement _ (fun s => Staged s ∧ Agrees s) ?_ settlement.init
    ⟨Staged.init, fun hne => absurd rfl hne⟩ cs h).2
  rintro s c ⟨hst, hag⟩ hc
  rcases settlement_decides.admits.cases s c with ⟨he, -⟩ | hs
  · rw [he]
    exact ⟨hst, hag⟩
  · exact ⟨hst.step hs, agrees_step hag hst hs hc⟩

/-- **The coordinator agrees with its members** along every run without blind retries: from the
first effect on a nonterminal phase is the projected one, and `ReconciliationRequired` while an
outcome is unknown. -/
theorem phase_agrees (cs : List TargetSettlementCommand)
    (h : settlement.StepsMeet (fun s c => ¬ BlindRetry s c) settlement.init cs)
    (he : (settlement.run cs).startedEffects ≠ 0)
    (hp : (settlement.run cs).phase.terminal = false) :
    (settlement.run cs).phase = projectedPhase (settlement.run cs).members ∧
      ∀ (id : String) (m : SettlementMemberState), (settlement.run cs).members[id]? = some m →
        m.phase = .unknown → (settlement.run cs).phase = .reconciliationRequired := by
  have hphase := agrees_run cs h he hp
  refine ⟨hphase, fun id m hm hu => ?_⟩
  rw [hphase]
  exact projectedPhase_unknown hm hu

/-- Both members are started, one fails and the outcome of the other is unknown. -/
def unknownRun : List TargetSettlementCommand :=
  [.declare (declarationOf [memberA, memberB]), .beginPreflight,
    .recordPreflight (preflight memberA true), .recordPreflight (preflight memberB true),
    .startMember "a" (permit memberA 1), .startMember "b" (permit memberB 1),
    .recordReceipt (receipt memberA .failed), .recordUnknown "b" "lost"]

theorem phase_agrees_unknownRun :
    (settlement.run unknownRun).phase = .reconciliationRequired ∧
      (settlement.run unknownRun).phase = projectedPhase (settlement.run unknownRun).members := by
  refine ⟨by decide +kernel, (phase_agrees unknownRun ?_ (by decide +kernel) (by decide +kernel)).1⟩
  refine ⟨?_, ?_, ?_, ?_, ?_, ?_, ?_, ?_, True.intro⟩
  all_goals
    rintro ⟨id, p, dm, m, hc, -⟩
    cases hc

/-- The failed member is retried while the other is unknown. -/
theorem phase_disagrees :
    (settlement.run (unknownRun ++ [.retryKnownFailure "a" (permit memberA 2)])).phase = .applying ∧
      (settlement.run (unknownRun ++ [.retryKnownFailure "a" (permit memberA 2)])).startedEffects = 3 ∧
      projectedPhase (settlement.run (unknownRun ++
        [.retryKnownFailure "a" (permit memberA 2)])).members = .reconciliationRequired := by
  decide +kernel

end GaugeDesk.Settlement
