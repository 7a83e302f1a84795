import GaugeDesk.Settlement.SettlementMembers

/-!
# Target settlement: when a terminal phase is final

`CancelUnstarted` looks at the coordinator's phase before it changes anything.
Five other commands look only at the phase of the member they name and then
project a new coordinator phase, so they leave a terminal phase again
(`terminal_phase_left`).  A run that never offers one of them to a member it fits
keeps a terminal phase and starts nothing (`terminal_phase_final`), and each such
command does leave it (`memberChange_leaves_terminal`).
-/

namespace GaugeDesk.Settlement

open Std

variable {s s' : TargetSettlementState} {c : TargetSettlementCommand} {es : List TargetSettlementEvent}

/-- The command names a member whose own record takes it: a receipt or an unknown outcome for a
started member, a queried receipt for an unknown one, a retry of a failed one, or the
supersession of one that has not started.  The coordinator's phase plays no part. -/
def MemberChange (s : TargetSettlementState) : TargetSettlementCommand → Prop
  | .recordReceipt r => ∃ dm m, member s r.memberId = .ok (dm, m) ∧ m.phase = .started ∧
      m.receipt = none ∧ r.exactFor dm = true
  | .recordUnknown id evidenceRef => ∃ dm m, member s id = .ok (dm, m) ∧ m.phase = .started ∧
      validIdentity evidenceRef = true
  | .recordQueryReceipt r => ∃ dm m, member s r.memberId = .ok (dm, m) ∧ m.phase = .unknown ∧
      m.receipt = none ∧ m.queryRefs ≠ [] ∧ r.exactFor dm = true
  | .retryKnownFailure id p => ∃ dm m, member s id = .ok (dm, m) ∧ m.phase = .failed ∧
      dm.retrySafeAfterFailure = true ∧ p.exactFor dm = true ∧
      ∀ old, m.lanePermit = some old → old.sequence < p.sequence
  | .supersedeNotStarted id laterMemberRef => ∃ dm m, member s id = .ok (dm, m) ∧
      m.phase.unstarted = true ∧ validIdentity laterMemberRef = true
  | _ => False

/-! ## One step -/

/-- In a terminal phase only a member change does anything to the phase or to a member's start. -/
theorem terminal_step
    (ht : s.phase.terminal = true) (hs : Step s c es s') (hc : ¬ MemberChange s c) :
    s'.phase = s.phase ∧ launches es = [] := by
  cases hs with
  | declare d hp | beginPreflight hp | refuse e dm m reason hp | pass e dm m hp
  | passLast e dm m hp | cancelUnstarted reason events hp | compensate links hp =>
    rw [hp] at ht
    cases ht
  | cancelBeforeEffects reason hp | expireBeforeEffects reason hp | abandon reason hp =>
    rcases hp with hp | hp | hp <;> rw [hp] at ht <;> cases ht
  | startMember id p dm m hp =>
    rcases hp with hp | hp <;> rw [hp] at ht <;> cases ht
  | settle fromQuery r dm m hm hph hrc hq hex =>
    exfalso
    apply hc
    cases fromQuery with
    | false => exact ⟨dm, m, hm, hph, hrc, hex⟩
    | true => exact ⟨dm, m, hm, hph, hrc, hq rfl, hex⟩
  | recordUnknown id ev dm m hm hph hev => exact absurd ⟨dm, m, hm, hph, hev⟩ hc
  | requestQuery => exact ⟨rfl, rfl⟩
  | retry id p dm m hm hph hsafe hex hnew => exact absurd ⟨dm, m, hm, hph, hsafe, hex, hnew⟩ hc
  | supersede id later dm m hm hph hl => exact absurd ⟨dm, m, hm, hph, hl⟩ hc

theorem terminal_next (ht : s.phase.terminal = true) (hc : ¬ MemberChange s c) :
    (settlement.step s c).phase = s.phase ∧ launches (settlement.emitted s c) = [] := by
  rcases settlement_decides.admits.cases s c with ⟨he, hn⟩ | hstep
  · rw [he, hn]
    exact ⟨rfl, rfl⟩
  · exact terminal_step ht hstep hc

/-! ## Runs -/

/-- **A terminal phase is final on runs without member changes**: the coordinator keeps the phase
and neither starts nor retries a member. -/
theorem terminal_phase_final (cs ds : List TargetSettlementCommand)
    (ht : (settlement.run cs).phase.terminal = true)
    (hds : settlement.StepsMeet (fun s c => ¬ MemberChange s c) (settlement.run cs) ds) :
    (settlement.run (cs ++ ds)).phase = (settlement.run cs).phase ∧
      launches (settlement.traceFrom (settlement.run cs) ds) = [] := by
  rw [settlement.run_append]
  refine Reducer.StepsMeet.trace_inv settlement (fun s c => ¬ MemberChange s c)
    (fun s tr => s.phase = (settlement.run cs).phase ∧ launches tr = []) ?_
    (settlement.run cs) [] ⟨rfl, rfl⟩ ds hds
  intro s tr c ⟨hp, htr⟩ hc
  obtain ⟨hp', hes⟩ := terminal_next (c := c) (by rw [hp]; exact ht) hc
  exact ⟨hp'.trans hp, by rw [launches_append, htr, hes, List.nil_append]⟩

/-- A cancelled coordinator, asked to cancel again and to start a member. -/
theorem terminal_phase_final_cancelled :
    (settlement.run [.declare (declarationOf [memberA, memberB]), .cancelBeforeEffects "stop",
      .cancelUnstarted "again", .startMember "a" (permit memberA 1)]).phase = .cancelled := by
  have h := terminal_phase_final
    [.declare (declarationOf [memberA, memberB]), .cancelBeforeEffects "stop"]
    [.cancelUnstarted "again", .startMember "a" (permit memberA 1)] (by decide)
    ⟨id, id, True.intro⟩
  exact h.1

/-- The supersession of a member takes a cancelled coordinator back to `Applying`. -/
theorem terminal_phase_left :
    (settlement.run [.declare (declarationOf [memberA, memberB]),
      .cancelBeforeEffects "stop"]).phase = .cancelled ∧
    (settlement.run [.declare (declarationOf [memberA, memberB]), .cancelBeforeEffects "stop",
      .supersedeNotStarted "a" "later"]).phase = .applying := by
  decide

/-! ## Member changes are admitted in every phase -/

theorem decide_memberChange (hc : MemberChange s c) : ∃ es, settlement.decide s c = .ok es := by
  cases c with
  | recordReceipt r =>
    obtain ⟨dm, m, hm, hp, hr, hex⟩ := hc
    have hphase := phaseAfterMemberChange_of_some (p := r.outcome.phase) (members_of_member hm)
    simp [settlement, TargetSettlementState.decide, recordReceipt, hm, hp, hr, hex, hphase, bind,
      Except.bind, pure, Except.pure]
  | recordUnknown id evidenceRef =>
    obtain ⟨dm, m, hm, hp, hev⟩ := hc
    simp [settlement, TargetSettlementState.decide, hm, hp, hev, bind, Except.bind]
  | recordQueryReceipt r =>
    obtain ⟨dm, m, hm, hp, hr, hq, hex⟩ := hc
    have hphase := phaseAfterMemberChange_of_some (p := r.outcome.phase) (members_of_member hm)
    simp [settlement, TargetSettlementState.decide, recordReceipt, hm, hp, hr, hq, hex, hphase, bind,
      Except.bind, pure, Except.pure]
  | retryKnownFailure id p =>
    obtain ⟨dm, m, hm, hp, hsafe, hex, hnew⟩ := hc
    have hnewer : (m.lanePermit.any fun old => Decidable.decide (p.sequence ≤ old.sequence)) = false := by
      cases hl : m.lanePermit with
      | none => rfl
      | some old =>
        have := hnew old hl
        simp only [Option.any_some, decide_eq_false_iff_not]
        omega
    simp [settlement, TargetSettlementState.decide, hm, hp, hsafe, hex, hnewer, bind, Except.bind]
  | supersedeNotStarted id laterMemberRef =>
    obtain ⟨dm, m, hm, hp, hl⟩ := hc
    have hphase := phaseAfterMemberChange_of_some (p := .supersededBeforeStart) (members_of_member hm)
    simp [settlement, TargetSettlementState.decide, hm, hp, hl, hphase, bind, Except.bind, pure,
      Except.pure]
  | _ => exact hc.elim

/-- The member a change names has not succeeded. -/
theorem member_of_memberChange (hc : MemberChange s c) :
    ∃ id dm m, member s id = .ok (dm, m) ∧ m.phase ≠ .succeeded := by
  cases c with
  | recordReceipt | recordUnknown | recordQueryReceipt | retryKnownFailure =>
    obtain ⟨dm, m, hm, hp, -⟩ := hc
    exact ⟨_, dm, m, hm, by rw [hp]; simp⟩
  | supersedeNotStarted id laterMemberRef =>
    obtain ⟨dm, m, hm, hp, -⟩ := hc
    refine ⟨_, dm, m, hm, ?_⟩
    intro hs
    rw [hs] at hp
    cases hp
  | _ => exact hc.elim

/-- Where a member change takes the coordinator. -/
theorem phase_of_memberChange
    (hc : MemberChange s c) (hs : Step s c es s') :
    s'.phase = .reconciliationRequired ∨ s'.phase = .completed ∨ s'.phase = .partiallyApplied ∨
      s'.phase = .applying := by
  cases hs with
  | settle | supersede => exact projectedPhase_cases _
  | recordUnknown => exact .inl rfl
  | retry => exact .inr (.inr (.inr rfl))
  | _ => exact hc.elim

/-- Every member change moves the coordinator out of the terminal phase it was in, so the
condition of `terminal_phase_final` cannot be weakened. -/
theorem memberChange_leaves_terminal (cs : List TargetSettlementCommand)
    (c : TargetSettlementCommand) (ht : (settlement.run cs).phase.terminal = true)
    (hc : MemberChange (settlement.run cs) c) :
    (settlement.step (settlement.run cs) c).phase ≠ (settlement.run cs).phase := by
  obtain ⟨es, hd⟩ := decide_memberChange hc
  obtain ⟨s', he⟩ := settlement_decides.evolve_decided hd
  obtain ⟨hstep, -⟩ := settlement.step_of_ok _ _ _ _ hd he
  rw [hstep]
  intro heq
  rcases phase_of_memberChange hc (settlement_decides.admits _ _ _ _ hd he) with hp | hp | hp | hp
  · rw [← heq, hp] at ht
    cases ht
  · -- a completed coordinator has no member left to change
    obtain ⟨id, dm, m, hm, hne⟩ := member_of_memberChange hc
    exact hne ((sound_run cs).completed (heq.symm.trans hp) id m (members_of_member hm))
  · rw [← heq, hp] at ht
    cases ht
  · rw [← heq, hp] at ht
    cases ht

/-- The supersession of a member leaves a cancelled coordinator's phase. -/
theorem memberChange_leaves_terminal_cancelled :
    let s := settlement.run [.declare (declarationOf [memberA, memberB]), .cancelBeforeEffects "stop"]
    (settlement.step s (.supersedeNotStarted "a" "later")).phase ≠ s.phase :=
  memberChange_leaves_terminal _ _ (by decide) ⟨memberA, {}, by decide, rfl, rfl⟩

end GaugeDesk.Settlement
