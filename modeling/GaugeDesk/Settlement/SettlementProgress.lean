import GaugeDesk.Settlement.SettlementMembers

/-!
# Target settlement: the way out of a nonterminal phase

Before the first effect a coordinator that is declared, preflighting or ready
can be cancelled, and after it any nonterminal phase can be abandoned.  What is
left is `Applying` without a started effect, where a supersession takes a
coordinator that has not started anything: it needs a member that passed its
preflight, to be started and then abandoned.  Without one it is `Stranded`, and
no command leads out.

    Stranded s → every later state is stranded  (stranded_runFrom)
    ¬ Stranded s → a terminal phase is at most two commands away  (exits)
-/

namespace GaugeDesk.Settlement

open Std TreeMap

variable {c : TargetSettlementCommand} {es : List TargetSettlementEvent}
  {s s' : TargetSettlementState} {m : SettlementMemberState} {id : String}

/-! ## Phases before the first effect -/

/-- No effect of the member ever started. -/
def SettlementMemberPhase.unlaunched : SettlementMemberPhase → Bool
  | .pending | .preflightPassed | .supersededBeforeStart => true
  | _ => false

def SettlementPhase.preparing : SettlementPhase → Bool
  | .undeclared | .declared | .preflighting | .ready => true
  | _ => false

theorem preparing_projectedPhase (members : Members) :
    (projectedPhase members).preparing = false := by
  rcases projectedPhase_cases members with h | h | h | h <;> rw [h] <;> rfl

theorem projectedPhase_unlaunched {members : Members}
    (h : members.Each fun m => m.phase.unlaunched = true) (hm : members[id]? = some m)
    (hp : m.phase = .supersededBeforeStart) : projectedPhase members = .applying := by
  obtain ⟨hunknown, -, hsucceeded, hresolved⟩ := tally_spec members
  have hsome : (tally members).resolvedNotSuccess ≠ 0 := fun hr => (hresolved.mp hr id m hm).2.2 hp
  rw [projectedPhase, hunknown.mpr, hsucceeded.mpr]
  · simp [hsome]
  all_goals
    intro id m hm hph
    have hu : m.phase.unlaunched = true := h id m hm
    rw [hph] at hu
    cases hu

/-! ## What the started effects say -/

structure Staged (s : TargetSettlementState) : Prop where
  declared : s.declaration ≠ none → s.phase ≠ .undeclared
  preparing : s.phase.preparing = true → s.startedEffects = 0
  quiet : s.startedEffects = 0 → s.members.Each fun m => m.phase.unlaunched = true
  unapplied : s.startedEffects = 0 → s.phase ≠ .partiallyApplied ∧ s.phase ≠ .reconciliationRequired

theorem saturatingSucc32_ne_zero (n : Nat) : saturatingSucc32 n ≠ 0 := by
  unfold saturatingSucc32 u32Max
  omega

theorem Staged.coordinator (h : Staged s) (hm : s'.members = s.members)
    (he : s'.startedEffects = s.startedEffects) (hd : s'.phase ≠ .undeclared)
    (hp : s'.phase.preparing = true → s.phase.preparing = true)
    (hu : s'.phase ≠ .partiallyApplied ∧ s'.phase ≠ .reconciliationRequired) : Staged s' where
  declared := fun _ => hd
  preparing := fun hpre => by rw [he]; exact h.preparing (hp hpre)
  quiet := by rw [he, hm]; exact h.quiet
  unapplied := fun _ => hu

theorem Staged.outcome (h : Staged s) (hl : s.members[id]? = some m)
    (hm : m.phase.unlaunched = false) (he : s'.startedEffects = s.startedEffects)
    (hd : s'.phase ≠ .undeclared) (hp : s'.phase.preparing = true → s.phase.preparing = true) :
    Staged s' := by
  have hne : s.startedEffects ≠ 0 := by
    intro hz
    have hu : m.phase.unlaunched = true := h.quiet hz id m hl
    rw [hm] at hu
    cases hu
  refine ⟨fun _ => hd, fun hpre => ?_, fun hz => ?_, fun hz => ?_⟩
  · exact absurd (h.preparing (hp hpre)) hne
  · exact absurd (he.symm.trans hz) hne
  · exact absurd (he.symm.trans hz) hne

theorem Staged.launched (he : s'.startedEffects ≠ 0) (hp : s'.phase.preparing = false) :
    Staged s' := by
  refine ⟨fun _ hu => ?_, fun hpre => ?_, fun hz => absurd hz he, fun hz => absurd hz he⟩
  · rw [hu] at hp
    cases hp
  · rw [hp] at hpre
    cases hpre

/-- Superseding unlaunched members keeps the coordinator in `Applying`. -/
theorem Staged.supersede (h : Staged s) (hz : s.startedEffects = 0) (m : SettlementMemberState) :
    projectedPhase (s.members.insert id { m with phase := .supersededBeforeStart }) = .applying :=
  projectedPhase_unlaunched ((h.quiet hz).insert id rfl) getElem?_insert_self rfl

theorem Staged.step (h : Staged s) (hs : Step s c es s') : Staged s' := by
  cases hs with
  | declare d hp hd hv =>
    refine ⟨fun _ => by simp, fun _ => h.preparing (by rw [hp]; rfl), fun _ => ?_, fun _ => by simp⟩
    intro id m hl
    cases eq_of_initialMembers hl
    rfl
  | beginPreflight hp => exact h.coordinator rfl rfl (by simp) (by rw [hp]; exact id) (by simp)
  | refuse e dm m reason hp hm =>
    have hz : s.startedEffects = 0 := h.preparing (by rw [hp]; rfl)
    have hall := h.quiet hz
    refine ⟨fun _ => by simp, (nofun), fun _ => ?_, fun _ => by simp⟩
    exact hall.insert e.memberId (hall e.memberId m (members_of_member hm))
  | pass e dm m hp =>
    have hz : s.startedEffects = 0 := h.preparing (by rw [hp]; rfl)
    refine ⟨fun _ => ?_, fun _ => hz, fun _ => (h.quiet hz).insert e.memberId rfl, fun _ => ?_⟩
    · show s.phase ≠ .undeclared
      rw [hp]
      simp
    · show s.phase ≠ .partiallyApplied ∧ s.phase ≠ .reconciliationRequired
      rw [hp]
      simp
  | passLast e dm m hp =>
    have hz : s.startedEffects = 0 := h.preparing (by rw [hp]; rfl)
    exact ⟨fun _ => by simp, fun _ => hz, fun _ => (h.quiet hz).insert e.memberId rfl,
      fun _ => by simp⟩
  | startMember | retry => exact .launched (saturatingSucc32_ne_zero _) rfl
  | settle fromQuery r dm m hm hph =>
    refine h.outcome (members_of_member hm) ?_ rfl ?_ ?_
    · rw [hph]
      cases fromQuery <;> rfl
    · intro hu
      have hpre := preparing_projectedPhase (s.members.insert r.memberId { m with phase := r.outcome.phase })
      change projectedPhase _ = .undeclared at hu
      rw [hu] at hpre
      cases hpre
    · intro hpre
      rw [preparing_projectedPhase] at hpre
      cases hpre
  | recordUnknown id ev dm m hm hph hev =>
    exact h.outcome (members_of_member hm) (by rw [hph]; rfl) rfl (by simp)
      (nofun)
  | requestQuery id q dm m hm hph =>
    obtain ⟨d, hd, -, hl⟩ := (member_eq_ok _ _ _ _).mp hm
    exact h.outcome hl (by rw [hph]; rfl) rfl (h.declared (by rw [hd]; simp)) (fun hpre => hpre)
  | cancelUnstarted reason events hp hz hr hids => exact .launched hz (preparing_projectedPhase _)
  | supersede id later dm m =>
    by_cases hz : s.startedEffects = 0
    · refine ⟨fun _ => ?_, fun _ => hz, fun _ => (h.quiet hz).insert id rfl, fun _ => ?_⟩
      · show projectedPhase _ ≠ _
        rw [h.supersede hz]
        simp
      · show projectedPhase _ ≠ _ ∧ projectedPhase _ ≠ _
        rw [h.supersede hz]
        simp
    · exact .launched hz (preparing_projectedPhase _)
  | _ =>
    exact h.coordinator rfl rfl (by simp) (nofun) (by simp)

theorem Staged.init : Staged settlement.init := by
  refine ⟨fun h => absurd rfl h, fun _ => rfl, fun _ id m hl => ?_, fun _ => ?_⟩
  · exact (each_empty (Q := fun _ => False) id m hl).elim
  · show SettlementPhase.undeclared ≠ _ ∧ SettlementPhase.undeclared ≠ _
    simp

theorem staged_run (cs : List TargetSettlementCommand) : Staged (settlement.run cs) :=
  settlement_decides.admits.run_inv Staged Staged.init (fun _ _ _ _ h hs => h.step hs) cs

/-! ## Stranded coordinators -/

/-- `Applying`, but nothing was started and nothing can be. -/
structure Stranded (s : TargetSettlementState) : Prop where
  phase : s.phase = .applying
  effects : s.startedEffects = 0
  members : s.members.Each fun m => m.phase ≠ .preflightPassed

/-- A supersession before the first effect that leaves no other member to start. -/
def StrandingSupersession (s : TargetSettlementState) (c : TargetSettlementCommand) : Prop :=
  ∃ id later dm m, c = .supersedeNotStarted id later ∧ member s id = .ok (dm, m) ∧
    m.phase.unstarted = true ∧ validIdentity later = true ∧ s.startedEffects = 0 ∧
    ∀ (k : String) (other : SettlementMemberState), id ≠ k → s.members[k]? = some other →
      other.phase ≠ .preflightPassed

theorem Stranded.idle (h : Stranded s) (hs : Staged s) {dm : SettlementMemberDeclaration}
    (hm : member s id = .ok (dm, m)) : m.phase = .pending ∨ m.phase = .supersededBeforeStart := by
  have hl := members_of_member hm
  have hquiet : m.phase.unlaunched = true := hs.quiet h.effects id m hl
  have hne : m.phase ≠ .preflightPassed := h.members id m hl
  cases hp : m.phase <;> simp [hp, SettlementMemberPhase.unlaunched] at hquiet hne ⊢

theorem Stranded.step (h : Stranded s) (hst : Staged s) (hs : Step s c es s') : Stranded s' := by
  have hphase := h.phase
  cases hs with
  | supersede id later dm m =>
    refine ⟨hst.supersede h.effects m, h.effects, ?_⟩
    exact TreeMap.Each.insert h.members id (by simp)
  | declare d hp | beginPreflight hp | refuse e dm m reason hp | pass e dm m hp
  | passLast e dm m hp | compensate links hp => cases hphase.symm.trans hp
  | cancelBeforeEffects reason hp | expireBeforeEffects reason hp =>
    rcases hp with hp | hp | hp <;> cases hphase.symm.trans hp
  | startMember id p dm m hp hm hph => exact absurd hph (h.members id m (members_of_member hm))
  | settle fromQuery r dm m hm hph =>
    rcases h.idle hst hm with hp | hp <;> rw [hp] at hph <;> cases fromQuery <;> cases hph
  | recordUnknown id ev dm m hm hph | requestQuery id q dm m hm hph | retry id p dm m hm hph =>
    rcases h.idle hst hm with hp | hp <;> cases hp.symm.trans hph
  | cancelUnstarted reason events hp hz | abandon reason hp hz => exact absurd h.effects hz

/-- **A stranded coordinator stays stranded**, whatever is commanded. -/
theorem stranded_runFrom (h : Stranded s) (hst : Staged s) (cs : List TargetSettlementCommand) :
    Stranded (settlement.runFrom s cs) := by
  refine (settlement.runFrom_inv (fun s => Staged s ∧ Stranded s) ?_ s ⟨hst, h⟩ cs).2
  intro s c hi
  refine settlement_decides.admits.next (fun s => Staged s ∧ Stranded s) ?_ s c hi
  rintro s c es s' ⟨hst, h⟩ hs
  exact ⟨hst.step hs, h.step hst hs⟩

theorem stranding_of_stranded (h : Stranded s') (hst : Staged s) (hs : Step s c es s') :
    StrandingSupersession s c := by
  have hphase := h.phase
  have heffects := h.effects
  have hlaunched : ∀ {id dm m}, s.startedEffects = 0 → member s id = .ok (dm, m) →
      m.phase.unlaunched = false → StrandingSupersession s c := by
    intro id dm m hz hm hp
    have hquiet : m.phase.unlaunched = true := hst.quiet hz id m (members_of_member hm)
    rw [hp] at hquiet
    cases hquiet
  cases hs with
  | supersede id later dm m hm hph hl =>
    refine ⟨id, later, dm, m, rfl, hm, hph, hl, heffects, fun k other hne hlk => ?_⟩
    refine h.members k other ?_
    rw [getElem?_insert_eq, if_neg hne]
    exact hlk
  | settle fromQuery r dm m hm hph =>
    refine hlaunched heffects hm ?_
    rw [hph]
    cases fromQuery <;> rfl
  | requestQuery id q dm m hm hph => exact hlaunched heffects hm (by rw [hph]; rfl)
  | pass e dm m hp => cases hp.symm.trans hphase
  | startMember | retry => exact absurd heffects (saturatingSucc32_ne_zero _)
  | cancelUnstarted reason events hp hz => exact absurd heffects hz
  | _ => cases hphase

theorem not_stranded_run (cs : List TargetSettlementCommand)
    (h : settlement.StepsMeet (fun s c => ¬ StrandingSupersession s c) settlement.init cs) :
    ¬ Stranded (settlement.run cs) := by
  refine (Reducer.StepsMeet.inv settlement _ (fun s => Staged s ∧ ¬ Stranded s) ?_ settlement.init
    ⟨Staged.init, fun h => by cases h.phase⟩ cs h).2
  rintro s c ⟨hst, hns⟩ hc
  rcases settlement_decides.admits.cases s c with ⟨he, -⟩ | hs
  · rw [he]
    exact ⟨hst, hns⟩
  · exact ⟨hst.step hs, fun hstr => hc (stranding_of_stranded hstr hst hs)⟩

/-! ## Ways out -/

/-- The coordinator accepts the command. -/
def Admissible (s : TargetSettlementState) (c : TargetSettlementCommand) : Prop :=
  ∃ es, settlement.decide s c = .ok es

/-- Admissible commands lead to a terminal phase. -/
def Exits (s : TargetSettlementState) : Prop :=
  ∃ ds, settlement.StepsMeet Admissible s ds ∧ (settlement.runFrom s ds).phase.terminal = true

theorem Stranded.no_exit (h : Stranded s) (hst : Staged s) : ¬ Exits s := by
  rintro ⟨ds, -, hterminal⟩
  have hphase := (stranded_runFrom h hst ds).phase
  rw [hphase] at hterminal
  cases hterminal

theorem exits_of_step (hd : settlement.decide s c = .ok es)
    (he : settlement.evolveAll s es = .ok s') (h : Exits s') : Exits s := by
  obtain ⟨ds, hmeet, hterminal⟩ := h
  have hstep := (settlement.step_of_ok s s' c es hd he).1
  refine ⟨c :: ds, ⟨⟨es, hd⟩, ?_⟩, ?_⟩
  · rw [hstep]
    exact hmeet
  · show (settlement.runFrom (settlement.step s c) ds).phase.terminal = true
    rw [hstep]
    exact hterminal

theorem exits_of_terminal (h : s.phase.terminal = true) : Exits s :=
  ⟨[], True.intro, h⟩

theorem exits_by_cancel (hp : s.phase = .declared ∨ s.phase = .preflighting ∨ s.phase = .ready)
    (hz : s.startedEffects = 0) : Exits s := by
  have hd : settlement.decide s (.cancelBeforeEffects "stop") = .ok [.coordinatorCancelled "stop"] := by
    refine if_neg ?_
    simp only [hp, hz, not_true_eq_false, ne_eq, false_or, Decidable.not_not]
    decide
  exact exits_of_step hd (settlement.evolveAll_one rfl) (exits_of_terminal rfl)

theorem exits_by_abandon
    (hp : s.phase = .applying ∨ s.phase = .partiallyApplied ∨ s.phase = .reconciliationRequired)
    (hz : s.startedEffects ≠ 0) : Exits s := by
  have hd : settlement.decide s (.abandonPartial "stop") =
      .ok [.coordinatorAbandonedPartial "stop"] := by
    refine if_neg ?_
    simp only [hp, hz, not_true_eq_false, false_or, Decidable.not_not]
    decide
  exact exits_of_step hd (settlement.evolveAll_one rfl) (exits_of_terminal rfl)

/-- The first permit of a member's lane. -/
def firstPermit (dm : SettlementMemberDeclaration) : TargetLanePermit where
  laneId := "lane"
  targetId := dm.targetId
  memberId := dm.memberId
  operationId := dm.operationId
  sequence := 1
  authorityPosition := "position"

theorem firstPermit_exactFor (dm : SettlementMemberDeclaration) :
    (firstPermit dm).exactFor dm = true := by
  have hlane : (decide (1 > 0) && validIdentity "lane" && validIdentity "position") = true := by
    decide
  simp only [TargetLanePermit.exactFor, firstPermit, beq_self_eq_true, Bool.true_and]
  exact hlane

/-- Start the member that passed, then abandon. -/
theorem exits_by_start (hs : Sound s) (hp : s.phase = .applying) (hl : s.members[id]? = some m)
    (hm : m.phase = .preflightPassed) : Exits s := by
  obtain ⟨dm, hmember⟩ := hs.lookup hl
  have hreceipt : m.receipt = none := (hs.members hmember).receipt_none (by rw [hm]; simp)
  have hdecide : settlement.decide s (.startMember id (firstPermit dm)) =
      .ok [.memberStarted id (firstPermit dm), .coordinatorPhaseChanged .applying] := by
    refine (if_neg (by rw [hp]; simp)).trans ?_
    rw [hmember]
    refine (if_neg (by rw [hm, hreceipt]; simp)).trans (if_neg ?_)
    rw [firstPermit_exactFor]
    simp
  refine exits_of_step hdecide (settlement.evolveAll_two (start_of_some _ hl) rfl)
    (exits_by_abandon ?_ ?_)
  · exact .inl rfl
  · exact saturatingSucc32_ne_zero _

/-- Unless it is stranded, a declared coordinator has a way out. -/
theorem exits (hs : Sound s) (hst : Staged s) (hd : s.declaration ≠ none) (hns : ¬ Stranded s) :
    Exits s := by
  cases hp : s.phase with
  | undeclared => exact absurd hp (hst.declared hd)
  | declared => exact exits_by_cancel (.inl hp) (hst.preparing (by rw [hp]; rfl))
  | preflighting => exact exits_by_cancel (.inr (.inl hp)) (hst.preparing (by rw [hp]; rfl))
  | ready => exact exits_by_cancel (.inr (.inr hp)) (hst.preparing (by rw [hp]; rfl))
  | partiallyApplied =>
    exact exits_by_abandon (.inr (.inl hp)) fun hz => (hst.unapplied hz).1 hp
  | reconciliationRequired =>
    exact exits_by_abandon (.inr (.inr hp)) fun hz => (hst.unapplied hz).2 hp
  | applying =>
    by_cases hz : s.startedEffects = 0
    · obtain ⟨id, m, hl, hm⟩ : ∃ (id : String) (m : SettlementMemberState),
          s.members[id]? = some m ∧ m.phase = .preflightPassed := by
        by_contra hnone
        exact hns ⟨hp, hz, fun id m hl hm => hnone ⟨id, m, hl, hm⟩⟩
      exact exits_by_start hs hp hl hm
    · exact exits_by_abandon (.inl hp) hz
  | _ => exact exits_of_terminal (by rw [hp]; rfl)

/-- **No dead end but one**: a reachable coordinator with a declaration reaches a terminal phase by
admissible commands exactly when it is not stranded, and only a stranding supersession leads to a
stranded one. -/
theorem settlement_no_dead_end (cs : List TargetSettlementCommand)
    (hd : (settlement.run cs).declaration ≠ none) :
    (Exits (settlement.run cs) ↔ ¬ Stranded (settlement.run cs)) ∧
      (settlement.StepsMeet (fun s c => ¬ StrandingSupersession s c) settlement.init cs →
        Exits (settlement.run cs)) := by
  have hst := staged_run cs
  have hexits := exits (sound_run cs) hst hd
  exact ⟨⟨fun h hstr => hstr.no_exit hst h, hexits⟩, fun h => hexits (not_stranded_run cs h)⟩

/-- The only member of a declaration is superseded before anything was started. -/
def strandedRun : List TargetSettlementCommand :=
  [.declare (declarationOf [memberA]), .supersedeNotStarted "a" "later"]

theorem settlement_dead_end :
    (settlement.run strandedRun).declaration ≠ none ∧
      (settlement.run strandedRun).phase.terminal = false ∧ ¬ Exits (settlement.run strandedRun) := by
  have hstr : Stranded (settlement.run strandedRun) := by
    refine ⟨by decide, by decide, ?_⟩
    refine (forall_mem_toList_iff (settlement.run strandedRun).members
      fun _ m => m.phase ≠ .preflightPassed).mp ?_
    decide
  exact ⟨by decide, by decide, hstr.no_exit (staged_run _)⟩

/-- One of two members is superseded once both passed their preflight. -/
def supersededRun : List TargetSettlementCommand :=
  [.declare (declarationOf [memberA, memberB]), .beginPreflight,
    .recordPreflight (preflight memberA true), .recordPreflight (preflight memberB true),
    .supersedeNotStarted "a" "later"]

theorem settlement_no_dead_end_supersededRun :
    (settlement.run supersededRun).phase = .applying ∧ Exits (settlement.run supersededRun) := by
  refine ⟨by decide, (settlement_no_dead_end supersededRun (by decide)).1.mpr ?_⟩
  intro hstr
  have hpassed : (settlement.run supersededRun).members["b"]?.map (·.phase) =
      some .preflightPassed := by decide
  obtain ⟨m, hm, hp⟩ := Option.map_eq_some_iff.mp hpassed
  exact hstr.members "b" m hm hp

end GaugeDesk.Settlement
