import GaugeDesk.Settlement.SettlementMembers

/-!
# Target settlement: the all-member preflight gate

Effects start behind a gate: every declared member has passed its preflight or
was superseded.  `Gate s` is the invariant, by coordinator phase.  One command
opens the gate too early: `SupersedeNotStarted` looks only at the member it
names and then projects the phase, so it can reach `Applying` while another
member was never preflighted, was refused, or belongs to a coordinator that was
cancelled (`gate_opened_early`).  A run without such a supersession keeps the
gate (`preflight_gate`).
-/

namespace GaugeDesk.Settlement

open Std

variable {members : Members} {p : SettlementPhase} {s' : TargetSettlementState}
  {c : TargetSettlementCommand} {es : List TargetSettlementEvent} {s : TargetSettlementState}
  {m m' : SettlementMemberState} {id : String}

/-- The coordinator ended before effects. -/
def SettlementPhase.stopped : SettlementPhase → Bool
  | .refused | .cancelled | .expired => true
  | _ => false

/-- The phases from the first effect on. -/
def SettlementPhase.effecting : SettlementPhase → Bool
  | .applying | .completed | .partiallyApplied | .reconciliationRequired | .compensated
  | .abandonedPartial => true
  | _ => false

/-- A supersession that the member takes while another member waits with a passed preflight, and
the coordinator has stopped or a further member is still to be preflighted. -/
def PrematureSupersession (s : TargetSettlementState) (c : TargetSettlementCommand) : Prop :=
  ∃ id laterMemberRef dm m, c = .supersedeNotStarted id laterMemberRef ∧
    member s id = .ok (dm, m) ∧ m.phase.unstarted = true ∧ validIdentity laterMemberRef = true ∧
    (∃ (k : String) (other : SettlementMemberState),
      id ≠ k ∧ s.members[k]? = some other ∧ other.phase = .preflightPassed) ∧
    (s.phase.stopped = true ∨ s.phase = .preflighting ∧
      ∃ (k : String) (other : SettlementMemberState),
        id ≠ k ∧ s.members[k]? = some other ∧ other.phase ≠ .preflightPassed)

/-! ## Member conditions -/

/-- The recorded preflight, if any, is an admitted one. -/
def NotRefused (m : SettlementMemberState) : Prop :=
  ∀ e, m.preflightEvidence = some e → e.admitted = true

/-- Behind the gate: an admitted preflight, or superseded before start. -/
structure Cleared (m : SettlementMemberState) : Prop where
  notRefused : NotRefused m
  recorded : m.preflightEvidence ≠ none ∨ m.phase = .supersededBeforeStart

/-- Not started, and no longer able to. -/
def Dormant (m : SettlementMemberState) : Prop :=
  m.phase = .pending ∨ m.phase = .supersededBeforeStart ∨ m.phase = .cancelledBeforeStart

def Passed (m : SettlementMemberState) : Prop := m.phase = .preflightPassed ∧ Cleared m

def Untouched (m : SettlementMemberState) : Prop := m.phase = .pending ∧ m.preflightEvidence = none

/-- Before the gate: untouched, or with an admitted preflight. -/
def Waiting (m : SettlementMemberState) : Prop := Untouched m ∨ Passed m

/-- The invariant, by coordinator phase. -/
def Gate (members : Members) : SettlementPhase → Prop
  | .undeclared => members.Each fun _ => False
  | .declared => members.Each Untouched
  | .preflighting => members.Each Waiting
  | .ready => members.Each Passed
  | .refused | .cancelled | .expired => members.Each fun m => m.phase.unstarted = true
  | .applying | .completed | .partiallyApplied | .reconciliationRequired | .compensated
  | .abandonedPartial => members.Each Cleared ∨ members.Each Dormant

/-- No effect can start any more: the coordinator stopped, or no member can start. -/
def Halted (s : TargetSettlementState) : Prop :=
  s.phase.stopped = true ∧ s.members.Each (fun m => m.phase.unstarted = true) ∨
    s.phase.effecting = true ∧ s.members.Each Dormant

/-! ## Lemmas -/

theorem Waiting.unstarted (h : Waiting m) : m.phase.unstarted = true := by
  rcases h with ⟨hp, -⟩ | ⟨hp, -⟩ <;> rw [hp] <;> rfl

theorem Waiting.notRefused (h : Waiting m) : NotRefused m := by
  rcases h with ⟨-, he⟩ | ⟨-, hc⟩
  · intro e hsome
    rw [he] at hsome
    cases hsome
  · exact hc.notRefused

theorem Dormant.phase_ne (h : Dormant m) :
    m.phase ≠ .preflightPassed ∧ m.phase ≠ .started ∧ m.phase ≠ .unknown ∧ m.phase ≠ .failed := by
  rcases h with hp | hp | hp <;> rw [hp] <;> simp

theorem effecting_projectedPhase (members : Members) :
    (projectedPhase members).effecting = true := by
  rcases projectedPhase_cases members with h | h | h | h <;> rw [h] <;> rfl

theorem gate_of_effecting (hp : p.effecting = true) :
    Gate members p ↔ members.Each Cleared ∨ members.Each Dormant := by
  cases p <;> first | exact Iff.rfl | cases hp

theorem gate_of_stopped (hp : p.stopped = true) :
    Gate members p ↔ members.Each fun m => m.phase.unstarted = true := by
  cases p <;> first | exact Iff.rfl | cases hp

theorem Gate.unstarted (h : Gate members p) (hp : p.effecting = false) :
    members.Each fun m => m.phase.unstarted = true := by
  intro id m hl
  cases p with
  | undeclared => exact (h id m hl).elim
  | declared => exact Waiting.unstarted (.inl (h id m hl))
  | preflighting => exact (h id m hl).unstarted
  | ready => exact Waiting.unstarted (.inr (h id m hl))
  | refused | cancelled | expired => exact h id m hl
  | _ => cases hp

/-- A member that has started only exists from the first effect on, behind the gate. -/
theorem Gate.cleared_of_started (h : Gate s.members s.phase) (hl : s.members[id]? = some m)
    (hm : m.phase = .started ∨ m.phase = .unknown ∨ m.phase = .failed) :
    s.phase.effecting = true ∧ s.members.Each Cleared := by
  cases hp : s.phase.effecting with
  | false =>
    have hu : m.phase.unstarted = true := h.unstarted hp id m hl
    rcases hm with hm | hm | hm <;> rw [hm] at hu <;> cases hu
  | true =>
    rcases (gate_of_effecting hp).mp h with hc | hd
    · exact ⟨rfl, hc⟩
    · obtain ⟨-, h1, h2, h3⟩ := (hd id m hl).phase_ne
      rcases hm with hm | hm | hm
      · exact absurd hm h1
      · exact absurd hm h2
      · exact absurd hm h3

/-- While effects may start, a member that can start shows that all are behind the gate. -/
theorem Gate.cleared_of_passed (h : Gate s.members s.phase)
    (hp : s.phase = .ready ∨ s.phase = .applying) (hl : s.members[id]? = some m)
    (hm : m.phase = .preflightPassed) : s.members.Each Cleared := by
  rcases hp with hp | hp
  · rw [hp] at h
    exact fun k mk hk => (h k mk hk).2
  · rw [hp] at h
    rcases h with hall | hall
    · exact hall
    · exact absurd hm (hall id m hl).phase_ne.1

theorem Cleared.outcome (h : Cleared m) (hm : m.phase ≠ .supersededBeforeStart)
    (he : m'.preflightEvidence = m.preflightEvidence) : Cleared m' := by
  refine ⟨?_, ?_⟩
  · intro e hsome
    rw [he] at hsome
    exact h.notRefused e hsome
  · rcases h.recorded with hr | hs
    · left
      rw [he]
      exact hr
    · exact absurd hs hm

theorem Gate.outcome (h : Gate s.members s.phase) (hl : s.members[id]? = some m)
    (hm : m.phase = .started ∨ m.phase = .unknown ∨ m.phase = .failed)
    (he : m'.preflightEvidence = m.preflightEvidence) (hp : p.effecting = true) :
    Gate (s.members.insert id m') p := by
  obtain ⟨-, hall⟩ := h.cleared_of_started hl hm
  refine (gate_of_effecting hp).mpr (.inl (hall.insert id ((hall id m hl).outcome ?_ he)))
  rcases hm with hm | hm | hm <;> rw [hm] <;> simp

/-- The members that `CancelUnstarted` leaves behind. -/
theorem each_cancelUnstarted {Q : SettlementMemberState → Prop} (h : members.Each Q)
    (hc : ∀ m, Q m → m.phase.unstarted = true → Q m.cancel) :
    (cancelledMembers members (unstartedIds members)).Each Q := by
  intro id m' hl
  rw [getElem?_cancelUnstarted] at hl
  obtain ⟨m, hm, rfl⟩ := Option.map_eq_some_iff.mp hl
  by_cases hu : m.phase.unstarted = true
  · rw [if_pos hu]
    exact hc m (h id m hm) hu
  · rw [if_neg hu]
    exact h id m hm

/-! ## Supersession -/

theorem Cleared.supersede (h : NotRefused m) (later : String) :
    Cleared { m with phase := .supersededBeforeStart, supersededBy := some later } :=
  ⟨h, .inr rfl⟩

theorem Dormant.supersede (m : SettlementMemberState) (later : String) :
    Dormant { m with phase := .supersededBeforeStart, supersededBy := some later } :=
  .inr (.inl rfl)

/-- Among unstarted members, those that did not pass are pending. -/
theorem dormant_of_unstarted (hu : m.phase.unstarted = true) (hp : m.phase ≠ .preflightPassed) :
    Dormant m := by
  left
  cases hm : m.phase <;> simp [hm, SettlementMemberPhase.unstarted] at hu hp ⊢

section
variable {later : String} {dm : SettlementMemberDeclaration}

/-- Without another passed member, a supersession before effects leaves nothing to start. -/
theorem dormant_of_no_passed (hall : s.members.Each fun m => m.phase.unstarted = true)
    (hno : ¬ ∃ (k : String) (other : SettlementMemberState),
      id ≠ k ∧ s.members[k]? = some other ∧ other.phase = .preflightPassed) :
    (s.members.insert id
      { m with phase := .supersededBeforeStart, supersededBy := some later }).Each Dormant := by
  refine TreeMap.Each.insert_of_others ?_ (.supersede m later)
  intro k other hk hl
  exact dormant_of_unstarted (hall k other hl) fun hp => hno ⟨k, other, hk, hl, hp⟩

/-- A supersession that is not premature keeps the gate. -/
theorem Gate.supersede (h : Gate s.members s.phase) (hm : member s id = .ok (dm, m))
    (hu : m.phase.unstarted = true) (hv : validIdentity later = true)
    (hc : ¬ PrematureSupersession s (.supersedeNotStarted id later)) (hp : p.effecting = true) :
    Gate (s.members.insert id
      { m with phase := .supersededBeforeStart, supersededBy := some later }) p := by
  have hl := members_of_member hm
  rw [gate_of_effecting hp]
  cases hs : s.phase.effecting with
  | true =>
    rcases (gate_of_effecting hs).mp h with hall | hall
    · exact .inl (hall.insert id (.supersede (hall id m hl).notRefused later))
    · exact .inr (hall.insert id (.supersede m later))
  | false =>
    by_cases hno : ∃ (k : String) (other : SettlementMemberState),
        id ≠ k ∧ s.members[k]? = some other ∧ other.phase = .preflightPassed
    · -- another member passed: the coordinator has not stopped, and nobody is left to preflight
      have hstop : ¬ s.phase.stopped = true := fun hst =>
        hc ⟨id, later, dm, m, rfl, hm, hu, hv, hno, .inl hst⟩
      have hpassed : s.phase = .preflighting → ∀ (k : String) (other : SettlementMemberState),
          id ≠ k → s.members[k]? = some other → other.phase = .preflightPassed := by
        intro hpre k other hk hl'
        by_contra hne
        exact hc ⟨id, later, dm, m, rfl, hm, hu, hv, hno, .inr ⟨hpre, k, other, hk, hl', hne⟩⟩
      left
      obtain ⟨k, other, hk, hlk, hok⟩ := hno
      cases hph : s.phase with
      | undeclared =>
        rw [hph] at h
        exact (h id m hl).elim
      | declared =>
        rw [hph] at h
        exact absurd ((h k other hlk).1.symm.trans hok) (by simp)
      | preflighting =>
        rw [hph] at h
        refine TreeMap.Each.insert_of_others ?_ (.supersede (h id m hl).notRefused later)
        intro k' other' hk' hl'
        rcases h k' other' hl' with hw | hw
        · exact absurd (hw.1.symm.trans (hpassed hph k' other' hk' hl')) (by simp)
        · exact hw.2
      | ready =>
        rw [hph] at h
        refine TreeMap.Each.insert_of_others ?_ (.supersede (h id m hl).2.notRefused later)
        intro k' other' hk' hl'
        exact (h k' other' hl').2
      | refused | cancelled | expired => exact absurd (by rw [hph]; rfl) hstop
      | _ =>
        rw [hph] at hs
        cases hs
    · exact .inr (dormant_of_no_passed (h.unstarted hs) hno)

end

/-! ## One step -/

theorem gate_step (h : Gate s.members s.phase) (hs : Step s c es s')
    (hc : ¬ PrematureSupersession s c) : Gate s'.members s'.phase := by
  cases hs with
  | declare =>
    intro id m hl
    cases eq_of_initialMembers hl
    exact ⟨rfl, rfl⟩
  | beginPreflight hp =>
    rw [hp] at h
    intro id m hl
    exact .inl (h id m hl)
  | refuse e dm m reason hp hm =>
    have hall := h.unstarted (by rw [hp]; rfl)
    exact hall.insert e.memberId (hall e.memberId m (members_of_member hm))
  | pass e dm m hp hm hph hne hex had hlast =>
    rw [hp] at h
    show Gate (s.members.insert _ _) s.phase
    rw [hp]
    refine TreeMap.Each.insert h e.memberId (.inr ⟨rfl, ?_, .inl (by simp)⟩)
    intro e' he'
    cases he'
    exact had
  | passLast e dm m hp hm hph hne hex had hlast =>
    rw [hp] at h
    obtain ⟨d, -, hf, -⟩ := (member_eq_ok _ _ _ _).mp hm
    refine TreeMap.Each.insert_of_others ?_ ⟨rfl, ?_, .inl (by simp)⟩
    · intro k other hk hl
      rcases hlast (k, other) (TreeMap.mem_toList_iff_getElem?_eq_some.mpr hl) with hid | hpass
      · exact absurd ((memberId_of_find hf).symm.trans hid.symm) hk
      · rcases h k other hl with hw | hw
        · exact absurd (hw.1.symm.trans hpass) (by simp)
        · exact hw
    · intro e' he'
      cases he'
      exact had
  | cancelBeforeEffects reason hp | expireBeforeEffects reason hp =>
    refine h.unstarted ?_
    rcases hp with hp | hp | hp <;> rw [hp] <;> rfl
  | startMember id p dm m hp hm hph hrc hex =>
    have hl := members_of_member hm
    have hall := h.cleared_of_passed hp hl hph
    exact .inl (hall.insert id ((hall id m hl).outcome (by rw [hph]; simp) rfl))
  | settle fromQuery r dm m hm hph =>
    refine h.outcome (members_of_member hm) ?_ rfl (effecting_projectedPhase _)
    rw [hph]
    cases fromQuery <;> simp [awaiting]
  | recordUnknown id ev dm m hm hph hev =>
    exact h.outcome (members_of_member hm) (.inl hph) rfl rfl
  | requestQuery id q dm m hm hph =>
    have hl := members_of_member hm
    have hunk : m.phase = .started ∨ m.phase = .unknown ∨ m.phase = .failed := .inr (.inl hph)
    exact h.outcome hl hunk rfl (h.cleared_of_started hl hunk).1
  | retry id p dm m hm hph =>
    exact h.outcome (members_of_member hm) (.inr (.inr hph)) rfl rfl
  | cancelUnstarted =>
    refine (gate_of_effecting (effecting_projectedPhase _)).mpr ?_
    cases hs : s.phase.effecting with
    | true =>
      rcases (gate_of_effecting hs).mp h with hall | hall
      · refine .inl (each_cancelUnstarted hall ?_)
        intro m hm hu
        refine hm.outcome ?_ rfl
        intro hsup
        rw [hsup] at hu
        cases hu
      · exact .inr (each_cancelUnstarted hall fun m _ _ => .inr (.inr rfl))
    | false =>
      -- before effects every member is unstarted, so every one is cancelled
      right
      intro id m' hl
      rw [getElem?_cancelUnstarted] at hl
      obtain ⟨m, hm, rfl⟩ := Option.map_eq_some_iff.mp hl
      rw [if_pos (h.unstarted hs id m hm)]
      exact .inr (.inr rfl)
  | supersede id later dm m hm hph hl => exact h.supersede hm hph hl hc (effecting_projectedPhase _)
  | compensate links hp =>
    rw [hp] at h
    exact h
  | abandon reason hp hz hr =>
    rcases hp with hp | hp | hp <;> rw [hp] at h <;> exact h

theorem cleared_of_memberStarted (h : Gate s.members s.phase) (hs : Step s c es s')
    {p : TargetLanePermit} (hmem : .memberStarted id p ∈ es) : s.members.Each Cleared := by
  cases hs with
  | startMember id p dm m hp hm hph hrc hex =>
    exact h.cleared_of_passed hp (members_of_member hm) hph
  | _ => simp at hmem

/-! ## After the coordinator stopped -/

theorem Halted.phase_ne (h : Halted s) (hl : s.members[id]? = some m) :
    m.phase ≠ .started ∧ m.phase ≠ .unknown ∧ m.phase ≠ .failed := by
  rcases h with ⟨-, hall⟩ | ⟨-, hall⟩
  · have hu : m.phase.unstarted = true := hall id m hl
    refine ⟨?_, ?_, ?_⟩ <;> intro hp <;> rw [hp] at hu <;> cases hu
  · exact (hall id m hl).phase_ne.2

/-- Phases in which a halted coordinator never is. -/
theorem Halted.not_preparing (h : Halted s) :
    s.phase ≠ .undeclared ∧ s.phase ≠ .declared ∧ s.phase ≠ .preflighting ∧ s.phase ≠ .ready := by
  rcases h with ⟨hp, -⟩ | ⟨hp, -⟩ <;> cases hs : s.phase <;>
    simp [hs, SettlementPhase.stopped, SettlementPhase.effecting] at hp ⊢

theorem Halted.not_applying_passed (h : Halted s) (hl : s.members[id]? = some m)
    (hp : s.phase = .applying) : m.phase ≠ .preflightPassed := by
  rcases h with ⟨hs, -⟩ | ⟨-, hall⟩
  · rw [hp] at hs
    cases hs
  · exact (hall id m hl).phase_ne.1

theorem halted_step (h : Halted s) (hs : Step s c es s') (hc : ¬ PrematureSupersession s c) :
    Halted s' ∧ launches es = [] := by
  obtain ⟨hund, hdecl, hpre, hready⟩ := h.not_preparing
  cases hs with
  | declare d hp hd hv => exact absurd hp hund
  | beginPreflight hp => exact absurd hp hdecl
  | refuse e dm m reason hp | pass e dm m hp | passLast e dm m hp => exact absurd hp hpre
  | cancelBeforeEffects reason hp | expireBeforeEffects reason hp =>
    rcases hp with hp | hp | hp
    · exact absurd hp hdecl
    · exact absurd hp hpre
    · exact absurd hp hready
  | startMember id p dm m hp hm hph hrc hex =>
    rcases hp with hp | hp
    · exact absurd hp hready
    · exact absurd hph (h.not_applying_passed (members_of_member hm) hp)
  | settle fromQuery r dm m hm hph =>
    obtain ⟨hst, hunk, -⟩ := h.phase_ne (members_of_member hm)
    cases fromQuery with
    | false => exact absurd hph hst
    | true => exact absurd hph hunk
  | recordUnknown id ev dm m hm hph hev =>
    exact absurd hph (h.phase_ne (members_of_member hm)).1
  | requestQuery id q dm m hm hph =>
    exact absurd hph (h.phase_ne (members_of_member hm)).2.1
  | retry id p dm m hm hph =>
    exact absurd hph (h.phase_ne (members_of_member hm)).2.2
  | cancelUnstarted reason events hp =>
    refine ⟨.inr ⟨effecting_projectedPhase _, ?_⟩, launches_cancelled _ _ _⟩
    rcases h with ⟨hst, -⟩ | ⟨-, hall⟩
    · cases hph : s.phase <;> simp [hph, SettlementPhase.stopped, SettlementPhase.terminal] at hst hp
    · exact each_cancelUnstarted hall fun m _ _ => .inr (.inr rfl)
  | supersede id later dm m hm hph hl =>
    refine ⟨.inr ⟨effecting_projectedPhase _, ?_⟩, rfl⟩
    rcases h with ⟨hst, hall⟩ | ⟨-, hall⟩
    · refine dormant_of_no_passed hall ?_
      intro hother
      exact hc ⟨id, later, dm, m, rfl, hm, hph, hl, hother, .inl hst⟩
    · exact hall.insert id (.supersede m later)
  | compensate links hp =>
    rcases h with ⟨hst, -⟩ | ⟨-, hall⟩
    · rw [hp] at hst
      cases hst
    · exact ⟨.inr ⟨rfl, hall⟩, rfl⟩
  | abandon reason hp hz hr =>
    rcases h with ⟨hst, -⟩ | ⟨-, hall⟩
    · rcases hp with hp | hp | hp <;> rw [hp] at hst <;> cases hst
    · exact ⟨.inr ⟨rfl, hall⟩, rfl⟩

/-! ## Runs -/

theorem gate_run (cs : List TargetSettlementCommand)
    (hcs : settlement.StepsMeet (fun s c => ¬ PrematureSupersession s c) settlement.init cs) :
    Gate (settlement.run cs).members (settlement.run cs).phase := by
  refine Reducer.StepsMeet.inv settlement _ (fun s => Gate s.members s.phase) ?_
    settlement.init ?_ cs hcs
  · intro s c h hc
    rcases settlement_decides.admits.cases s c with ⟨he, -⟩ | hstep
    · rw [he]
      exact h
    · exact gate_step h hstep hc
  · intro id m hl
    cases hl

/-- **The all-member preflight gate**, on runs without a premature supersession: when a member
starts, every declared member has an admitted preflight or was superseded and none was refused;
and a coordinator that was refused, cancelled or expired starts nothing later. -/
theorem preflight_gate (cs : List TargetSettlementCommand)
    (hcs : settlement.StepsMeet (fun s c => ¬ PrematureSupersession s c) settlement.init cs) :
    (∀ before c after, cs = before ++ c :: after → ∀ id p,
      .memberStarted id p ∈ settlement.emitted (settlement.run before) c →
      ∀ d, (settlement.run before).declaration = some d → ∀ dm ∈ d.members,
        ∃ m, (settlement.run before).members[dm.memberId]? = some m ∧
          ((∃ e, m.preflightEvidence = some e ∧ e.admitted = true) ∨
            m.phase = .supersededBeforeStart) ∧
          ∀ e, m.preflightEvidence = some e → e.admitted = true) ∧
    (∀ before after, cs = before ++ after → (settlement.run before).phase.stopped = true →
      launches (settlement.traceFrom (settlement.run before) after) = []) := by
  refine ⟨?_, ?_⟩
  · intro before c after hsplit id p hmem d hd dm hdm
    rw [hsplit, Reducer.StepsMeet.append] at hcs
    have hgate := gate_run before hcs.1
    have hsound := sound_run before
    have hall : (settlement.run before).members.Each Cleared := by
      exact cleared_of_memberStarted hgate (settlement_decides.admits.of_emitted hmem) hmem
    have hkey : (settlement.run before).members[dm.memberId]? ≠ none := by
      intro hnone
      have := (hsound.keys d hd _).mp hnone
      rw [find_of_mem (hsound.valid d hd) hdm] at this
      cases this
    obtain ⟨m, hm⟩ := Option.ne_none_iff_exists'.mp hkey
    have hclear := hall _ m hm
    refine ⟨m, hm, ?_, hclear.notRefused⟩
    rcases hclear.recorded with hr | hs
    · obtain ⟨e, he⟩ := Option.ne_none_iff_exists'.mp hr
      exact .inl ⟨e, he, hclear.notRefused e he⟩
    · exact .inr hs
  · intro before after hsplit hstop
    rw [hsplit, Reducer.StepsMeet.append] at hcs
    have hgate := gate_run before hcs.1
    refine (Reducer.StepsMeet.trace_inv settlement _ (fun s tr => Halted s ∧ launches tr = []) ?_
      _ [] ⟨.inl ⟨hstop, (gate_of_stopped hstop).mp hgate⟩, rfl⟩ after hcs.2).2
    intro s tr c ⟨hh, htr⟩ hc
    rcases settlement_decides.admits.cases s c with ⟨he, hn⟩ | hstep
    · rw [he, hn, List.append_nil]
      exact ⟨hh, htr⟩
    · obtain ⟨hh', hes⟩ := halted_step hh hstep hc
      exact ⟨hh', by rw [launches_append, htr, hes, List.nil_append]⟩

theorem not_premature (h : ∀ id later, c ≠ .supersedeNotStarted id later) :
    ¬ PrematureSupersession s c := by
  intro ⟨id, later, _, _, hc, _⟩
  exact h id later hc

theorem preflight_gate_completedRun :
    ∃ m, (settlement.run (completedRun.take 3)).members["a"]? = some m ∧
      ((∃ e, m.preflightEvidence = some e ∧ e.admitted = true) ∨ m.phase = .supersededBeforeStart) ∧
      ∀ e, m.preflightEvidence = some e → e.admitted = true := by
  have hmeet : settlement.StepsMeet (fun s c => ¬ PrematureSupersession s c) settlement.init
      completedRun :=
    ⟨not_premature (by simp), not_premature (by simp), not_premature (by simp),
      not_premature (by simp), not_premature (by simp), True.intro⟩
  exact (preflight_gate completedRun hmeet).1 (completedRun.take 3) _ _ rfl "a" (permit memberA 1)
    (by decide +kernel) (declarationOf [memberA]) (by decide +kernel) memberA (by decide +kernel)

def memberC : SettlementMemberDeclaration := declaredMember "c" "target-c"

/-- The preflight of `b` is refused after that of `a` passed. -/
def refusedRun : List TargetSettlementCommand :=
  [.declare (declarationOf [memberA, memberB, memberC]), .beginPreflight,
    .recordPreflight (preflight memberA true), .recordPreflight (preflight memberB false)]

/-- A refused coordinator starts `a` after `c` is superseded, with the refusal of `b` on record. -/
theorem gate_opened_early :
    (settlement.run refusedRun).phase = .refused ∧
    ((settlement.run (refusedRun ++ [.supersedeNotStarted "c" "later"])).members["b"]?.bind
      (·.preflightEvidence)) = some (preflight memberB false) ∧
    .memberStarted "a" (permit memberA 1) ∈ settlement.emitted
      (settlement.run (refusedRun ++ [.supersedeNotStarted "c" "later"]))
      (.startMember "a" (permit memberA 1)) := by
  decide +kernel

end GaugeDesk.Settlement
