import GaugeDesk.Lib.LengthPrefix
import GaugeDesk.Plan.PlanSteps

/-!
# Plans: settlements, their evidence and its author

Evidence is numbered by the size of its map, so an id names one record for good;
policies are only appended and a superseded plan is final.  Over that:

    a settled step names evidence of its own cycle that the recorded epoch
      accepts, as long as epochs fit 32 bits  (plan_settlements)
    the epoch of a settlement wraps after 2 ^ 32 revisions  (settled_under_wrapped_epoch)
    evidence that settles is not of the last claimant of the cycle,
      unless the policy allows it  (settlement_independent)
    it may be of an earlier claimant of the same cycle  (settled_by_former_holder)
-/

namespace GaugeDesk.Plan

open Std List TreeMap

variable {s s' : PlanState} {tr es : List PlanEvent} {c : PlanCommand} {policy : SettlementPolicy}
  {by_ : Authority} {atMs : Nat} {event : PlanEvent} {next : StepState}

/-! ## What every step keeps -/

/-- Nothing that is recorded or published changes. -/
structure Kept (s s' : PlanState) : Prop where
  evidence : ∀ (id : String) e, s.evidence[id]? = some e → s'.evidence[id]? = some e
  policies : s.policies <+: s'.policies

theorem Kept.trans {s'' : PlanState} (h : Kept s s') (h' : Kept s' s'') : Kept s s'' :=
  ⟨fun id e he => h'.evidence id e (h.evidence id e he), h.policies.trans h'.policies⟩

theorem Step.started (h : Step s c es s') : s'.phase ≠ .init := by
  cases h <;> simp [*]

theorem initial_of_proposed {specs : List StepSpec} {id : String} {st : StepState}
    (h : (ofList (specs.map fun spec => (spec.id, spec.initial)) : TreeMap String StepState)[id]? =
      some st) : ∃ spec : StepSpec, st = spec.initial := by
  obtain ⟨spec, -, heq⟩ := mem_map.mp (mem_of_getElem?_ofList h)
  exact ⟨spec, (Prod.mk.inj heq).2.symm⟩

def evidenceId (n : Nat) : String := "evidence-" ++ toString (n + 1)

theorem evidenceId_injective {m n : Nat} (h : evidenceId m = evidenceId n) : m = n :=
  Nat.succ.inj (numbered_injective h)

/-- The ids of the recorded evidence, in order. -/
def recordedIds (tr : List PlanEvent) : List String :=
  tr.filterMap fun
    | .evidenceRecorded e => some e.id
    | _ => none

theorem recordedIds_append (tr es : List PlanEvent) :
    recordedIds (tr ++ es) = recordedIds tr ++ recordedIds es := filterMap_append

/-- The evidence of a state against its history: the ids are numbered up to the size of the map. -/
structure Numbered (s : PlanState) (tr : List PlanEvent) : Prop where
  fresh : s.phase = .init → s.policies = []
  ids : recordedIds tr = (List.range s.evidence.size).map evidenceId
  keys : ∀ (id : String) e, s.evidence[id]? = some e → e.id = id ∧ id ∈ recordedIds tr

section
variable (h : Numbered s tr)
include h

theorem Numbered.next_none : s.evidence[evidenceId s.evidence.size]? = none := by
  cases hl : s.evidence[evidenceId s.evidence.size]? with
  | none => rfl
  | some e =>
    have hmem := (h.keys _ e hl).2
    rw [h.ids, mem_map] at hmem
    obtain ⟨n, hn, heq⟩ := hmem
    have := mem_range.mp hn
    have := evidenceId_injective heq
    omega

theorem Numbered.nodup : (recordedIds tr).Nodup := by
  rw [h.ids]
  exact nodup_range.map fun _ _ => evidenceId_injective

theorem kept_step (hs : Step s c es s') : Kept s s' := by
  cases hs with
  | propose planId title proposer steps policy atMs hp hpolicy hv =>
    refine ⟨fun _ _ h => h, ?_⟩
    rw [h.fresh hp]
    exact nil_prefix
  | record =>
    refine ⟨fun id e he => ?_, prefix_refl _⟩
    show (s.evidence.insert (evidenceId s.evidence.size) _)[id]? = some e
    rw [getElem?_insert_eq, if_neg, he]
    rintro rfl
    rw [h.next_none] at he
    cases he
  | revise => exact ⟨fun _ _ h => h, prefix_append _ _⟩
  | _ => exact ⟨fun _ _ h => h, prefix_refl _⟩

theorem Numbered.same (hp : s'.phase ≠ .init) (he : s'.evidence = s.evidence)
    (hes : recordedIds es = []) : Numbered s' (tr ++ es) := by
  refine ⟨fun hi => absurd hi hp, ?_, ?_⟩
  · rw [recordedIds_append, hes, append_nil, he]
    exact h.ids
  · rw [recordedIds_append, hes, append_nil, he]
    exact h.keys

theorem Numbered.step (hs : Step s c es s') : Numbered s' (tr ++ es) := by
  have hstarted := hs.started
  cases hs with
  | record step kind author reference atMs current =>
    have hnone : s.evidence.contains (evidenceId s.evidence.size) = false := by
      rw [contains_eq_isSome_getElem?, h.next_none]
      rfl
    have hids : recordedIds (tr ++ [.evidenceRecorded (s.nextEvidence step current kind author
        reference atMs)]) = recordedIds tr ++ [evidenceId s.evidence.size] := recordedIds_append _ _
    refine ⟨fun hi => absurd hi hstarted, ?_, fun id e he => ?_⟩
    · show _ = (List.range (s.evidence.insert (evidenceId s.evidence.size) _).size).map evidenceId
      rw [hids, h.ids, size_insert, hnone, if_neg Bool.false_ne_true, range_succ,
        map_append]
      rfl
    · change (s.evidence.insert (evidenceId s.evidence.size) _)[id]? = some e at he
      rw [hids, mem_append]
      rcases getElem?_insert_cases he with ⟨hid, rfl⟩ | ⟨-, he⟩
      · exact ⟨hid, .inr (mem_singleton.mpr hid.symm)⟩
      · exact ⟨(h.keys id e he).1, .inl (h.keys id e he).2⟩
  | _ => exact h.same hstarted rfl rfl

end

variable (cs : List PlanCommand) (n : Nat)

theorem numbered_run : Numbered (plan.run cs) (plan.trace cs) := by
  have hinit : Numbered plan.init [] := ⟨fun _ => rfl, rfl, fun id e he => by simp [plan] at he⟩
  exact plan_decides.admits.run_trace_inv Numbered hinit (fun _ _ _ _ _ h hs => h.step hs) cs

/-- **Evidence and policies are kept** along every run. -/
theorem kept_runFrom (h : Numbered s tr) (cs : List PlanCommand) : Kept s (plan.runFrom s cs) := by
  refine plan_decides.admits.runFrom_rel_of_inv (fun s => ∃ tr, Numbered s tr) Kept ?_
    (fun _ => ⟨fun _ _ h => h, prefix_refl _⟩) (fun _ _ _ => Kept.trans) ?_ s ⟨tr, h⟩ cs
  · rintro s c es s' ⟨tr, ht⟩ hs
    exact ⟨_, ht.step hs⟩
  · rintro s c es s' ⟨tr, ht⟩ hs
    exact kept_step ht hs

/-! ## Cycles -/

/-- The event reopens the step `id`. -/
def PlanEvent.reopens (id : String) : PlanEvent → Bool
  | .stepReopened step _ _ _ => step == id
  | _ => false

/-- The record `e` was made in the history `tr`, and its step was not reopened since. -/
def RecordedInCycle (tr : List PlanEvent) (e : Evidence) : Prop :=
  ∃ earlier later, tr = earlier ++ .evidenceRecorded e :: later ∧
    ∀ event ∈ later, event.reopens e.step = false

/-- Cycles count the reopenings, up to 32 bits. -/
structure Cycles (s : PlanState) (tr : List PlanEvent) : Prop where
  fresh : s.phase = .init → tr = []
  steps : ∀ (id : String) st, s.steps[id]? = some st →
    st.reopened.length = tr.countP (PlanEvent.reopens id) ∧ st.cycle = asU32 st.reopened.length
  records : ∀ (id : String) e, s.evidence[id]? = some e → ∃ earlier later,
    tr = earlier ++ .evidenceRecorded e :: later ∧
      e.cycle = asU32 (earlier.countP (PlanEvent.reopens e.step))

section
variable (h : Cycles s tr)
include h

/-- Evidence of a cycle that the count tells apart was recorded since the last reopening. -/
theorem Cycles.current {id x : String} {st : StepState} {e : Evidence}
    (hl : s.steps[id]? = some st) (he : s.evidence[x]? = some e) (hstep : e.step = id)
    (hcycle : e.cycle = st.cycle) (hfew : st.reopened.length < 2 ^ 32) : RecordedInCycle tr e := by
  obtain ⟨earlier, later, htr, hc⟩ := h.records x e he
  obtain ⟨hlen, hcount⟩ := h.steps id st hl
  have hsplit : tr.countP (PlanEvent.reopens id) =
      earlier.countP (PlanEvent.reopens id) + later.countP (PlanEvent.reopens id) := by
    rw [htr, countP_append, countP_cons_of_neg Bool.false_ne_true]
  have hmod : earlier.countP (PlanEvent.reopens id) % 2 ^ 32 = st.reopened.length % 2 ^ 32 := by
    rw [← hstep]
    exact hc.symm.trans (hcycle.trans hcount)
  refine ⟨earlier, later, htr, fun event hevent => ?_⟩
  have hzero : later.countP (PlanEvent.reopens id) = 0 := by
    omega
  rw [hstep]
  exact Bool.eq_false_iff.mpr (countP_eq_zero.mp hzero event hevent)

theorem Cycles.records_append (es : List PlanEvent) (id : String) (e : Evidence)
    (he : s.evidence[id]? = some e) : ∃ earlier later,
      tr ++ es = earlier ++ .evidenceRecorded e :: later ∧
        e.cycle = asU32 (earlier.countP (PlanEvent.reopens e.step)) := by
  obtain ⟨earlier, later, htr, hc⟩ := h.records id e he
  refine ⟨earlier, later ++ es, ?_, hc⟩
  rw [htr, append_assoc]
  rfl

section
variable (hp : s'.phase ≠ .init) (he : s'.evidence = s.evidence)
  (hes : ∀ id, es.countP (PlanEvent.reopens id) = 0)
include hp he hes

theorem Cycles.same
    (hsteps : ∀ (id : String) st', s'.steps[id]? = some st' → ∃ st, s.steps[id]? = some st ∧
      st'.reopened = st.reopened ∧ st'.cycle = st.cycle) : Cycles s' (tr ++ es) := by
  refine ⟨fun hi => absurd hi hp, fun id st' hl => ?_, ?_⟩
  · obtain ⟨st, hst, hr, hc⟩ := hsteps id st' hl
    rw [hr, hc, countP_append, hes, Nat.add_zero]
    exact h.steps id st hst
  · rw [he]
    exact h.records_append es

theorem Cycles.update {step : String} {current : StepState}
    (hl : s.steps[step]? = some current) (hsteps : s'.steps = s.steps.insert step next)
    (hr : next.reopened = current.reopened) (hc : next.cycle = current.cycle) : Cycles s' (tr ++ es) := by
  refine h.same hp he hes fun id st' hl' => ?_
  rw [hsteps] at hl'
  rcases getElem?_insert_cases hl' with ⟨rfl, rfl⟩ | ⟨-, hl'⟩
  · exact ⟨current, hl, hr, hc⟩
  · exact ⟨st', hl', rfl, rfl⟩

end

theorem Cycles.step (hs : Step s c es s') : Cycles s' (tr ++ es) := by
  have hstarted := hs.started
  have hinit : s'.phase = .init → tr ++ es = [] := fun hi => absurd hi hstarted
  cases hs with
  | propose planId title proposer steps policy atMs hp hpolicy hv =>
    refine ⟨hinit, fun id st hl => ?_, h.records_append _⟩
    obtain ⟨spec, rfl⟩ := initial_of_proposed hl
    rw [h.fresh hp]
    exact ⟨rfl, rfl⟩
  | claim step holder atMs leaseUntilMs current hp hl
  | release step holder atMs current claim hp hl
  | settle step evidence by_ atMs current claim record epoch policy hp hl =>
    exact h.update hstarted rfl (fun _ => rfl) hl rfl rfl rfl
  | record step kind author reference atMs current hp hl hns hr =>
    refine ⟨hinit, fun id st hst => ?_, fun id e he => ?_⟩
    · rw [countP_append]
      exact h.steps id st hst
    · rcases getElem?_insert_cases he with ⟨-, rfl⟩ | ⟨-, he⟩
      · obtain ⟨hlen, hcycle⟩ := h.steps step current hl
        exact ⟨tr, [], rfl, hlen ▸ hcycle⟩
      · exact h.records_append _ id e he
  | reopen step cause by_ atMs current settlement hp hl hs hcause =>
    refine ⟨hinit, fun id st hst => ?_, h.records_append _⟩
    rw [countP_append, countP_singleton]
    rcases getElem?_insert_cases hst with ⟨rfl, rfl⟩ | ⟨hid, hst⟩
    · obtain ⟨hlen, hcycle⟩ := h.steps step current hl
      have hlength : (current.reopen cause).reopened.length = current.reopened.length + 1 :=
        length_append
      refine ⟨?_, ?_⟩
      · rw [hlength, hlen]
        simp [PlanEvent.reopens]
      · rw [hlength]
        show asU32 (current.cycle + 1) = _
        rw [hcycle]
        exact Nat.mod_add_mod _ _ _
    · have hno : PlanEvent.reopens id (.stepReopened step cause by_ atMs) = false := by
        simpa [PlanEvent.reopens] using hid
      rw [hno, if_neg Bool.false_ne_true]
      exact h.steps id st hst
  | revise | supersede =>
    exact h.same hstarted rfl (fun _ => rfl) fun id st hl => ⟨st, hl, rfl, rfl⟩

end

theorem cycles_run : Cycles (plan.run cs) (plan.trace cs) := by
  have hinit : Cycles plan.init [] :=
    ⟨fun _ => rfl, fun id st hl => by simp [plan] at hl, fun id e he => by simp [plan] at he⟩
  exact plan_decides.admits.run_trace_inv Cycles hinit (fun _ _ _ _ _ h hs => h.step hs) cs

/-! ## Settled steps -/

/-- The settlement `x` of the step `id`: the evidence, the policy of its epoch and the claim. -/
structure SettledBy (s : PlanState) (id : String) (st : StepState) (x : StepSettlement) (e : Evidence)
    (p : SettlementPolicy) (claim : StepClaim) : Prop where
  evidence : s.evidence[x.evidence]? = some e
  step : e.step = id
  cycle : e.cycle = st.cycle
  policy : s.policies[x.epoch]? = some p
  accepts : e.kind ∈ p.accepts
  claimed : st.claim = some claim
  independent : p.claimantMaySettle = true ∨ e.author ≠ claim.holder

/-- Every settled step is settled by evidence, while epochs fit 32 bits. -/
def Evidenced (s : PlanState) : Prop :=
  s.policies.length ≤ 2 ^ 32 → ∀ (id : String) st x, s.steps[id]? = some st → st.settlement = some x →
    ∃ e p claim, SettledBy s id st x e p claim

section
variable {id : String} {st : StepState} {x : StepSettlement} {e : Evidence} {p : SettlementPolicy}
  {claim : StepClaim}

theorem SettledBy.kept (h : SettledBy s id st x e p claim) (hk : Kept s s') :
    SettledBy s' id st x e p claim := by
  refine ⟨hk.evidence _ e h.evidence, h.step, h.cycle, ?_, h.accepts, h.claimed, h.independent⟩
  obtain ⟨rest, hrest⟩ := hk.policies
  rw [← hrest]
  exact getElem?_append_left (List.getElem?_eq_some_iff.mp h.policy).1 ▸ h.policy

/-- A settled step that a change keeps stays settled by its evidence. -/
theorem Evidenced.kept (h : Evidenced s) (hk : Kept s s') (hlen : s'.policies.length ≤ 2 ^ 32)
    (hl : s.steps[id]? = some st) (hx : st.settlement = some x) :
    ∃ e p claim, SettledBy s' id st x e p claim := by
  obtain ⟨e, p, claim, hb⟩ := h (hk.policies.length_le.trans hlen) id st x hl hx
  exact ⟨e, p, claim, hb.kept hk⟩

theorem Evidenced.update (h : Evidenced s) (hk : Kept s s') {step : String}
    (hsteps : s'.steps = s.steps.insert step next)
    (hnext : s'.policies.length ≤ 2 ^ 32 → ∀ x, next.settlement = some x →
      ∃ e p claim, SettledBy s' step next x e p claim) : Evidenced s' := by
  intro hlen id st x hl hx
  rw [hsteps] at hl
  rcases getElem?_insert_cases hl with ⟨rfl, rfl⟩ | ⟨-, hl⟩
  · exact hnext hlen x hx
  · exact h.kept hk hlen hl hx

theorem policy_of_epoch {epoch : Nat} (hlen : s.policies.length ≤ 2 ^ 32) (he : s.epoch = some epoch)
    (hp : s.policies.getLast? = some p) : s.policies[epoch]? = some p := by
  unfold PlanState.epoch at he
  split at he
  · cases he
  · rw [Option.some.injEq] at he
    have hepoch : epoch = s.policies.length - 1 := by
      rw [← he]
      exact Nat.mod_eq_of_lt (by omega)
    rw [hepoch, ← getLast?_eq_getElem?]
    exact hp

theorem Evidenced.step (h : Evidenced s) (hn : Numbered s tr) (hs : Step s c es s') :
    Evidenced s' := by
  have hk := kept_step hn hs
  cases hs with
  | propose =>
    intro _ id st x hl hx
    obtain ⟨spec, rfl⟩ := initial_of_proposed hl
    cases hx
  | claim step holder atMs leaseUntilMs current hp hl hns
  | release step holder atMs current claim hp hl hns =>
    refine h.update hk rfl fun _ x hx => ?_
    rw [hns] at hx
    cases hx
  | settle step evidence by_ atMs current claim record epoch policy hp hl hns hclaim hrecord hstep
      hcycle hepoch hpolicy hkind hown =>
    refine h.update hk rfl fun hlen x hx => ?_
    cases hx
    refine ⟨record, policy, claim.close atMs, hrecord, hstep, hcycle,
      policy_of_epoch hlen hepoch hpolicy, hkind, ?_, ?_⟩
    · show current.claim.map _ = _
      rw [hclaim]
      rfl
    · by_cases hauthor : record.author = claim.holder
      · exact .inl (hown hauthor)
      · exact .inr hauthor
  | reopen =>
    exact h.update hk rfl nofun
  | _ => exact fun hlen id st x hl hx => h.kept hk hlen hl hx

end

theorem evidenced_run : Evidenced (plan.run cs) := by
  have hinit : Evidenced plan.init := fun _ id st x hl => by simp [plan] at hl
  refine (plan_decides.admits.run_trace_inv (fun s tr => Numbered s tr ∧ Evidenced s)
    ⟨numbered_run [], hinit⟩ (fun s tr c es s' h hs => ⟨h.1.step hs, h.2.step h.1 hs⟩) cs).2

theorem Step.phase_ne (h : Step s c es s') : s.phase ≠ .superseded := by
  cases h <;> simp [*]

theorem superseded_final (hp : s.phase = .superseded) (cs : List PlanCommand) :
    plan.runFrom s cs = s := by
  refine plan.runFrom_inv (· = s) (plan_decides.admits.next _ ?_) s rfl cs
  rintro _ c es s' rfl hs
  exact absurd hp hs.phase_ne

/-- **Settlements rest on evidence.**  In every reachable plan, with at most `2 ^ 32` epochs, a
settled step names a record of that step and of its cycle (made since the last reopening, if there
were fewer than `2 ^ 32`) which the epoch of the settlement accepts, and which is not of the step's
holder unless that epoch allows it.  No evidence id is recorded twice, and in every later state
evidence and policies are what they were; a superseded plan stays as it is. -/
theorem plan_settlements (cs : List PlanCommand) :
    ((plan.run cs).policies.length ≤ 2 ^ 32 →
      ∀ (id : String) st x, (plan.run cs).steps[id]? = some st → st.settlement = some x →
        ∃ e p claim, (plan.run cs).evidence[x.evidence]? = some e ∧ e.step = id ∧
          e.cycle = st.cycle ∧ (st.reopened.length < 2 ^ 32 → RecordedInCycle (plan.trace cs) e) ∧
          (plan.run cs).policies[x.epoch]? = some p ∧ e.kind ∈ p.accepts ∧
          st.claim = some claim ∧ (p.claimantMaySettle = true ∨ e.author ≠ claim.holder)) ∧
    (recordedIds (plan.trace cs)).Nodup ∧
    (∀ ds, (∀ (id : String) e, (plan.run cs).evidence[id]? = some e →
        (plan.run (cs ++ ds)).evidence[id]? = some e) ∧
      (plan.run cs).policies <+: (plan.run (cs ++ ds)).policies ∧
      ((plan.run cs).phase = .superseded → plan.run (cs ++ ds) = plan.run cs)) := by
  refine ⟨fun hlen id st x hl hx => ?_, (numbered_run cs).nodup, fun ds => ?_⟩
  · obtain ⟨e, p, claim, hb⟩ := evidenced_run cs hlen id st x hl hx
    exact ⟨e, p, claim, hb.evidence, hb.step, hb.cycle,
      (cycles_run cs).current hl hb.evidence hb.step hb.cycle, hb.policy, hb.accepts, hb.claimed,
      hb.independent⟩
  · rw [plan.run_append]
    have hk := kept_runFrom (numbered_run cs) ds
    exact ⟨hk.evidence, hk.policies, fun hp => superseded_final hp ds⟩

/-! ## An epoch that wraps -/

/-- A step that `a` holds and `b` recorded work on, under a policy that wants an attestation. -/
def heldStep : List PlanCommand :=
  [ .propose "plan" "title" "owner" [⟨"s", "step", ∅⟩] ⟨{.attestation}, true⟩ 0,
    .claimStep "s" "a" 1 2,
    .recordEvidence "s" .workRecord "b" "cut" 1 ]

def revision (i : Nat) : SettlementPolicy := ⟨{.workRecord}, i % 2 == 0⟩

/-- The held step after `n` revisions, each of them a change. -/
def revisedPlan (n : Nat) : List PlanCommand :=
  heldStep ++ (List.range n).map fun i => .reviseSettlementPolicy (revision i) "owner" 3

/-- The step is settled after one revision. -/
def settledPlan : List PlanCommand := revisedPlan 1 ++ [.settleStep "s" "evidence-1" "owner" 4]

theorem plan_settlements_settledPlan :
    (plan.run settledPlan).policies.length ≤ 2 ^ 32 ∧
      ∃ st x e, (plan.run settledPlan).steps["s"]? = some st ∧ st.settlement = some x ∧
        (plan.run settledPlan).evidence[x.evidence]? = some e ∧ e.cycle = st.cycle := by
  have hrun : (plan.run settledPlan).policies.length ≤ 2 ^ 32 ∧ (plan.run settledPlan).steps["s"]? =
      some ⟨"step", ∅, 0, some ⟨"a", 1, 2⟩, some ⟨"evidence-1", 1, "owner", 4⟩, []⟩ := by
    decide +kernel
  obtain ⟨e, p, claim, he, -, hc, -⟩ :=
    (plan_settlements settledPlan).1 hrun.1 "s" _ _ hrun.2 rfl
  exact ⟨hrun.1, _, _, e, hrun.2, rfl, he, hc⟩

theorem revision_ne : revision n ≠ revision (n + 1) := by
  intro h
  have hb : (n % 2 == 0) = ((n + 1) % 2 == 0) := congrArg SettlementPolicy.claimantMaySettle h
  rcases Nat.mod_two_eq_zero_or_one n with hn | hn
  · simp [hn, Nat.add_mod] at hb
  · simp [hn, Nat.add_mod] at hb

theorem step_revise (hp : s.phase = .active) (hv : validPolicy policy = true)
    (hnew : s.policies.getLast? ≠ some policy) :
    plan.step s (.reviseSettlementPolicy policy by_ atMs) = { s with policies := s.policies ++ [policy] } := by
  refine (plan.step_of_ok s _ _ [.settlementPolicyRevised (asU32 s.policies.length) policy by_ atMs]
    ?_ rfl).1
  simp only [plan, PlanState.decide, hp]
  show (if ¬ validPolicy policy = true then _ else if s.policies.getLast? = some policy then _ else _) = _
  rw [if_neg (not_not.mpr hv), if_neg hnew]

/-- The held step under the policies of `n` revisions. -/
def revised (n : Nat) : PlanState :=
  { plan.run heldStep with
    policies := ⟨{.attestation}, true⟩ :: (List.range n).map revision }

theorem revised_held : (revised n).phase = .active ∧
    (revised n).steps["s"]? = some ⟨"step", ∅, 0, some ⟨"a", 1, 2⟩, none, []⟩ ∧
    (revised n).evidence["evidence-1"]? = some ⟨"evidence-1", "s", .workRecord, "b", "cut", 0, 1⟩ := by
  have hheld : (plan.run heldStep).phase = .active ∧
      (plan.run heldStep).steps["s"]? = some ⟨"step", ∅, 0, some ⟨"a", 1, 2⟩, none, []⟩ ∧
      (plan.run heldStep).evidence["evidence-1"]? =
        some ⟨"evidence-1", "s", .workRecord, "b", "cut", 0, 1⟩ := by decide +kernel
  exact hheld

theorem revised_succ_policies :
    (revised (n + 1)).policies = (revised n).policies ++ [revision n] := by
  unfold revised
  rw [range_succ, map_append]
  rfl

theorem revised_getLast? : (revised (n + 1)).policies.getLast? = some (revision n) := by
  rw [revised_succ_policies]
  exact getLast?_concat

/-- Every revision is admitted and adds one policy. -/
theorem run_revisedPlan : plan.run (revisedPlan n) = revised n := by
  induction n with
  | zero =>
    have hp : (plan.run heldStep).policies = [⟨{.attestation}, true⟩] := by decide +kernel
    show plan.run (heldStep ++ []) = { plan.run heldStep with policies := [⟨{.attestation}, true⟩] }
    rw [append_nil, ← hp]
  | succ n ih =>
    have hsplit : revisedPlan (n + 1) =
        revisedPlan n ++ [.reviseSettlementPolicy (revision n) "owner" 3] := by
      unfold revisedPlan
      rw [range_succ, map_append, append_assoc]
      rfl
    have hnew : (revised n).policies.getLast? ≠ some (revision n) := by
      cases n with
      | zero => exact fun h => absurd (Option.some.inj h) (by decide)
      | succ n =>
        rw [revised_getLast?]
        exact fun h => revision_ne n (Option.some.inj h)
    rw [hsplit, plan.run_append, ih]
    refine (step_revise (revised_held n).1 rfl hnew).trans ?_
    rw [← revised_succ_policies]
    rfl

/-- The settlement at the revision `n + 1` has that epoch, cut to 32 bits. -/
theorem run_settledPlan :
    plan.run (revisedPlan (n + 1) ++ [.settleStep "s" "evidence-1" "owner" 4]) =
      { revised (n + 1) with
        steps := (revised (n + 1)).steps.insert "s" (StepState.settle
          ⟨"step", ∅, 0, some ⟨"a", 1, 2⟩, none, []⟩ ⟨"evidence-1", asU32 (n + 1), "owner", 4⟩) } := by
  obtain ⟨hp, hl, he⟩ := revised_held (n + 1)
  have hlen : (revised (n + 1)).policies.length - 1 = n + 1 := by simp [revised]
  have hne : (revised (n + 1)).policies ≠ [] := by simp [revised]
  have hrecord : ((revised (n + 1)).evidence["evidence-1"]?.filter fun e => e.step == "s") =
      some ⟨"evidence-1", "s", .workRecord, "b", "cut", 0, 1⟩ := by
    rw [he]
    rfl
  have hkind : EvidenceKind.workRecord ∈ (revision n).accepts := Finset.mem_singleton_self _
  have hdecide : plan.decide (revised (n + 1)) (.settleStep "s" "evidence-1" "owner" 4) =
      .ok [.stepSettled "s" "evidence-1" (asU32 (n + 1)) "owner" 4] := by
    show (revised (n + 1)).decide (.settleStep "s" "evidence-1" "owner" 4) = _
    simp [PlanState.decide, decideActive, PlanState.epoch, hp, hl, hrecord, hne, hlen, hkind,
      revised_getLast? n, okOr, bind, Except.bind]
  have hset := updateStep_of_some hl (·.settle ⟨"evidence-1", asU32 (n + 1), "owner", 4⟩)
  rw [plan.run_append, run_revisedPlan]
  exact (plan.step_of_ok _ _ _ _ hdecide (plan.evolveAll_one (congrArg Except.ok hset))).1

/-- **An epoch that wraps.**  After `2 ^ 32` revisions the settlement names the first policy, which
does not accept the evidence. -/
theorem settled_under_wrapped_epoch :
    ∃ cs st x e p, (plan.run cs).steps["s"]? = some st ∧ st.settlement = some x ∧
      (plan.run cs).evidence[x.evidence]? = some e ∧ (plan.run cs).policies[x.epoch]? = some p ∧
      e.kind ∉ p.accepts := by
  refine ⟨revisedPlan (2 ^ 32 - 1 + 1) ++ [.settleStep "s" "evidence-1" "owner" 4], ?_⟩
  rw [run_settledPlan]
  refine ⟨_, _, _, _, getElem?_insert_self, rfl, (revised_held (2 ^ 32 - 1 + 1)).2.2, rfl, ?_⟩
  decide

/-! ## Who held the step -/

/-- The authorities that claimed the step `id` in its cycle, after one more event. -/
def PlanEvent.claimants (id : String) (held : List Authority) : PlanEvent → List Authority
  | .stepClaimed step holder _ _ => if step = id then held ++ [holder] else held
  | .stepReopened step _ _ _ => if step = id then [] else held
  | _ => held

/-- The authorities that claimed the step `id` since it was proposed or last reopened, in order. -/
def cycleClaimants (id : String) (tr : List PlanEvent) : List Authority :=
  tr.foldl (PlanEvent.claimants id) []

theorem cycleClaimants_concat (id : String) (tr : List PlanEvent) (event : PlanEvent) :
    cycleClaimants id (tr ++ [event]) = event.claimants id (cycleClaimants id tr) := foldl_concat ..

/-- The claim of a step is the last one of its cycle. -/
def LastClaim (steps : TreeMap String StepState) (tr : List PlanEvent) : Prop :=
  ∀ (id : String) st claim, steps[id]? = some st → st.claim = some claim →
    (cycleClaimants id tr).getLast? = some claim.holder

section
variable {steps : TreeMap String StepState}

/-- A change of one step whose event is not about the claims of any other. -/
theorem LastClaim.update (h : LastClaim steps tr) {step : String}
    (hother : ∀ id held, step ≠ id → event.claimants id held = held)
    (hnext : ∀ claim, next.claim = some claim →
      (event.claimants step (cycleClaimants step tr)).getLast? = some claim.holder) :
    LastClaim (steps.insert step next) (tr ++ [event]) := by
  intro id st claim hl hclaim
  rw [cycleClaimants_concat]
  rcases getElem?_insert_cases hl with ⟨rfl, rfl⟩ | ⟨hid, hl⟩
  · exact hnext claim hclaim
  · rw [hother id _ hid]
    exact h id st claim hl hclaim

theorem LastClaim.same (h : LastClaim steps tr) (hes : ∀ id held, event.claimants id held = held) :
    LastClaim steps (tr ++ [event]) := by
  intro id st claim hl hclaim
  rw [cycleClaimants_concat, hes]
  exact h id st claim hl hclaim

theorem LastClaim.step (h : LastClaim s.steps tr) (hs : Step s c es s') :
    LastClaim s'.steps (tr ++ es) := by
  cases hs with
  | propose =>
    intro id st claim hl hclaim
    obtain ⟨spec, rfl⟩ := initial_of_proposed hl
    cases hclaim
  | claim step holder =>
    refine h.update (fun id held hid => if_neg hid) fun claim hclaim => ?_
    cases hclaim
    show (if step = step then cycleClaimants step tr ++ [holder] else _).getLast? = _
    rw [if_pos rfl]
    exact getLast?_concat
  | release step holder atMs current claim hp hl hns hclaim hholder hlive =>
    exact h.update (fun _ _ _ => rfl) nofun
  | settle step evidence by_ atMs current claim record epoch policy hp hl hns hclaim =>
    refine h.update (fun _ _ _ => rfl) fun closed hclosed => ?_
    -- closing a claim keeps its holder
    change current.claim.map _ = some closed at hclosed
    rw [hclaim, Option.map_some, Option.some.injEq] at hclosed
    rw [← hclosed]
    exact h step current claim hl hclaim
  | reopen =>
    exact h.update (fun id held hid => if_neg hid) nofun
  | _ => exact h.same fun _ _ => rfl

end

theorem lastClaim_run : LastClaim (plan.run cs).steps (plan.trace cs) := by
  have hinit : LastClaim plan.init.steps [] := fun id st claim hl => by simp [plan] at hl
  exact plan_decides.admits.run_trace_inv (fun s => LastClaim s.steps) hinit
    (fun _ _ _ _ _ h hs => h.step hs) cs

/-- **Independent settlement.**  In every run a settlement is admitted on a step that was claimed in
its cycle, and under an epoch that does not let the claimant settle its evidence is not of the last
authority that claimed the step in that cycle. -/
theorem settlement_independent (cs : List PlanCommand) (step evidence : String) (by_ : Authority)
    (atMs : Nat) (es : List PlanEvent)
    (h : plan.decide (plan.run cs) (.settleStep step evidence by_ atMs) = .ok es) :
    ∃ e policy epoch holder, es = [.stepSettled step evidence epoch by_ atMs] ∧
      (plan.run cs).epoch = some epoch ∧ (plan.run cs).policies.getLast? = some policy ∧
      (plan.run cs).evidence[evidence]? = some e ∧
      (cycleClaimants step (plan.trace cs)).getLast? = some holder ∧
      (policy.claimantMaySettle = false → e.author ≠ holder) := by
  obtain ⟨s', he⟩ := plan_decides.evolve_decided h
  cases plan_decides.admits _ _ _ _ h he with
  | settle _ _ _ _ current claim record epoch policy hp hl hns hclaim hrecord hstep hcycle hepoch hpolicy
      hkind hown =>
    refine ⟨record, policy, epoch, claim.holder, rfl, hepoch, hpolicy, hrecord,
      lastClaim_run cs step current claim hl hclaim, fun hno hauthor => ?_⟩
    rw [hown hauthor] at hno
    cases hno

/-- `x` claims the step, attests to its own work and releases it; `y` claims it. -/
def handedOver : List PlanCommand :=
  [ .propose "plan" "title" "owner" [⟨"s", "step", ∅⟩] ⟨{.attestation}, false⟩ 0,
    .claimStep "s" "x" 1 10,
    .recordEvidence "s" .attestation "x" "cut" 2,
    .releaseStep "s" "x" 3,
    .claimStep "s" "y" 4 10 ]

theorem settlement_independent_handedOver :
    ∃ es, plan.decide (plan.run (handedOver ++ [.recordEvidence "s" .attestation "z" "cut" 5]))
        (.settleStep "s" "evidence-2" "owner" 6) = .ok es ∧
      ∃ holder, (cycleClaimants "s" (plan.trace (handedOver ++
        [.recordEvidence "s" .attestation "z" "cut" 5]))).getLast? = some holder := by
  have h : plan.decide (plan.run (handedOver ++ [.recordEvidence "s" .attestation "z" "cut" 5]))
      (.settleStep "s" "evidence-2" "owner" 6) =
        .ok [.stepSettled "s" "evidence-2" 0 "owner" 6] := by decide +kernel
  obtain ⟨e, policy, epoch, holder, -, -, -, -, hholder, -⟩ := settlement_independent _ _ _ _ _ _ h
  exact ⟨_, h, holder, hholder⟩

/-- **A former holder's evidence settles** the cycle in which it held the step, under a policy that
does not let the claimant settle. -/
theorem settled_by_former_holder :
    plan.decide (plan.run handedOver) (.settleStep "s" "evidence-1" "owner" 5) =
        .ok [.stepSettled "s" "evidence-1" 0 "owner" 5] ∧
      (plan.run handedOver).policies = [⟨{.attestation}, false⟩] ∧
      ((plan.run handedOver).evidence["evidence-1"]?.map (·.author)) = some "x" ∧
      cycleClaimants "s" (plan.trace handedOver) = ["x", "y"] := by
  decide +kernel

end GaugeDesk.Plan
