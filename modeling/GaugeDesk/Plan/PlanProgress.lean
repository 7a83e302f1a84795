import Mathlib.Order.WellFoundedSet
import GaugeDesk.Plan.PlanSteps

/-!
# Plans: valid proposals, and plans that go on

The steps of a plan that `valid_steps` accepts have no cycle of blockers, and it
accepts every list of named, distinct steps that has none.  No later command changes
who blocks whom, so that an active plan always has a step to go on with:

    valid_steps accepts ↔ named, distinct, closed and acyclic steps  (validSteps_iff)
    active and unsettled → some unsettled step is ready or claimed  (plan_goes_on)
-/

namespace GaugeDesk.Plan

open Std Relation List

/-! ## Valid proposals -/

section
variable {steps : List StepSpec} {id : String}

/-- The step `a` waits for `b`. -/
def Blocks (steps : List StepSpec) (b a : String) : Prop :=
  ∃ step ∈ steps, step.id = a ∧ b ∈ step.blockedBy

/-- The blockers of the steps are steps. -/
def Closed (steps : List StepSpec) : Prop :=
  ∀ step ∈ steps, ∀ b ∈ step.blockedBy, b ∈ steps.map (·.id)

theorem namedSteps_iff (ids : List String) (steps : List StepSpec) :
    namedSteps ids steps = .ok () ↔
      (∀ step ∈ steps, blank step.id = false ∧ blank step.title = false ∧ step.id ∉ ids) ∧
        (steps.map (·.id)).Nodup := by
  induction steps generalizing ids with
  | nil => simp [namedSteps]
  | cons step steps ih =>
    simp only [namedSteps, ite_reject_eq_ok, ih, not_or, Bool.not_eq_true, contains_iff_mem,
      map_cons, nodup_cons, mem_cons, mem_map]
    grind

theorem acc_kahn (hnodup : (steps.map (·.id)).Nodup) (rounds : Nat) :
    ∀ id ∈ kahn steps rounds ∅, Acc (Blocks steps) id := by
  refine kahn_inv (fun done => ∀ id ∈ done, Acc (Blocks steps) id) (fun done hdone id hid => ?_) rounds ∅
    fun id hid => absurd hid (Finset.notMem_empty id)
  rcases Finset.mem_union.mp hid with hid | hid
  · exact hdone id hid
  · obtain ⟨step, hm, rfl, -, hsub⟩ := mem_kahnNext.mp hid
    refine ⟨_, ?_⟩
    rintro b ⟨step', hm', hid', hb⟩
    obtain rfl : step' = step := inj_on_of_nodup_map hnodup hm' hm hid'
    exact hdone b (hsub hb)

/-- The loop takes every step of a list whose blockers do not go in a circle. -/
theorem kahn_complete (hclosed : Closed steps) (hacyclic : ∀ id, ¬ TransGen (Blocks steps) id id) :
    (steps.map (·.id)).toFinset ⊆ kahn steps steps.length ∅ := by
  have horder : IsStrictOrder String (TransGen (Blocks steps)) :=
    { irrefl := hacyclic, trans := fun _ _ _ => .trans }
  have hwf : ((steps.map (·.id)).toFinset : Set String).WellFoundedOn (TransGen (Blocks steps)) :=
    (Finset.finite_toSet _).wellFoundedOn
  intro id hid
  refine hwf.induction (P := (· ∈ kahn steps steps.length ∅)) hid fun id hid ih => ?_
  obtain ⟨step, hm, rfl⟩ := mem_map.mp (mem_toFinset.mp hid)
  by_contra hleft
  have hnext : step.id ∈ kahnNext steps (kahn steps steps.length ∅) := by
    refine mem_kahnNext.mpr ⟨step, hm, rfl, hleft, fun b hb => ?_⟩
    exact ih b (mem_toFinset.mpr (hclosed step hm b hb)) (.single ⟨step, hm, rfl, hb⟩)
  rw [kahnNext_kahn] at hnext
  exact absurd hnext (Finset.notMem_empty _)

theorem validSteps_eq_ok : validSteps steps = .ok () ↔
    steps ≠ [] ∧ namedSteps [] steps = .ok () ∧ Closed steps ∧
      (steps.map (·.id)).toFinset ⊆ kahn steps steps.length ∅ := by
  have hcard : (kahn steps steps.length ∅).card = (steps.map (·.id)).toFinset.card ↔
      (steps.map (·.id)).toFinset ⊆ kahn steps steps.length ∅ := by
    constructor
    · intro h
      exact (Finset.eq_of_subset_of_card_le (kahn_subset steps steps.length) h.ge).ge
    · intro h
      rw [Finset.Subset.antisymm (kahn_subset steps steps.length) h]
  simp only [validSteps, ite_reject_eq_ok, bind_eq_ok, List.isEmpty_iff, not_exists, not_and,
    not_not, ne_eq, hcard, and_true]
  constructor
  · rintro ⟨hne, _, hnamed, hclosed, hall⟩
    exact ⟨hne, hnamed, fun step hm b hb => mem_toFinset.mp (hclosed step hm hb), hall⟩
  · rintro ⟨hne, hnamed, hclosed, hall⟩
    exact ⟨hne, (), hnamed, fun step hm b hb => mem_toFinset.mpr (hclosed step hm b hb), hall⟩

/-- Blockers of valid steps do not go in a circle, nor on forever. -/
theorem wellFounded_of_validSteps (h : validSteps steps = .ok ()) : WellFounded (Blocks steps) := by
  obtain ⟨-, hnamed, -, hall⟩ := validSteps_eq_ok.mp h
  obtain ⟨-, hnodup⟩ := (namedSteps_iff [] steps).mp hnamed
  refine ⟨fun a => ⟨_, ?_⟩⟩
  rintro b ⟨step, hm, rfl, hb⟩
  have hstep := hall (mem_toFinset.mpr (mem_map_of_mem hm))
  exact (acc_kahn hnodup steps.length step.id hstep).inv ⟨step, hm, rfl, hb⟩

/-- **Plan validation is exact**, and its loop comes to an end. -/
theorem validSteps_iff (steps : List StepSpec) :
    (validSteps steps = .ok () ↔ steps ≠ [] ∧
      (∀ step ∈ steps, blank step.id = false ∧ blank step.title = false) ∧
      (steps.map (·.id)).Nodup ∧ (∀ step ∈ steps, ∀ b ∈ step.blockedBy, b ∈ steps.map (·.id)) ∧
      ∀ id, ¬ TransGen (Blocks steps) id id) ∧
    kahnNext steps (kahn steps steps.length ∅) = ∅ := by
  refine ⟨⟨fun h => ?_, ?_⟩, kahnNext_kahn steps⟩
  · obtain ⟨hne, hnamed, hclosed, -⟩ := validSteps_eq_ok.mp h
    obtain ⟨htexts, hnodup⟩ := (namedSteps_iff [] steps).mp hnamed
    refine ⟨hne, fun step hm => ⟨(htexts step hm).1, (htexts step hm).2.1⟩, hnodup, hclosed, fun id => ?_⟩
    exact (wellFounded_of_validSteps h).transGen.irrefl.irrefl id
  · rintro ⟨hne, htexts, hnodup, hclosed, hacyclic⟩
    refine validSteps_eq_ok.mpr ⟨hne, (namedSteps_iff [] steps).mpr ⟨fun step hm => ?_, hnodup⟩, hclosed,
      kahn_complete hclosed hacyclic⟩
    exact ⟨(htexts step hm).1, (htexts step hm).2, not_mem_nil⟩

end

/-! ## Plans that go on -/

section
variable {s s' : PlanState} {c : PlanCommand} {es : List PlanEvent} {key : String}
  {current next : StepState} {nowMs : Nat}

/-- The step `a` of the plan waits for `b`. -/
def PlanState.Blocks (s : PlanState) (b a : String) : Prop :=
  ∃ st, s.steps[a]? = some st ∧ b ∈ st.blockedBy

/-- The blockers of a plan's steps are steps of the plan, and do not go on forever. -/
structure Ordered (s : PlanState) : Prop where
  closed : ∀ b a, s.Blocks b a → ∃ st, s.steps[b]? = some st
  wellFounded : WellFounded s.Blocks

/-- A step that keeps its blockers changes nothing of the order. -/
theorem Ordered.update (h : Ordered s) (hl : s.steps[key]? = some current)
    (hsteps : s'.steps = s.steps.insert key next) (hnext : next.blockedBy = current.blockedBy) :
    Ordered s' := by
  have hblocks : ∀ b a, s'.Blocks b a → s.Blocks b a := by
    rintro b a ⟨st, hst, hb⟩
    rw [hsteps] at hst
    rcases TreeMap.getElem?_insert_cases hst with ⟨rfl, rfl⟩ | ⟨-, hst⟩
    · exact ⟨current, hl, hnext ▸ hb⟩
    · exact ⟨st, hst, hb⟩
  refine ⟨fun b a hba => ?_, Subrelation.wf (hblocks _ _) h.wellFounded⟩
  obtain ⟨st, hst⟩ := h.closed b a (hblocks b a hba)
  rw [hsteps, TreeMap.getElem?_insert_eq]
  by_cases hb : key = b
  · exact ⟨next, if_pos hb⟩
  · exact ⟨st, (if_neg hb).trans hst⟩

theorem Ordered.propose {specs : List StepSpec} (hv : validSteps specs = .ok ())
    (hsteps : s'.steps = TreeMap.ofList (specs.map fun spec => (spec.id, spec.initial))) : Ordered s' := by
  have hblocks : ∀ b a, s'.Blocks b a → Plan.Blocks specs b a := by
    rintro b a ⟨st, hst, hb⟩
    rw [hsteps] at hst
    obtain ⟨spec, hm, heq⟩ := mem_map.mp (TreeMap.mem_of_getElem?_ofList hst)
    cases heq
    exact ⟨spec, hm, rfl, hb⟩
  refine ⟨fun b a hba => ?_, Subrelation.wf (hblocks _ _) (wellFounded_of_validSteps hv)⟩
  obtain ⟨spec, hm, -, hb⟩ := hblocks b a hba
  have hb := (validSteps_eq_ok.mp hv).2.2.1 spec hm b hb
  refine Option.isSome_iff_exists.mp ?_
  rw [← TreeMap.contains_eq_isSome_getElem?, hsteps, TreeMap.contains_ofList, List.map_map,
    contains_iff_mem]
  exact hb

theorem Ordered.step (h : Ordered s) (hs : Step s c es s') : Ordered s' := by
  cases hs with
  | propose planId title proposer steps policy atMs hp hpolicy hv => exact .propose hv rfl
  | claim _ _ _ _ _ _ hl | release _ _ _ _ _ _ hl | settle _ _ _ _ _ _ _ _ _ _ hl
  | reopen _ _ _ _ _ _ _ hl => exact h.update hl rfl rfl
  | record | revise | supersede => exact ⟨h.closed, h.wellFounded⟩

theorem ordered_run (cs : List PlanCommand) : Ordered (plan.run cs) := by
  refine plan_decides.admits.run_inv Ordered ⟨?_, ⟨fun a => ⟨a, ?_⟩⟩⟩ (fun _ _ _ _ h hs => h.step hs) cs
  · rintro b a ⟨st, hst, -⟩
    simp [plan] at hst
  · rintro b ⟨st, hst, -⟩
    simp [plan] at hst

theorem readiness_eq_ready (h : s.readiness key nowMs = some .ready) :
    ∃ current, s.steps[key]? = some current ∧ current.settlement = none ∧
      (current.claim.any fun claim => claim.isLive nowMs) = false ∧ s.unsettledBlockers current = ∅ := by
  obtain ⟨current, hl, hready⟩ := Option.map_eq_some_iff.mp h
  refine ⟨current, hl, ?_⟩
  split at hready
  · cases hready
  · next hns =>
    split at hready
    · cases hready
    · next hfree =>
      dsimp only at hready
      split at hready
      · next hnone =>
        refine ⟨Option.not_isSome_iff_eq_none.mp hns, ?_, hnone⟩
        rw [Bool.eq_false_iff, ne_eq, Option.any_eq_true]
        rintro ⟨claim, hclaim, hlive⟩
        simp [hclaim, hlive] at hfree
      · cases hready

/-- An unsettled step that waits for nothing unsettled: one that no unsettled step blocks. -/
theorem Ordered.unblocked (h : Ordered s) (hl : s.steps[key]? = some current)
    (hns : current.settlement = none) : ∃ (id : String) (st : StepState),
      s.steps[id]? = some st ∧ st.settlement = none ∧ s.unsettledBlockers st = ∅ := by
  obtain ⟨id, ⟨st, hst, hopen⟩, hmin⟩ := h.wellFounded.has_min
    {id | ∃ st, s.steps[id]? = some st ∧ st.settlement = none} ⟨key, current, hl, hns⟩
  refine ⟨id, st, hst, hopen, Finset.filter_eq_empty_iff.mpr fun b hb hall => ?_⟩
  obtain ⟨blocker, hblocker⟩ := h.closed b id ⟨st, hst, hb⟩
  rw [hblocker, Option.all_some, Option.isNone_iff_eq_none] at hall
  exact hmin b ⟨blocker, hblocker, hall⟩ ⟨st, hst, hb⟩

/-- **Plans never deadlock.**  An active plan with an unsettled step has, at every time, an unsettled
step that is ready or under a live claim; and whatever is ready can be claimed at that time, by any
holder and under any lease that ends after it. -/
theorem plan_goes_on (cs : List PlanCommand) (nowMs : Nat) :
    ((∃ (id : String) (st : StepState), (plan.run cs).steps[id]? = some st ∧ st.settlement = none) →
      ∃ (id : String) (st : StepState), (plan.run cs).steps[id]? = some st ∧ st.settlement = none ∧
        ((plan.run cs).readiness id nowMs = some .ready ∨ ∃ holder leaseUntilMs,
          (plan.run cs).readiness id nowMs = some (.claimed holder leaseUntilMs))) ∧
    ((plan.run cs).phase = .active → ∀ id, (plan.run cs).readiness id nowMs = some .ready →
      ∀ holder leaseUntilMs, nowMs < leaseUntilMs →
        plan.decide (plan.run cs) (.claimStep id holder nowMs leaseUntilMs) =
          .ok [.stepClaimed id holder nowMs leaseUntilMs]) := by
  constructor
  · rintro ⟨id, st, hl, hns⟩
    obtain ⟨next, st, hst, hopen, hnone⟩ := (ordered_run cs).unblocked hl hns
    refine ⟨next, st, hst, hopen, ?_⟩
    unfold PlanState.readiness
    rw [hst, Option.map_some, hopen]
    cases st.claim.filter fun claim => claim.isLive nowMs with
    | none => exact .inl (congrArg some (if_pos hnone))
    | some claim => exact .inr ⟨_, _, rfl⟩
  · intro hp id hready holder leaseUntilMs hlease
    obtain ⟨current, hl, hns, hfree, hnone⟩ := readiness_eq_ready hready
    show PlanState.decide _ (.claimStep id holder nowMs leaseUntilMs) = _
    simp only [PlanState.decide, hp, decideActive, hl, okOr, bind, Except.bind, hns, Option.isSome_none,
      hfree, hnone, ne_eq, not_true_eq_false, Bool.false_eq_true, if_false, Nat.not_le.mpr hlease]

end

end GaugeDesk.Plan
