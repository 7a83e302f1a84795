import GaugeDesk.ModelConnection.Budget

/-!
# Model connections: every charge goes to the budgets of its grants

A grant's budget is of the family of its connection and of its subject, and an
attempt is reserved under the active grants of one connection, so `charges`,
which looks at the invocation only, agrees with the grants the attempt records.

    an attempt's grants are of one family and charge it  (attempts_run)
-/

namespace GaugeDesk.ModelConnection

open Std List TreeMap Nat

variable {s s' : State} {id : ModelConnectionId} {c : Command} {actor : AuthorityId}
   {g : Grant} {u u' : PeriodUsage} {a : Attempt} {invocation : Invocation}
  {phase : Phase} {t : Totals} {budget : BudgetKey} {month : Month}

/-! ## Attempts -/

/-- The attempt's grants are of the one family of its connection and of its own subjects; a
settled attempt has its usage, and public execution a public initiator. -/
structure Attempt.Attributed (s : State) (a : Attempt) : Prop where
  nonempty : a.grants ≠ []
  family : ∀ g ∈ a.grants,
    s.familyOf a.invocation.connection = some g.budget.connectionFamily
  subject : ∀ g ∈ a.grants, g.budget.subject.matches a.invocation = true
  usage : a.phase = .settled → ∃ usage, a.usage = some usage
  isPublic : a.invocation.executionClass = .publicDirect →
    a.invocation.initiator.isPublicSession = true

theorem Attempt.Attributed.kept (h : a.Attributed s) (hk : FamiliesKept s s') : a.Attributed s' :=
  ⟨h.nonempty, fun g hg => hk _ _ (h.family g hg), h.subject, h.usage, h.isPublic⟩

theorem applicable_attributed {evidence : ExecutionEvidence} {grants : List ApplicableGrant}
    (hs : GrantsAttributed s) (h : applicable s invocation evidence actor = .ok grants) :
    grants ≠ [] ∧
      (∀ g ∈ grants, s.familyOf invocation.connection = some g.budget.connectionFamily ∧
        g.budget.subject.matches invocation = true) ∧
      (invocation.executionClass = .publicDirect →
        invocation.initiator.isPublicSession = true) := by
  simp only [applicable, connection, bind_eq_ok, require_eq_ok, any_eq_true, pure_eq_ok] at h
  obtain ⟨-, -, -, -, u, hclass, -, -, -, -, -, ⟨p, hp, -⟩, rfl⟩ := h
  refine ⟨ne_nil_of_mem (mem_map_of_mem hp), ?_, ?_⟩
  · intro g hg
    obtain ⟨q, hq, rfl⟩ := mem_map.mp hg
    simp only [activeGrants, mem_filter, Bool.and_eq_true, beq_iff_eq] at hq
    obtain ⟨hgrant, ⟨-, hconn⟩, hsubject⟩ := hq
    have hattr := hs q.1 q.2 (mem_toList_iff_getElem?_eq_some.mp hgrant)
    refine ⟨?_, ?_⟩
    · rw [← hconn]
      exact hattr.family
    · show q.2.budget.subject.matches invocation = true
      rw [hattr.subject]
      exact hsubject
  · intro hpublic
    simp only [checkExecutionClass, hpublic, require_eq_ok, Bool.and_eq_true] at hclass
    exact hclass.2

/-- A settled attempt has a usage after every decided change. -/
def AttemptsAttributed (s : State) : Prop := s.attempts.Each fun a => a.Attributed s

theorem attemptsAttributed_step (s : State) (c : Command) (es : List Event) (s' : State)
    (hg : GrantsAttributed s) (h : AttemptsAttributed s) (hs : Step s c es s') :
    AttemptsAttributed s' := by
  have hkept := (families_step hs).1
  have hold : s.attempts.Each fun a => a.Attributed s' := fun id a ha => (h id a ha).kept hkept
  unfold AttemptsAttributed
  cases hs.ledger with
  | same es hsame =>
    rw [hsame]
    exact hold
  | reserved op id a evidence hd hnew hfresh hw =>
    rw [hw.attempts]
    refine hold.insert id ?_
    cases hd with
    | existing op change a ha hr hactor hdec => cases hdec
    | reserve id invocation evidence bound reservedUntil reconcileBy grants first month hnew hdl
        happ =>
      obtain ⟨hne, hall, hpublic⟩ := applicable_attributed hg happ
      exact ⟨hne, fun g hm => hkept _ _ (hall g hm).1, fun g hm => (hall g hm).2,
        (nofun), hpublic⟩
  | changed op change a ha hd hid hr hw =>
    rw [hw.attempts]
    refine hold.insert change.id ?_
    have hattr := hold change.id a ha
    obtain ⟨hinv, hgr, -, -, -, -⟩ := sameTerms_apply hd
    have husage : (change.apply a).phase = .settled → ∃ usage, (change.apply a).usage = some usage := by
      cases hd with
      | settle id usage | correct id usage => exact fun _ => ⟨usage, rfl⟩
      | reconcileOverrun => exact hattr.usage
      | _ =>
        intro hp
        cases hp
    refine ⟨?_, ?_, ?_, husage, ?_⟩
    · rw [hgr]
      exact hattr.nonempty
    · rw [hgr, hinv]
      exact hattr.family
    · rw [hgr, hinv]
      exact hattr.subject
    · rw [hinv]
      exact hattr.isPublic

theorem attempts_run (cs : List Command) : AttemptsAttributed (modelConnection.run cs) := by
  refine (modelConnection_admits.run_inv (fun s => GrantsAttributed s ∧ AttemptsAttributed s)
    ⟨each_empty, each_empty⟩ ?_ cs).2
  rintro s c es s' ⟨hg, ha⟩ hs
  exact ⟨grantsAttributed_step s c es s' hg hs, attemptsAttributed_step s c es s' hg ha hs⟩

theorem Attempt.Attributed.family_of (h : a.Attributed s)
    (hf : s.familyOf a.invocation.connection = some id) : a.family = .ok id := by
  obtain ⟨first, rest, hgrants⟩ := exists_cons_of_ne_nil h.nonempty
  have hfirst : first ∈ a.grants := by
    rw [hgrants]
    exact mem_cons_self
  unfold Attempt.family firstGrant
  rw [hgrants]
  exact congrArg Except.ok (Option.some.inj ((h.family first hfirst).symm.trans hf))

theorem Attempt.Attributed.family_eq (h : a.Attributed s) {g : ApplicableGrant}
    (hg : g ∈ a.grants) : a.family = .ok g.budget.connectionFamily :=
  h.family_of (h.family g hg)

theorem Attempt.Attributed.charges (h : a.Attributed s) {g : ApplicableGrant} (hg : g ∈ a.grants) :
    a.charges g.budget = .ok true := by
  unfold Attempt.charges
  rw [h.family_eq hg]
  simp only [bind, Except.bind, h.subject g hg, beq_self_eq_true, Bool.and_self, pure, Except.pure]

/-! ## Period usage -/

inductive Bucket where
  | measured | reserved | accountedAtBound
deriving DecidableEq

/-- Where an attempt of the phase is counted; a released one is not. -/
def Phase.bucket : Phase → Option Bucket
  | .released => none
  | .settled => some .measured
  | .accountedAtBound => some .accountedAtBound
  | .reserved | .dispatched | .unknown => some .reserved

def PeriodUsage.part (u : PeriodUsage) : Bucket → Totals
  | .measured => u.measured
  | .reserved => u.reserved
  | .accountedAtBound => u.accountedAtBound

def PeriodUsage.setPart (u : PeriodUsage) (part : Totals) : Bucket → PeriodUsage
  | .measured => { u with measured := part }
  | .reserved => { u with reserved := part }
  | .accountedAtBound => { u with accountedAtBound := part }

/-- The measured usage of a settled attempt, the bound of any other. -/
def Attempt.amount (a : Attempt) : Nat × Option Money :=
  match a.phase, a.usage with
  | .settled, some usage => (usage.tokens, usage.money)
  | _, _ => (a.bound.tokens, a.bound.money)

/-- An attempt of the month that charges the budget and is counted in the bucket. -/
def Attempt.countsIn (bucket : Bucket) (budget : BudgetKey) (month : Month) (a : Attempt) : Bool :=
  decide (a.month = month) && a.chargesTo budget && a.phase.bucket == some bucket

def Attempt.share (bucket : Bucket) (x : Metric) (budget : BudgetKey) (month : Month) (a : Attempt) :
    Nat :=
  if a.countsIn bucket budget month then (single a.amount).measure x else 0

/-- One for an attempt whose outcome is unknown or was accounted at its bound. -/
def Attempt.unsettled (budget : BudgetKey) (month : Month) (a : Attempt) : Nat :=
  if a.month = month ∧ a.chargesTo budget = true ∧
    (a.phase = .unknown ∨ a.phase = .accountedAtBound) then 1 else 0

theorem part_setPart (u : PeriodUsage) (part : Totals) (b b' : Bucket) :
    (u.setPart part b).part b' = if b = b' then part else u.part b' := by
  cases b <;> cases b' <;> rfl

theorem addCounted_eq {bucket : Bucket} (hb : phase.bucket = some bucket) (u : PeriodUsage)
    (p : Nat × Option Money) : u.addCounted phase p.1 p.2 =
      ((u.part bucket).add p.1 (moneyAmounts p.2) p.2.isNone).map fun part =>
        u.setPart part bucket := by
  cases phase <;> cases hb <;> rfl

theorem Attempt.counted_eq (hu : a.phase = .settled → ∃ usage, a.usage = some usage) :
    a.counted = a.phase.bucket.map fun _ => a.amount := by
  unfold Attempt.counted Attempt.amount
  cases hp : a.phase with
  | settled =>
    obtain ⟨usage, husage⟩ := hu hp
    rw [husage]
    rfl
  | _ => rfl

theorem charges_of_grants (hg : a.grants ≠ []) (budget : BudgetKey) :
    a.charges budget = .ok (a.chargesTo budget) := by
  obtain ⟨first, rest, hgrants⟩ := exists_cons_of_ne_nil hg
  unfold Attempt.charges Attempt.family firstGrant Attempt.chargesTo
  rw [hgrants]
  rfl

/-- The usage is `u` and what the attempts of `l` add to it. -/
structure PeriodUsage.Counts (budget : BudgetKey) (month : Month) (l : List Attempt)
    (u u' : PeriodUsage) : Prop where
  measure : ∀ bucket x, (u'.part bucket).measure x =
    (u.part bucket).measure x + (l.map (Attempt.share bucket x budget month)).sum
  unknownMoney : ∀ bucket, (u'.part bucket).unknownMoney = ((u.part bucket).unknownMoney ||
    l.any fun a => a.countsIn bucket budget month && a.amount.2.isNone)
  unknownOutcomes : u'.unknownOutcomes =
    u.unknownOutcomes + (l.map (Attempt.unsettled budget month)).sum

/-- The sums of the attempts fit their machine integers. -/
structure PeriodUsage.Fits (budget : BudgetKey) (month : Month) (l : List Attempt)
    (u : PeriodUsage) : Prop where
  measure : ∀ bucket x,
    (u.part bucket).measure x + (l.map (Attempt.share bucket x budget month)).sum ≤ u128Max
  unknownOutcomes : u.unknownOutcomes + (l.map (Attempt.unsettled budget month)).sum ≤ u64Max

/-- The sums are returned, or one of them does not fit. -/
def PeriodUsage.Sums (budget : BudgetKey) (month : Month) (l : List Attempt) (u : PeriodUsage)
    (r : Except Fault PeriodUsage) : Prop :=
  (∃ u', r = .ok u' ∧ u.Counts budget month l u') ∨
    (¬ u.Fits budget month l ∧ ∃ e, r = .error e)

theorem unknownMoney_add {t' : Totals} {tokens : Nat} {money : TreeMap Currency Nat}
    {unknown : Bool} (h : t.add tokens money unknown = .ok t') :
    t'.unknownMoney = (t.unknownMoney || unknown) := by
  simp only [Totals.add, bind_eq_ok, pure_eq_ok] at h
  obtain ⟨tokens, -, money, -, rfl⟩ := h
  rfl

theorem foldlM_addMoney_returns (l : List (Currency × Nat)) (m : TreeMap Currency Nat)
    (h : ∀ c, m.getD c 0 + ((l.filter fun p => p.1 = c).map Prod.snd).sum ≤ u128Max) :
    ∃ m', l.foldlM addMoney m = .ok m' := by
  induction l generalizing m with
  | nil => exact ⟨m, rfl⟩
  | cons p l ih =>
    have hp := h p.1
    rw [filter_cons_of_pos (by simp), map_cons, sum_cons] at hp
    have hadd : addMoney m p = .ok (m.insert p.1 (m.getD p.1 0 + p.2)) := by
      unfold addMoney checkedAdd128
      rw [if_pos (by omega)]
      rfl
    rw [foldlM_cons, hadd]
    apply ih
    intro c
    rw [getD_insert]
    by_cases hc : p.1 = c
    · subst hc
      rw [if_pos ReflCmp.compare_self]
      omega
    · have hrest := h c
      rw [filter_cons_of_neg (by simpa using hc)] at hrest
      rw [if_neg (fun hcmp => hc (LawfulEqCmp.compare_eq_iff_eq.mp hcmp))]
      exact hrest

theorem add_returns {part : Totals} (h : ∀ x, t.measure x + part.measure x ≤ u128Max) :
    ∃ t', t.add part.tokens part.money part.unknownMoney = .ok t' := by
  have htokens : checkedAdd128 t.tokens part.tokens = some (t.tokens + part.tokens) :=
    if_pos (h .tokens)
  obtain ⟨money, hmoney⟩ := foldlM_addMoney_returns part.money.toList t.money (by
    intro c
    rw [sum_filter_toList]
    exact h (.micros c))
  unfold Totals.add
  rw [htokens, hmoney]
  exact ⟨_, rfl⟩

theorem counts_none (hout : ∀ bucket, a.countsIn bucket budget month = false)
    (ho : a.unsettled budget month = 0) (u : PeriodUsage) : u.Counts budget month [a] u := by
  constructor
  · intro bucket x
    simp only [map_cons, map_nil, sum_singleton, Attempt.share, hout,
      Bool.false_eq_true, if_false, add_zero]
  · intro bucket
    simp only [any_cons, any_nil, hout, Bool.false_and, Bool.or_false]
  · simp only [map_cons, map_nil, sum_singleton, ho, add_zero]

theorem counts_skipped (h : ¬ (a.month = month ∧ a.chargesTo budget = true)) (u : PeriodUsage) :
    u.Counts budget month [a] u := by
  refine counts_none (fun bucket => ?_) (if_neg fun hand => h ⟨hand.1, hand.2.1⟩) u
  rw [← Bool.not_eq_true]
  unfold Attempt.countsIn
  rw [Bool.and_eq_true, Bool.and_eq_true, decide_eq_true_eq]
  exact fun hand => h hand.1

theorem countOutcome_sums (u : PeriodUsage) (phase : Phase) :
    (∃ u', u.countOutcome phase = .ok u' ∧ (∀ bucket, u'.part bucket = u.part bucket) ∧
      u'.unknownOutcomes =
        u.unknownOutcomes + if phase = .unknown ∨ phase = .accountedAtBound then 1 else 0) ∨
    (u64Max < u.unknownOutcomes + (if phase = .unknown ∨ phase = .accountedAtBound then 1 else 0) ∧
      ∃ e, u.countOutcome phase = .error e) := by
  unfold PeriodUsage.countOutcome
  by_cases hp : phase = .unknown ∨ phase = .accountedAtBound
  · rw [if_pos hp, if_pos hp]
    unfold checkedAdd64
    by_cases hroom : u.unknownOutcomes + 1 ≤ u64Max
    · rw [if_pos hroom]
      exact .inl ⟨_, rfl, fun bucket => by cases bucket <;> rfl, rfl⟩
    · rw [if_neg hroom]
      exact .inr ⟨Nat.lt_of_not_le hroom, _, rfl⟩
  · rw [if_neg hp, if_neg hp]
    exact .inl ⟨u, rfl, fun bucket => rfl, rfl⟩

/-- A charged attempt goes to the bucket of its phase. -/
theorem addAttempt_sums (hm : a.month = month) (hc : a.chargesTo budget = true)
    (hu : a.phase = .settled → ∃ usage, a.usage = some usage) (u : PeriodUsage) :
    u.Sums budget month [a] (u.addAttempt a) := by
  have hin : ∀ bucket, a.countsIn bucket budget month = (a.phase.bucket == some bucket) := by
    simp only [Attempt.countsIn, hm, hc, decide_true, Bool.true_and, implies_true]
  have hun : a.unsettled budget month =
      if a.phase = .unknown ∨ a.phase = .accountedAtBound then 1 else 0 := by
    simp only [Attempt.unsettled, hm, hc, true_and]
  have hcounted := Attempt.counted_eq hu
  unfold PeriodUsage.addAttempt
  cases hb : a.phase.bucket with
  | none =>
    rw [hb] at hcounted hin
    rw [hcounted]
    have hphase : a.phase = .released := by
      cases hp : a.phase <;> rw [hp] at hb <;> cases hb
    rw [hphase] at hun
    exact .inl ⟨u, rfl, counts_none hin hun u⟩
  | some b =>
    rw [hb] at hcounted hin
    simp only [hcounted, Option.map_some, addCounted_eq hb]
    cases hadd : (u.part b).add a.amount.1 (moneyAmounts a.amount.2) a.amount.2.isNone with
    | error e =>
      refine .inr ⟨fun hfits => ?_, e, rfl⟩
      have hroom : ∀ x, (u.part b).measure x + (single a.amount).measure x ≤ u128Max := by
        intro x
        have hx := hfits.measure b x
        simp only [map_cons, map_nil, sum_singleton, Attempt.share, hin,
          beq_self_eq_true, if_true] at hx
        exact hx
      obtain ⟨part, hpart⟩ := add_returns hroom
      cases hadd.symm.trans hpart
    | ok part =>
      have houtcomes : (u.setPart part b).unknownOutcomes = u.unknownOutcomes := by
        cases b <;> rfl
      have hcount := countOutcome_sums (u.setPart part b) a.phase
      rw [houtcomes, ← hun] at hcount
      obtain ⟨u', hu', hparts, hn⟩ | ⟨hno, e, he⟩ := hcount
      · refine .inl ⟨u', hu', fun bucket x => ?_, fun bucket => ?_, ?_⟩
        · rw [hparts, part_setPart, map_singleton, sum_singleton, Attempt.share, hin]
          by_cases hbk : b = bucket
          · subst hbk
            rw [if_pos rfl, if_pos (by simp)]
            exact measure_add _ _ (single a.amount) hadd x
          · rw [if_neg hbk, if_neg (by simpa using hbk), add_zero]
        · simp only [hparts, part_setPart, hin, any_cons, any_nil, Bool.or_false]
          by_cases hbk : b = bucket
          · subst hbk
            rw [if_pos rfl, beq_self_eq_true, Bool.true_and, unknownMoney_add hadd]
          · have hne : (some b == some bucket) = false := by simpa using hbk
            rw [if_neg hbk, hne, Bool.false_and, Bool.or_false]
        · rw [hn, map_singleton, sum_singleton]
      · refine .inr ⟨fun hfits => ?_, e, he⟩
        have hroom := hfits.unknownOutcomes
        rw [map_singleton, sum_singleton] at hroom
        omega

theorem visit_sums (hg : a.grants ≠ []) (hu : a.phase = .settled → ∃ usage, a.usage = some usage)
    (u : PeriodUsage) : u.Sums budget month [a] (u.visit budget month a) := by
  unfold PeriodUsage.visit
  by_cases hm : a.month = month
  · rw [if_pos hm, charges_of_grants hg]
    cases hc : a.chargesTo budget with
    | true => exact addAttempt_sums hm hc hu u
    | false =>
      have hno : ¬ (a.month = month ∧ a.chargesTo budget = true) := by
        rw [hc]
        exact fun hand => Bool.false_ne_true hand.2
      exact .inl ⟨u, rfl, counts_skipped hno u⟩
  · rw [if_neg hm]
    exact .inl ⟨u, rfl, counts_skipped (fun hand => hm hand.1) u⟩

theorem foldlM_visit_sums (l : List Attempt) (hl : ∀ a ∈ l, a.Attributed s) (u : PeriodUsage) :
    u.Sums budget month l (l.foldlM (PeriodUsage.visit budget month) u) := by
  induction l generalizing u with
  | nil => exact .inl ⟨u, rfl, fun bucket x => rfl, fun bucket => (Bool.or_false _).symm, rfl⟩
  | cons a l ih =>
    obtain ⟨ha, hl⟩ := forall_mem_cons.mp hl
    rw [foldlM_cons]
    have hsplit : ∀ f : Attempt → Nat,
        ((a :: l).map f).sum = ([a].map f).sum + (l.map f).sum := by
      intro f
      simp
    obtain ⟨v, hv, hone⟩ | ⟨hno, e, he⟩ := visit_sums ha.nonempty ha.usage u
    · rw [hv]
      obtain ⟨u', hu', hrest⟩ | ⟨hno, e, he⟩ := ih hl v
      · refine .inl ⟨u', hu', fun bucket x => ?_, fun bucket => ?_, ?_⟩
        · rw [hrest.measure, hone.measure, hsplit, add_assoc]
        · rw [hrest.unknownMoney, hone.unknownMoney, any_cons, any_cons, any_nil,
            Bool.or_false, Bool.or_assoc]
        · rw [hrest.unknownOutcomes, hone.unknownOutcomes, hsplit, add_assoc]
      · refine .inr ⟨fun hfits => hno ⟨fun bucket x => ?_, ?_⟩, e, he⟩
        · rw [hone.measure, add_assoc, ← hsplit]
          exact hfits.measure bucket x
        · rw [hone.unknownOutcomes, add_assoc, ← hsplit]
          exact hfits.unknownOutcomes
    · refine .inr ⟨fun hfits => hno ⟨fun bucket x => ?_, ?_⟩, e, by rw [he]; rfl⟩
      · have hx := hfits.measure bucket x
        rw [hsplit] at hx
        omega
      · have hx := hfits.unknownOutcomes
        rw [hsplit] at hx
        omega

theorem periodUsage_sums (hs : AttemptsAttributed s) : ({} : PeriodUsage).Sums budget month
    (s.attempts.toList.map Prod.snd) (periodUsage s budget month) := by
  have hall : ∀ a ∈ s.attempts.toList.map Prod.snd, a.Attributed s :=
    forall_mem_map.mpr <|
      (forall_mem_toList_iff s.attempts fun _ a => a.Attributed s).mpr hs
  have hfold : PeriodUsage.Sums budget month _ {} _ := foldlM_visit_sums _ hall {}
  rwa [foldlM_map] at hfold

theorem measure_empty (bucket : Bucket) (x : Metric) :
    (({} : PeriodUsage).part bucket).measure x = 0 := by
  cases bucket <;> cases x <;> rfl

/-- **The period usage of a budget is three sums over the ledger.** -/
theorem periodUsage_counts (hs : AttemptsAttributed s) (h : periodUsage s budget month = .ok u) :
    (∀ bucket x, (u.part bucket).measure x =
        s.attempts.sumOf (Attempt.share bucket x budget month)) ∧
      (∀ bucket, (u.part bucket).unknownMoney = true ↔
        ∃ (id : ModelAttemptId) (a : Attempt), s.attempts[id]? = some a ∧
          a.countsIn bucket budget month = true ∧ a.amount.2 = none) ∧
      u.unknownOutcomes = s.attempts.sumOf (Attempt.unsettled budget month) := by
  obtain ⟨u', hu', hcounts⟩ | ⟨-, e, he⟩ := periodUsage_sums hs
  · cases hu'.symm.trans h
    refine ⟨fun bucket x => ?_, fun bucket => ?_, ?_⟩
    · rw [hcounts.measure, measure_empty, zero_add, List.map_map]
      rfl
    · have hfalse : (({} : PeriodUsage).part bucket).unknownMoney = false := by
        cases bucket <;> rfl
      rw [hcounts.unknownMoney, hfalse, Bool.false_or, any_map, any_eq_true]
      constructor
      · rintro ⟨⟨id, a⟩, hm, hp⟩
        rw [Function.comp_apply, Bool.and_eq_true, Option.isNone_iff_eq_none] at hp
        exact ⟨id, a, mem_toList_iff_getElem?_eq_some.mp hm, hp⟩
      · rintro ⟨id, a, ha, hp⟩
        refine ⟨(id, a), mem_toList_iff_getElem?_eq_some.mpr ha, ?_⟩
        rw [Function.comp_apply, Bool.and_eq_true, Option.isNone_iff_eq_none]
        exact hp
    · rw [hcounts.unknownOutcomes, List.map_map]
      exact zero_add _
  · cases he.symm.trans h

/-! ## The result -/

theorem Attempt.Attributed.one_family (h : a.Attributed s) :
    ∃ family, a.family = .ok family ∧ ∀ g ∈ a.grants, g.budget.connectionFamily = family := by
  obtain ⟨first, hfirst⟩ := exists_mem_of_ne_nil _ h.nonempty
  refine ⟨first.budget.connectionFamily, h.family_eq hfirst, fun g hg => ?_⟩
  exact Except.ok.inj ((h.family_eq hg).symm.trans (h.family_eq hfirst))

/-- A member's grant is recorded by that member's attempts only, none of them public. -/
theorem Attempt.Attributed.member (h : a.Attributed s) {g : ApplicableGrant} (hg : g ∈ a.grants)
    {member : AuthorityId} (hm : g.budget.subject = .member member) :
    a.invocation.initiator = .member member ∧ a.invocation.executionClass ≠ .publicDirect := by
  have hsubject := h.subject g hg
  rw [hm] at hsubject
  have hinitiator : a.invocation.initiator = .member member := eq_of_beq hsubject
  refine ⟨hinitiator, fun hpublic => ?_⟩
  have hsession := h.isPublic hpublic
  rw [hinitiator] at hsession
  cases hsession

/-- **Budget attribution**: in every reachable state the budgets of grants, the grants of attempts
and the usage of a period agree. -/
theorem budget_attribution (cs : List Command) :
    (∀ (id : ModelGrantId) (g : Grant), (modelConnection.run cs).grants[id]? = some g →
      (∃ conn : Connection, (modelConnection.run cs).connections[g.definition.connection]? = some conn ∧
        g.budget = ⟨conn.budgetFamily, g.definition.subject⟩) ∧
      g.definition.MemberOnly ∧
      ∀ ds, ∃ g' : Grant, (modelConnection.run (cs ++ ds)).grants[id]? = some g' ∧ g'.budget = g.budget ∧
        (g.status = .revoked → g' = g)) ∧
    (∀ id previous, ∀ e ∈ modelConnection.trace cs, e.reconnects id previous →
      ∃ conn old : Connection, (modelConnection.run cs).connections[id]? = some conn ∧
        (modelConnection.run cs).connections[previous]? = some old ∧
        conn.budgetFamily = old.budgetFamily) ∧
    (∀ (id : ModelAttemptId) (a : Attempt), (modelConnection.run cs).attempts[id]? = some a →
      a.grants ≠ [] ∧
      (∃ family, a.family = .ok family ∧ ∀ g ∈ a.grants, g.budget.connectionFamily = family) ∧
      (∀ budget, a.charges budget = .ok (a.chargesTo budget)) ∧
      (∀ g ∈ a.grants, a.charges g.budget = .ok true) ∧
      (∀ g ∈ a.grants, ∀ member, g.budget.subject = .member member →
        a.invocation.initiator = .member member ∧ a.invocation.executionClass ≠ .publicDirect) ∧
      (a.phase = .settled → ∃ usage, a.usage = some usage)) ∧
    (∀ budget month,
      (∀ u, periodUsage (modelConnection.run cs) budget month = .ok u →
        (∀ bucket x, (u.part bucket).measure x =
          (modelConnection.run cs).attempts.sumOf (Attempt.share bucket x budget month)) ∧
        (∀ bucket, (u.part bucket).unknownMoney = true ↔
          ∃ (id : ModelAttemptId) (a : Attempt), (modelConnection.run cs).attempts[id]? = some a ∧
            a.countsIn bucket budget month = true ∧ a.amount.2 = none) ∧
        u.unknownOutcomes =
          (modelConnection.run cs).attempts.sumOf (Attempt.unsettled budget month)) ∧
      ((∀ bucket x, (modelConnection.run cs).attempts.sumOf
          (Attempt.share bucket x budget month) ≤ u128Max) →
        (modelConnection.run cs).attempts.sumOf (Attempt.unsettled budget month) ≤ u64Max →
        ∃ u, periodUsage (modelConnection.run cs) budget month = .ok u)) := by
  refine ⟨?_, ?_, ?_, ?_⟩
  · intro id g hg
    have hattr := grants_run cs id g hg
    obtain ⟨conn, hconn, hbudget⟩ := Option.map_eq_some_iff.mp hattr.family
    refine ⟨⟨conn, hconn, by rw [hbudget, ← hattr.subject]⟩, hattr.members, fun ds => ?_⟩
    have hkept := grantsKept_run cs ds
    obtain ⟨g', hg', hown⟩ := hkept.owner id g hg
    refine ⟨g', hg', hown.budget, fun hr => ?_⟩
    exact Option.some.inj (hg'.symm.trans (hkept.revoked id g hg hr))
  · intro id previous e he hr
    obtain ⟨family, hid, hprevious⟩ := reconnected_run cs id previous e he hr
    obtain ⟨conn, hconn, hf⟩ := Option.map_eq_some_iff.mp hid
    obtain ⟨old, hold, hf'⟩ := Option.map_eq_some_iff.mp hprevious
    exact ⟨conn, old, hconn, hold, hf.trans hf'.symm⟩
  · intro id a ha
    have hattr := attempts_run cs id a ha
    exact ⟨hattr.nonempty, hattr.one_family, charges_of_grants hattr.nonempty,
      fun g hg => hattr.charges hg, fun g hg member hm => hattr.member hg hm, hattr.usage⟩
  · intro budget month
    refine ⟨fun u hu => periodUsage_counts (attempts_run cs) hu, fun hm ho => ?_⟩
    -- sums that fit their machine integers are returned
    obtain ⟨u, hu, -⟩ | ⟨hno, -⟩ := periodUsage_sums (attempts_run cs)
    · exact ⟨u, hu⟩
    · refine absurd ⟨fun bucket x => ?_, ?_⟩ hno
      · rw [measure_empty, zero_add, List.map_map]
        exact hm bucket x
      · rw [List.map_map]
        exact (zero_add _).trans_le ho

/-- The settled connection is revoked and reconnected. -/
def reconnectedRun : List Command :=
  settledRun ++
  [manage .manageConnections 5 9 (.revoke "connection"),
   manage .manageConnections 6 10
     (.beginIntake "second" ⟨"next", providerKey, smallModels⟩ (some "connection") "v2" 100)]

theorem budget_attribution_reconnectedRun :
    (∃ conn old : Connection, (modelConnection.run reconnectedRun).connections["second"]? = some conn ∧
      (modelConnection.run reconnectedRun).connections["connection"]? = some old ∧
      conn.budgetFamily = old.budgetFamily) ∧
    ∃ a : Attempt, (modelConnection.run reconnectedRun).attempts["first"]? = some a ∧
      ∀ g ∈ a.grants, a.charges g.budget = .ok true := by
  have hattr := budget_attribution reconnectedRun
  refine ⟨?_, ?_⟩
  · refine hattr.2.1 "second" "connection" _ (mem_of_getElem? (i := 9) rfl) ⟨_, _, _, rfl⟩
  · obtain ⟨a, ha⟩ : ∃ a, (modelConnection.run reconnectedRun).attempts["first"]? = some a :=
      Option.isSome_iff_exists.mp (by decide)
    exact ⟨a, ha, (hattr.2.2.1 "first" a ha).2.2.2.1⟩

end GaugeDesk.ModelConnection
