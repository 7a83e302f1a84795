import GaugeDesk.ModelConnection.Attempts
import GaugeDesk.ModelConnection.Grants
import GaugeDesk.ModelConnection.Totals

/-!
# Model connections: a capped budget stays within its cap

A cap is checked when an attempt is reserved.  Afterwards an attempt counts no
more than its bound, so along a segment in which a grant stays active with its
caps the month's total of its budget stays within them, as long as

    every reservation that charges the budget names the grant's connection,
    no measurement overruns its bound, and
    no correction counts more than the attempt counted before.

    within the cap at the start → within it at every point  (budget_cap_kept)
-/

namespace GaugeDesk.ModelConnection

open Std TreeMap List Option Bool

variable {s s' : State} {c : Command} {g : Grant} {month : Month} {n now : Nat}
  {p : Nat × Option Money} {x : Metric} {actor : AuthorityId} {op : SpendOperation}
  {id : ModelAttemptId} {a : Attempt} {gid : ModelGrantId} {change : SpendChange}
  {budget : BudgetKey} {evidence : ObservationId}

/-! ## Segments -/

/-- Unknown money is above every known amount; known amounts compare in one currency only. -/
def moneyAtMost : Option Money → Option Money → Bool
  | _, none => true
  | none, some _ => false
  | some p, some q => p.currency == q.currency && decide (p.micros ≤ q.micros)

/-- What an attempt may count after a correction, against what it counted before. -/
def Metric.atMost (x : Metric) (p q : Nat × Option Money) : Bool :=
  match x with
  | .tokens => decide (p.1 ≤ q.1)
  | .micros _ => moneyAtMost p.2 q.2

/-- The change may occur in a segment that keeps the budget of `g`. -/
def SpendChange.allowed (x : Metric) (s : State) (g : Grant) : SpendChange → Bool
  | .reserved _ a _ => !a.chargesTo g.budget || a.invocation.connection == g.definition.connection
  | .settled _ _ _ overrun => !overrun
  | .corrected id usage _ overrun =>
    !overrun && (s.attempts[id]?.bind Attempt.counted).any fun p =>
      x.atMost (usage.tokens, usage.money) p
  | _ => true

def Event.allowed (x : Metric) (s : State) (g : Grant) (e : Event) : Bool :=
  match e.change with
  | .spend change => change.allowed x s g
  | _ => true

/-- The grant is active with the caps of `g`. -/
def State.holds (s : State) (id : ModelGrantId) (g : Grant) : Bool :=
  s.grants[id]?.any fun current =>
    current.status == .active && current.definition.caps == g.definition.caps

/-- A step of a segment: the grant is held, and the changes are allowed. -/
def Segment (x : Metric) (id : ModelGrantId) (g : Grant) (s : State) (c : Command) : Prop :=
  s.holds id g = true ∧ (modelConnection.emitted s c).all (Event.allowed x s g) = true

instance (x : Metric) (id : ModelGrantId) (g : Grant) (s : State) (c : Command) :
    Decidable (Segment x id g s c) :=
  inferInstanceAs (Decidable (_ ∧ _))

/-! ## Grants -/

/-- The budget of a grant is of the grant's own subject. -/
def OwnBudgets (s : State) : Prop := s.grants.Each fun g => g.budget.subject = g.definition.subject

theorem GrantsAttributed.ownBudgets (h : GrantsAttributed s) : OwnBudgets s :=
  fun id g hg => (h id g hg).subject

/-! ## Reservations -/

theorem mem_foldl_budgets (l : List ApplicableGrant) (acc : TreeMap BudgetKey (List Caps))
    (budget : BudgetKey) (caps : Caps)
    (h : (∃ old, acc[budget]? = some old ∧ caps ∈ old) ∨
      ∃ g ∈ l, g.budget = budget ∧ g.caps = caps) :
    ∃ all, (l.foldl (fun result grant =>
      result.insert grant.budget (result.getD grant.budget [] ++ [grant.caps])) acc)[budget]? =
        some all ∧ caps ∈ all := by
  induction l generalizing acc with
  | nil =>
    rcases h with h | ⟨g, hg, -⟩
    · exact h
    · cases hg
  | cons g l ih =>
    apply ih
    rw [getElem?_insert_eq]
    rcases h with ⟨old, hold, hm⟩ | ⟨g', hg', hb, hc⟩
    · left
      by_cases hk : g.budget = budget
      · rw [if_pos hk, getD_eq_getD_getElem?, hk, hold]
        exact ⟨_, rfl, mem_append_left _ hm⟩
      · rw [if_neg hk]
        exact ⟨old, hold, hm⟩
    · rcases mem_cons.mp hg' with rfl | hl
      · left
        rw [if_pos hb]
        exact ⟨_, rfl, mem_append_right _ (by rw [hc]; exact mem_singleton_self caps)⟩
      · exact .inr ⟨g', hl, hb, hc⟩

theorem any_checkedAdd128 {m cap : Nat}
    (h : ((checkedAdd128 m n).any fun value => decide (value ≤ cap)) = true) : m + n ≤ cap := by
  cases hadd : checkedAdd128 m n with
  | none =>
    rw [hadd] at h
    cases h
  | some k =>
    rw [hadd] at h
    have hk := checkedAdd128_eq_some hadd
    have hle := of_decide_eq_true h
    omega

/-- The cap on a quantity. -/
def Caps.limit (caps : Caps) : Metric → Option Nat
  | .tokens => caps.tokens
  | .micros c => (caps.money.filter fun cap => cap.currency == c).map Money.micros

theorem limit_micros {caps : Caps} {c : Currency} (h : caps.limit (.micros c) = some n) :
    caps.money = some ⟨c, n⟩ := by
  simp only [Caps.limit, map_eq_some_iff, filter_eq_some_iff, beq_iff_eq] at h
  obtain ⟨cap, ⟨hcap, rfl⟩, rfl⟩ := h
  exact hcap

theorem priced_single {c : Currency} :
    (single p).Priced c ↔ ∃ m, p.2 = some m ∧ m.currency = c := by
  obtain ⟨tokens, money⟩ := p
  cases money with
  | none => simp [single, Totals.Priced]
  | some m =>
    constructor
    · intro h
      refine ⟨m, rfl, h.2 m.currency ?_⟩
      exact mem_insert_self
    · rintro ⟨m', hm, rfl⟩
      cases hm
      refine ⟨rfl, fun k hk => ?_⟩
      have hmem : k ∈ ({} : TreeMap Currency Nat).insert m.currency m.micros := hk
      rw [mem_insert, LawfulEqCmp.compare_eq_iff_eq] at hmem
      rcases hmem with rfl | hempty
      · rfl
      · exact absurd hempty not_mem_emptyc

theorem micros_single {m : Money} (h : p.2 = some m) :
    (single p).measure (.micros m.currency) = m.micros := by
  show (moneyAmounts p.2).getD m.currency 0 = m.micros
  rw [h]
  exact getD_insert_self

theorem within_limit {t : Totals} {bound : Bound} {caps : Caps} (h : within t bound caps = .ok ())
    (hn : caps.limit x = some n) :
    t.measure x + (single (bound.tokens, bound.money)).measure x ≤ n ∧
      ∀ c, x = .micros c → (single (bound.tokens, bound.money)).Priced c := by
  cases x with
  | tokens =>
    have hcap : caps.tokens = some n := hn
    simp only [within, bind_eq_ok, hcap, withinTokens, require_eq_ok] at h
    obtain ⟨-, htokens, -⟩ := h
    exact ⟨any_checkedAdd128 htokens, by simp⟩
  | micros c =>
    have hcap := limit_micros hn
    simp only [within, bind_eq_ok, hcap, withinMoney, require_eq_ok, okOr_eq_ok,
      and_eq_true, beq_iff_eq] at h
    obtain ⟨-, -, -, -, maximum, hmax, -, ⟨⟨rfl, -⟩, -⟩, hle⟩ := h
    have hmicros := micros_single (p := (bound.tokens, bound.money)) hmax
    rw [hmicros]
    refine ⟨any_checkedAdd128 hle, fun c hc => ?_⟩
    cases hc
    exact priced_single.mpr ⟨maximum, hmax, rfl⟩

/-- A reservation that charges the budget of a held grant met the grant's caps. -/
theorem within_of_reserve
    (hd : SpendDecided s actor now op (some (.reserved id a evidence)))
    (hg : s.grants[gid]? = some g) (hactive : g.status = .active)
    (hown : g.budget.subject = g.definition.subject) (hcharge : a.chargesTo g.budget = true)
    (hconn : a.invocation.connection = g.definition.connection) :
    ∃ t, totals s g.budget a.month = .ok t ∧ within t a.bound g.definition.caps = .ok () := by
  cases hd with
  | existing op change b hb hr hactor hd => cases hd
  | reserve id invocation evidence bound reservedUntil reconcileBy grants first month hnew hdl happ
      hfirst helig hmonth hcaps =>
    have hgrants := (applicable_eq_ok happ).1
    simp only [Attempt.chargesTo, hown, newAttempt, and_eq_true] at hcharge hconn
    have hmem : ApplicableGrant.of (gid, g) ∈ grants := by
      rw [hgrants]
      refine mem_map_of_mem (mem_filter.mpr ⟨?_, ?_⟩)
      · exact mem_toList_iff_getElem?_eq_some.mpr hg
      · simp [hactive, hconn, hcharge.2]
    -- every cap of every applicable grant was checked against the month's total of its budget
    obtain ⟨all, hall, hm⟩ := mem_foldl_budgets grants {} g.budget g.definition.caps
      (.inr ⟨_, hmem, rfl, rfl⟩)
    have hcheck := Except.forM_ok_iff.mp hcaps (g.budget, all)
      (mem_toList_iff_getElem?_eq_some.mpr hall)
    rw [bind_eq_ok] at hcheck
    obtain ⟨t, ht, hwithin⟩ := hcheck
    exact ⟨t, ht, Except.forM_ok_iff.mp hwithin g.definition.caps hm⟩

/-! ## What an attempt counts -/

theorem moneyAtMost_refl (p : Option Money) : moneyAtMost p p = true := by
  cases p <;> simp [moneyAtMost]

theorem Metric.atMost_refl (x : Metric) (p : Nat × Option Money) : x.atMost p p = true := by
  cases x with
  | tokens => simp [Metric.atMost]
  | micros c => exact moneyAtMost_refl p.2

theorem atMost_of_measured {usage : Usage}
    (h : measured a usage evidence = .ok (some false)) (x : Metric) :
    x.atMost (usage.tokens, usage.money) (a.bound.tokens, a.bound.money) = true := by
  unfold measured at h
  cases hm : a.measurements[evidence]? with
  | some previous =>
    simp [hm, bind_eq_ok, pure, Except.pure] at h
  | none =>
    simp only [hm, bind_eq_ok, pure_eq_ok, some.injEq, or_eq_false_iff,
      decide_eq_false_iff_not, Nat.not_lt] at h
    obtain ⟨-, -, overrun, hover, htokens, rfl⟩ := h
    cases x with
    | tokens => exact decide_eq_true htokens
    | micros c =>
      show moneyAtMost usage.money a.bound.money = true
      unfold moneyOverrun at hover
      cases hb : a.bound.money with
      | none => rfl
      | some maximum =>
        simp only [hb, bind_eq_ok, okOr_eq_ok, pure_eq_ok, or_eq_false_iff,
          bne_eq_false_iff_eq, decide_eq_false_iff_not, Nat.not_lt] at hover
        obtain ⟨actual, hactual, hcur, hle⟩ := hover
        rw [hactual]
        simp [moneyAtMost, hcur, hle]

theorem counted_of_open (h : a.phase = .reserved ∨ a.phase = .dispatched ∨ a.phase = .unknown) :
    a.counted = some (a.bound.tokens, a.bound.money) := by
  unfold Attempt.counted
  rcases h with h | h | h <;> rw [h]

/-- After an allowed change the attempt counts nothing, or at most what it counted. -/
theorem counted_apply (ha : s.attempts[op.id]? = some a)
    (hd : AttemptDecided s actor now a op (some change)) (hallowed : change.allowed x s g = true)
    (hp : (change.apply a).counted = some p) : ∃ q, a.counted = some q ∧ x.atMost p q = true := by
  have hsame : (change.apply a).counted = a.counted →
      ∃ q, a.counted = some q ∧ x.atMost p q = true := by
    intro h
    exact ⟨p, h.symm.trans hp, x.atMost_refl p⟩
  cases hd with
  | dispatch id evidence family hphase => exact hsame (counted_of_open (.inl hphase)).symm
  | cancel | expire => cases hp
  | outcomeUnknown id evidence hphase =>
    exact hsame (counted_of_open (.inr (.inl hphase))).symm
  | settle id usage evidence overrun hnew hm hphase =>
    have hfalse : overrun = false := by simpa [SpendChange.allowed] using hallowed
    subst hfalse
    have hpair : p = (usage.tokens, usage.money) := (some.inj hp).symm
    rw [hpair]
    exact ⟨_, counted_of_open (.inr hphase), atMost_of_measured hm x⟩
  | reconcileDeadline id hnow hphase => exact hsame (counted_of_open (.inr hphase)).symm
  | correct id usage =>
    have hpair : p = (usage.tokens, usage.money) := (some.inj hp).symm
    have ha' : s.attempts[id]? = some a := ha
    simp only [SpendChange.allowed, and_eq_true, ha', bind_some] at hallowed
    rw [hpair]
    cases hq : a.counted with
    | none =>
      rw [hq] at hallowed
      cases hallowed.2
    | some q =>
      rw [hq] at hallowed
      exact ⟨q, rfl, hallowed.2⟩
  | reconcileOverrun => exact hsame rfl

/-! ## The segment -/

/-- The ledger's total of a budget in a month is within `n`; for money, all in one currency. -/
structure Fits (s : State) (x : Metric) (n : Nat) (budget : BudgetKey) (month : Month) : Prop where
  used : s.used x budget month ≤ n
  priced : ∀ c, x = .micros c → s.Priced c budget month

theorem Fits.congr (h : Fits s x n budget month) (he : s'.attempts = s.attempts) :
    Fits s' x n budget month := by
  constructor
  · unfold State.used
    rw [he]
    exact h.used
  · intro c hc
    unfold State.Priced
    rw [he]
    exact h.priced c hc

/-- An amount at most a priced one is priced, and measures no more. -/
theorem single_le {q : Nat × Option Money} (h : x.atMost p q = true)
    (hq : ∀ c, x = .micros c → (single q).Priced c) :
    (single p).measure x ≤ (single q).measure x ∧ ∀ c, x = .micros c → (single p).Priced c := by
  cases x with
  | tokens => exact ⟨of_decide_eq_true h, nofun⟩
  | micros c =>
    obtain ⟨m, hm, rfl⟩ := priced_single.mp (hq c rfl)
    have hle : moneyAtMost p.2 q.2 = true := h
    rw [hm] at hle
    cases hp : p.2 with
    | none =>
      rw [hp] at hle
      cases hle
    | some m' =>
      simp only [hp, moneyAtMost, and_eq_true, beq_iff_eq, decide_eq_true_eq] at hle
      obtain ⟨hcur, hmicros⟩ := hle
      rw [micros_single hm, ← hcur, micros_single hp]
      refine ⟨hmicros, fun c hc => ?_⟩
      cases hc
      exact priced_single.mpr ⟨m', hp, rfl⟩

/-- Rewriting an attempt with one that owes no more keeps the budget. -/
theorem Fits.rewrite {b : Attempt} (h : Fits s x n budget month) (ha : s.attempts[id]? = some a)
    (hw : Wrote s s' id b) (hle : ∀ p, b.owes budget month = some p →
      ∃ q, a.owes budget month = some q ∧ x.atMost p q = true) : Fits s' x n budget month := by
  have hone : owed x (b.owes budget month) ≤ owed x (a.owes budget month) ∧
      ∀ c, x = .micros c → ∀ p, b.owes budget month = some p → (single p).Priced c := by
    cases hb : b.owes budget month with
    | none => exact ⟨Nat.zero_le _, nofun⟩
    | some p =>
      obtain ⟨q, hq, hpq⟩ := hle p hb
      obtain ⟨hmeasure, hpriced⟩ := single_le hpq fun c hc => h.priced c hc id a ha q hq
      rw [hq]
      refine ⟨hmeasure, fun c hc p' hp' => ?_⟩
      cases hp'
      exact hpriced c hc
  constructor
  · have hsum := sumOf_insert_of_some (fun a => owed x (a.owes budget month)) s.attempts id
      a b ha
    have hused := h.used
    unfold State.used at hused ⊢
    rw [hw.attempts]
    have := hone.1
    omega
  · intro c hc
    unfold State.Priced
    rw [hw.attempts]
    exact TreeMap.Each.insert (h.priced c hc) id (hone.2 c hc)

/-- Reserving an attempt whose amount still fits keeps the budget. -/
theorem Fits.reserve (h : Fits s x n budget month) (hnone : s.attempts[id]? = none)
    (hw : Wrote s s' id a) (hfit : ∀ p, a.owes budget month = some p →
      s.used x budget month + (single p).measure x ≤ n ∧ ∀ c, x = .micros c → (single p).Priced c) :
    Fits s' x n budget month := by
  constructor
  · have hsum := sumOf_insert_of_none (fun a => owed x (a.owes budget month)) s.attempts id
      a hnone
    have hused := h.used
    unfold State.used at hused ⊢
    rw [hw.attempts, hsum]
    cases ha : a.owes budget month with
    | none => exact hused
    | some p => exact (hfit p ha).1
  · intro c hc
    unfold State.Priced
    rw [hw.attempts]
    exact TreeMap.Each.insert (h.priced c hc) id fun p hp => (hfit p hp).2 c hc

/-- The grant `g` of the segment's start is still there, with the same owner. -/
def Descends (gid : ModelGrantId) (g : Grant) (s : State) : Prop :=
  ∃ current, s.grants[gid]? = some current ∧ g.SameOwner current

section
variable (h : Fits s x n g.budget month) (hown : OwnBudgets s) (hg : Descends gid g s)
  (hn : g.definition.caps.limit x = some n)
include h hown hg hn

theorem fits_reserve (hheld : s.holds gid g = true)
    (hallowed : (SpendChange.reserved id a evidence).allowed x s g = true)
    (hd : SpendDecided s actor now op (some (.reserved id a evidence)))
    (hnew : s.attempts[id]? = none) (hphase : a.phase = .reserved) (hw : Wrote s s' id a) :
    Fits s' x n g.budget month := by
  obtain ⟨current, hcurrent, howner⟩ := hg
  simp only [State.holds, hcurrent, any_some, and_eq_true, beq_iff_eq] at hheld
  obtain ⟨hactive, hcaps⟩ := hheld
  refine h.reserve hnew hw ?_
  intro p hp
  obtain ⟨⟨hmonth, hcharge⟩, hcounted⟩ := Attempt.owes_eq_some.mp hp
  rw [counted_of_open (.inl hphase)] at hcounted
  cases hcounted
  have hconn : a.invocation.connection = g.definition.connection := by
    simpa [SpendChange.allowed, hcharge] using hallowed
  rw [← howner.budget] at hcharge
  obtain ⟨t, ht, hwithin⟩ := within_of_reserve hd hcurrent hactive (hown gid current hcurrent)
    hcharge (hconn.trans howner.connection.symm)
  rw [hcaps] at hwithin
  rw [hmonth, howner.budget] at ht
  obtain ⟨hroom, hpriced⟩ := within_limit hwithin hn
  rw [(totals_eq_ok ht).1] at hroom
  exact ⟨hroom, hpriced⟩

theorem fits_step (hseg : Segment x gid g s c) :
    Fits (modelConnection.step s c) x n g.budget month := by
  rcases modelConnection_admits.cases s c with ⟨he, -⟩ | hs
  · rw [he]
    exact h
  · obtain ⟨hheld, hall⟩ := hseg
    have hledger := hs.ledger
    generalize modelConnection.emitted s c = es at hledger hall
    cases hledger with
    | same es hsame => exact h.congr hsame
    | reserved op id a evidence hd hnew hfresh hw =>
      have hallowed := all_eq_true.mp hall _ (mem_singleton_self _)
      exact fits_reserve h hown hg hn hheld hallowed hd hnew hfresh.1 hw
    | changed op change a ha hd hid hr hw =>
      have hallowed := all_eq_true.mp hall _ (mem_singleton_self _)
      have hterms := sameTerms_apply hd
      have hcharge : (change.apply a).chargesTo g.budget = a.chargesTo g.budget := by
        unfold Attempt.chargesTo
        rw [hterms.grants, hterms.invocation]
      refine h.rewrite ha hw fun p hp => ?_
      rw [Attempt.owes_eq_some, hterms.month, hcharge] at hp
      obtain ⟨q, hq, hpq⟩ := counted_apply (hid ▸ ha) hd hallowed hp.2
      exact ⟨q, Attempt.owes_eq_some.mpr ⟨hp.1, hq⟩, hpq⟩

end

/-- At every point of the run `ds` from the state after `cs` the budget fits. -/
theorem fits_run {cs ds pre : List Command} {t₀ : Totals}
    (hg : (modelConnection.run cs).grants[gid]? = some g)
    (ht : totals (modelConnection.run cs) g.budget month = .ok t₀)
    (hn : g.definition.caps.limit x = some n) (h₀ : t₀.measure x ≤ n)
    (hp₀ : ∀ c, x = .micros c → t₀.Priced c)
    (hseg : modelConnection.StepsMeet (Segment x gid g) (modelConnection.run cs) ds)
    (hpre : pre <+: ds) : Fits (modelConnection.run (cs ++ pre)) x n g.budget month := by
  obtain ⟨rest, rfl⟩ := hpre
  rw [Reducer.StepsMeet.append] at hseg
  rw [Reducer.run_append]
  obtain ⟨hmeasure, hpriced⟩ := totals_eq_ok ht
  have hstart : Fits (modelConnection.run cs) x n g.budget month :=
    ⟨hmeasure x ▸ h₀, fun c hc => (hpriced c).mp (hp₀ c hc)⟩
  have hinv := Reducer.StepsMeet.inv modelConnection (Segment x gid g)
    (fun s => Fits s x n g.budget month ∧ GrantsAttributed s ∧ Descends gid g s) ?_ _
    ⟨hstart, grants_run cs, g, hg, .refl g⟩ pre hseg.1
  · exact hinv.1
  · rintro s c ⟨h, hattr, hg⟩ hseg
    refine ⟨fits_step h hattr.ownBudgets hg hn hseg, ?_, ?_⟩
    · exact modelConnection_admits.next GrantsAttributed grantsAttributed_step s c hattr
    · refine modelConnection_admits.next (Descends gid g) ?_ s c hg
      rintro s c es s' ⟨current, hcurrent, howner⟩ hs
      obtain ⟨next, hnext, howner'⟩ := (grantsKept_step hs).owner gid current hcurrent
      exact ⟨next, hnext, howner'.budget.trans howner.budget,
        howner'.connection.trans howner.connection, howner'.subject.trans howner.subject⟩

/-- **Budget cap safety**: along a segment that holds the grant `g`, a month's total of its budget
that is within the token cap (the money cap) at the start is within it at every point. -/
theorem budget_cap_kept (cs ds : List Command) (gid : ModelGrantId) (g : Grant) (month : Month)
    (t₀ : Totals) (hg : (modelConnection.run cs).grants[gid]? = some g)
    (ht : totals (modelConnection.run cs) g.budget month = .ok t₀) :
    (∀ cap, g.definition.caps.tokens = some cap →
      modelConnection.StepsMeet (Segment .tokens gid g) (modelConnection.run cs) ds →
      t₀.tokens ≤ cap →
      ∀ pre, pre <+: ds →
        (modelConnection.run (cs ++ pre)).used .tokens g.budget month ≤ cap ∧
        ∀ t, totals (modelConnection.run (cs ++ pre)) g.budget month = .ok t → t.tokens ≤ cap) ∧
    (∀ cap : Money, g.definition.caps.money = some cap →
      modelConnection.StepsMeet (Segment (.micros cap.currency) gid g) (modelConnection.run cs) ds →
      t₀.unknownMoney = false → (∀ c, c ∈ t₀.money → c = cap.currency) →
      t₀.money.getD cap.currency 0 ≤ cap.micros →
      ∀ pre, pre <+: ds →
        (modelConnection.run (cs ++ pre)).Priced cap.currency g.budget month ∧
        (modelConnection.run (cs ++ pre)).used (.micros cap.currency) g.budget month ≤ cap.micros ∧
        ∀ t, totals (modelConnection.run (cs ++ pre)) g.budget month = .ok t →
          t.unknownMoney = false ∧ (∀ c, c ∈ t.money → c = cap.currency) ∧
          t.money.getD cap.currency 0 ≤ cap.micros) := by
  constructor
  · intro cap hcap hseg h₀ pre hpre
    have hfits := fits_run hg ht (x := .tokens) hcap h₀ (nofun) hseg hpre
    refine ⟨hfits.used, fun t ht' => ?_⟩
    have hmeasure := (totals_eq_ok ht').1 .tokens
    have hused := hfits.used
    rw [← hmeasure] at hused
    exact hused
  · intro cap hcap hseg hunknown hkeys h₀ pre hpre
    have hlimit : g.definition.caps.limit (.micros cap.currency) = some cap.micros := by
      simp [Caps.limit, hcap]
    have hpriced₀ : ∀ c, Metric.micros cap.currency = .micros c → t₀.Priced c := by
      intro c hc
      cases hc
      exact ⟨hunknown, hkeys⟩
    have hfits := fits_run hg ht hlimit h₀ hpriced₀ hseg hpre
    have hpriced := hfits.priced cap.currency rfl
    refine ⟨hpriced, hfits.used, fun t ht' => ?_⟩
    obtain ⟨hmeasure, hpr⟩ := totals_eq_ok ht'
    have ⟨hu, hk⟩ := (hpr cap.currency).mpr hpriced
    have hused := hfits.used
    rw [← hmeasure] at hused
    exact ⟨hu, hk, hused⟩

def usd : Currency := ⟨"USD", by decide⟩

def cappedGrant : Grant :=
  ⟨memberGrant ⟨some 100, some ⟨usd, 1000⟩⟩, ⟨"connection", .member "ada"⟩, 1, .active⟩

def pricedBound : Bound := ⟨40, some ⟨usd, 400⟩, some "rates", "adapter"⟩

def pricedUsage (tokens micros : Nat) : Usage := ⟨tokens, some ⟨usd, micros⟩, some "rates", "runtime"⟩

/-- An attempt is reserved, dispatched, settled below its bound and corrected downwards. -/
def correctedRun : List Command :=
  [broker .invokeProvider (.metadata 5) 6 (.reserve "first" request admission pricedBound 50 90),
   broker .invokeProvider (.dispatch 5 "first" 1) 7 (.dispatch "first" admission pricedBound),
   broker .observeUsage (.attempt "first" 2) 8 (.settle "first" (pricedUsage 30 300) "usage"),
   broker .observeUsage (.attempt "first" 3) 9 (.correct "first" (pricedUsage 20 200) "invoice")]

theorem budget_cap_kept_correctedRun :
    (modelConnection.run (funded cappedGrant.definition.caps ++ correctedRun)).used .tokens
        cappedGrant.budget ⟨1970, 1⟩ = 20 ∧
      (modelConnection.run (funded cappedGrant.definition.caps ++ correctedRun)).used .tokens
        cappedGrant.budget ⟨1970, 1⟩ ≤ 100 ∧
      (modelConnection.run (funded cappedGrant.definition.caps ++ correctedRun)).used (.micros usd)
        cappedGrant.budget ⟨1970, 1⟩ ≤ 1000 := by
  have hkept := budget_cap_kept (funded cappedGrant.definition.caps) correctedRun "grant" cappedGrant
    ⟨1970, 1⟩ {} (by decide) rfl
  refine ⟨by decide, (hkept.1 100 rfl (by decide) (by decide) _ (prefix_refl _)).1, ?_⟩
  exact (hkept.2 ⟨usd, 1000⟩ rfl (by decide) rfl (fun c hc => absurd hc not_mem_emptyc)
    (by decide) _ (prefix_refl _)).2.1

end GaugeDesk.ModelConnection
