import GaugeDesk.ModelConnection.Spend

/-!
# Model connections: the totals of a budget are sums over the ledger

`period_usage` folds the attempts of a month that charge a budget into three
buckets, and `total` adds the buckets with overflow checks.  When no check
fails the total is the sum of what the attempts count, and it is priced in one
currency exactly when every one of them is.

    totals s b m = ok t → t.measure x = s.used x b m ∧ (t.Priced c ↔ s.Priced c b m)  (totals_eq_ok)
-/

namespace GaugeDesk.ModelConnection

open Std List TreeMap

variable {u u' : PeriodUsage} {a : Attempt} {budget : BudgetKey} {month : Month}

/-! ## Measures -/

/-- The quantities a cap limits. -/
inductive Metric where
  | tokens
  | micros (currency : Currency)

def Totals.measure (t : Totals) : Metric → Nat
  | .tokens => t.tokens
  | .micros currency => t.money.getD currency 0

/-- No unknown amount, and no currency but `c`. -/
def Totals.Priced (c : Currency) (t : Totals) : Prop :=
  t.unknownMoney = false ∧ ∀ k, k ∈ t.money → k = c

/-- What one attempt adds. -/
def single (p : Nat × Option Money) : Totals := ⟨p.1, moneyAmounts p.2, p.2.isNone⟩

def PeriodUsage.measure (u : PeriodUsage) (x : Metric) : Nat :=
  u.measured.measure x + u.reserved.measure x + u.accountedAtBound.measure x

def PeriodUsage.Priced (c : Currency) (u : PeriodUsage) : Prop :=
  u.measured.Priced c ∧ u.reserved.Priced c ∧ u.accountedAtBound.Priced c

/-- `charges`, for an attempt with a first grant. -/
def Attempt.chargesTo (a : Attempt) (budget : BudgetKey) : Bool :=
  (a.grants.head?.any fun first => first.budget.connectionFamily == budget.connectionFamily) &&
    budget.subject.matches a.invocation

/-- What the attempt counts against the budget in the month. -/
def Attempt.owes (budget : BudgetKey) (month : Month) (a : Attempt) : Option (Nat × Option Money) :=
  if a.month = month ∧ a.chargesTo budget = true then a.counted else none

def owed (x : Metric) : Option (Nat × Option Money) → Nat
  | some p => (single p).measure x
  | none => 0

/-- The sum of what the ledger counts against the budget in the month. -/
def State.used (s : State) (x : Metric) (budget : BudgetKey) (month : Month) : Nat :=
  s.attempts.sumOf fun a => owed x (a.owes budget month)

/-- Every attempt that counts against the budget in the month is priced in `c`. -/
def State.Priced (s : State) (c : Currency) (budget : BudgetKey) (month : Month) : Prop :=
  s.attempts.Each fun a => ∀ p, a.owes budget month = some p → (single p).Priced c

theorem Attempt.owes_eq_some {p : Nat × Option Money} : a.owes budget month = some p ↔
    (a.month = month ∧ a.chargesTo budget = true) ∧ a.counted = some p :=
  Option.ite_none_right_eq_some

/-! ## One addition -/

theorem checkedAdd128_eq_some {m n k : Nat} (h : checkedAdd128 m n = some k) : k = m + n := by
  unfold checkedAdd128 at h
  split at h
  · exact (Option.some.inj h).symm
  · cases h

theorem getD_foldlM_addMoney (l : List (Currency × Nat)) (c : Currency) (m m' : TreeMap Currency Nat)
    (h : l.foldlM addMoney m = .ok m') :
    m'.getD c 0 = m.getD c 0 + ((l.filter fun p => p.1 = c).map Prod.snd).sum ∧
      (c ∈ m' ↔ c ∈ m ∨ ∃ p ∈ l, p.1 = c) := by
  induction l generalizing m with
  | nil =>
    cases h
    simp
  | cons p l ih =>
    rw [foldlM_cons, bind_eq_ok] at h
    obtain ⟨m₁, h₁, h⟩ := h
    simp only [addMoney, bind_eq_ok, okOr_eq_ok, pure_eq_ok] at h₁
    obtain ⟨amount, hamount, rfl⟩ := h₁
    obtain ⟨hsum, hmem⟩ := ih _ h
    have hadd := checkedAdd128_eq_some hamount
    have hkeys : c ∈ m.insert p.1 amount ↔ p.1 = c ∨ c ∈ m := by
      rw [mem_insert, LawfulEqCmp.compare_eq_iff_eq]
    constructor
    · rw [hsum, getD_insert]
      by_cases hc : p.1 = c
      · subst hc
        rw [if_pos ReflCmp.compare_self, filter_cons_of_pos (by simp)]
        simp only [map_cons, sum_cons]
        omega
      · rw [if_neg (fun hcmp => hc (LawfulEqCmp.compare_eq_iff_eq.mp hcmp)),
          filter_cons_of_neg (by simpa using hc)]
    · rw [hmem, hkeys]
      simp only [mem_cons, exists_eq_or_imp]
      tauto

section
variable (t t' part : Totals) (h : t.add part.tokens part.money part.unknownMoney = .ok t')
include t t' part h

theorem measure_add (x : Metric) : t'.measure x = t.measure x + part.measure x := by
  simp only [Totals.add, bind_eq_ok, okOr_eq_ok, pure_eq_ok] at h
  obtain ⟨tokens, htokens, money, hmoney, rfl⟩ := h
  cases x with
  | tokens => exact checkedAdd128_eq_some htokens
  | micros c =>
    have hsum := (getD_foldlM_addMoney _ c _ _ hmoney).1
    rw [sum_filter_toList] at hsum
    exact hsum

theorem priced_add (c : Currency) : t'.Priced c ↔ t.Priced c ∧ part.Priced c := by
  simp only [Totals.add, bind_eq_ok, okOr_eq_ok, pure_eq_ok] at h
  obtain ⟨tokens, -, money, hmoney, rfl⟩ := h
  have hmem : ∀ k, k ∈ money ↔ k ∈ t.money ∨ k ∈ part.money := by
    intro k
    rw [(getD_foldlM_addMoney _ k _ _ hmoney).2]
    refine or_congr_right ?_
    rw [← TreeMap.mem_keys, ← map_fst_toList_eq_keys, mem_map]
  simp only [Totals.Priced, hmem, Bool.or_eq_false_iff]
  constructor
  · rintro ⟨⟨ht, hp⟩, hk⟩
    exact ⟨⟨ht, fun k hm => hk k (.inl hm)⟩, hp, fun k hm => hk k (.inr hm)⟩
  · rintro ⟨⟨ht, hk⟩, hp, hk'⟩
    exact ⟨⟨ht, hp⟩, fun k hm => hm.elim (hk k) (hk' k)⟩

end

/-! ## The fold -/

/-- `u` grew by the totals `part`. -/
structure PeriodUsage.Grew (u u' : PeriodUsage) (part : Totals) : Prop where
  measure : ∀ x, u'.measure x = u.measure x + part.measure x
  priced : ∀ c, u'.Priced c ↔ u.Priced c ∧ part.Priced c

theorem addCounted_eq_ok {phase : Phase} {p : Nat × Option Money}
    (h : u.addCounted phase p.1 p.2 = .ok u') : u.Grew u' (single p) := by
  unfold PeriodUsage.addCounted at h
  split at h
  all_goals
    simp only [bind_eq_ok, pure_eq_ok] at h
    obtain ⟨part, hpart, rfl⟩ := h
    have hmeasure := measure_add _ _ (single p) hpart
    have hpriced := priced_add _ _ (single p) hpart
    constructor
    · intro x
      simp only [PeriodUsage.measure, hmeasure]
      omega
    · intro c
      simp only [PeriodUsage.Priced, hpriced]
      tauto

theorem countOutcome_eq_ok {phase : Phase} (h : u.countOutcome phase = .ok u') :
    (∀ x, u'.measure x = u.measure x) ∧ ∀ c, u'.Priced c ↔ u.Priced c := by
  unfold PeriodUsage.countOutcome at h
  split at h
  · simp only [bind_eq_ok, pure_eq_ok] at h
    obtain ⟨count, -, rfl⟩ := h
    exact ⟨fun x => rfl, fun c => Iff.rfl⟩
  · cases h
    exact ⟨fun x => rfl, fun c => Iff.rfl⟩

/-- `u` grew by what is owed, if anything. -/
structure PeriodUsage.Billed (u u' : PeriodUsage) (due : Option (Nat × Option Money)) : Prop where
  measure : ∀ x, u'.measure x = u.measure x + owed x due
  priced : ∀ c, u'.Priced c ↔ u.Priced c ∧ ∀ p, due = some p → (single p).Priced c

theorem PeriodUsage.Billed.nothing (u : PeriodUsage) : u.Billed u none :=
  ⟨fun _ => rfl, by simp⟩

theorem addAttempt_eq_ok (h : u.addAttempt a = .ok u') : u.Billed u' a.counted := by
  unfold PeriodUsage.addAttempt at h
  cases hc : a.counted with
  | none =>
    rw [hc] at h
    cases h
    exact .nothing u
  | some p =>
    simp only [hc, bind_eq_ok] at h
    obtain ⟨added, hadd, hcount⟩ := h
    have hgrew := addCounted_eq_ok hadd
    obtain ⟨hmeasure, hpriced⟩ := countOutcome_eq_ok hcount
    refine ⟨fun x => by rw [hmeasure, hgrew.measure]; rfl, fun c => ?_⟩
    rw [hpriced, hgrew.priced]
    simp

theorem charges_eq_ok {charged : Bool} (h : a.charges budget = .ok charged) :
    charged = a.chargesTo budget := by
  simp only [Attempt.charges, Attempt.family, firstGrant, bind_eq_ok, expect_eq_ok, pure_eq_ok] at h
  obtain ⟨family, ⟨first, hfirst, rfl⟩, rfl⟩ := h
  unfold Attempt.chargesTo
  rw [hfirst]
  rfl

theorem visit_eq_ok (h : u.visit budget month a = .ok u') : u.Billed u' (a.owes budget month) := by
  unfold PeriodUsage.visit at h
  by_cases hm : a.month = month
  · simp only [hm, if_true, bind_eq_ok] at h
    obtain ⟨charged, hcharged, h⟩ := h
    have hch := charges_eq_ok hcharged
    cases charged with
    | true =>
      have howes : a.owes budget month = a.counted := if_pos ⟨hm, hch.symm⟩
      rw [howes]
      exact addAttempt_eq_ok h
    | false =>
      cases h
      have howes : a.owes budget month = none := if_neg (by simp [← hch])
      rw [howes]
      exact .nothing u
  · rw [if_neg hm] at h
    cases h
    have howes : a.owes budget month = none := if_neg fun hand => hm hand.1
    rw [howes]
    exact .nothing u

theorem foldlM_visit (l : List (ModelAttemptId × Attempt))
    (h : l.foldlM (fun usage p => usage.visit budget month p.2) u = .ok u') :
    (∀ x, u'.measure x = u.measure x + (l.map fun p => owed x (p.2.owes budget month)).sum) ∧
      ∀ c, u'.Priced c ↔ u.Priced c ∧
        ∀ p ∈ l, ∀ q, p.2.owes budget month = some q → (single q).Priced c := by
  induction l generalizing u with
  | nil =>
    cases h
    simp
  | cons p l ih =>
    rw [foldlM_cons, bind_eq_ok] at h
    obtain ⟨v, hv, h⟩ := h
    obtain ⟨hmeasure, hpriced⟩ := visit_eq_ok hv
    obtain ⟨hmeasure', hpriced'⟩ := ih h
    constructor
    · intro x
      rw [hmeasure', hmeasure, map_cons, sum_cons]
      omega
    · intro c
      rw [hpriced', hpriced, forall_mem_cons, and_assoc]

theorem total_eq_ok {t : Totals} (h : u.total = .ok t) :
    (∀ x, t.measure x = u.measure x) ∧ ∀ c, t.Priced c ↔ u.Priced c := by
  simp only [PeriodUsage.total, foldlM_cons, foldlM_nil, bind_eq_ok, pure_eq_ok] at h
  obtain ⟨t₁, h₁, t₂, h₂, t₃, h₃, rfl⟩ := h
  have hzero : ∀ x, ({} : Totals).measure x = 0 := by
    intro x
    cases x <;> rfl
  have hfree : ∀ c, ({} : Totals).Priced c := by
    intro c
    exact ⟨rfl, fun k hk => absurd hk not_mem_emptyc⟩
  constructor
  · intro x
    rw [measure_add _ _ _ h₃, measure_add _ _ _ h₂, measure_add _ _ _ h₁, hzero, PeriodUsage.measure]
    omega
  · intro c
    rw [priced_add _ _ _ h₃, priced_add _ _ _ h₂, priced_add _ _ _ h₁, PeriodUsage.Priced]
    simp only [hfree, true_and, and_assoc]

/-- **The total of a budget is the sum of what the ledger counts against it.** -/
theorem totals_eq_ok {s : State} {t : Totals} (h : totals s budget month = .ok t) :
    (∀ x, t.measure x = s.used x budget month) ∧
      ∀ c, t.Priced c ↔ s.Priced c budget month := by
  simp only [totals, periodUsage, bind_eq_ok] at h
  obtain ⟨u, hu, ht⟩ := h
  obtain ⟨hmeasure, hpriced⟩ := foldlM_visit _ hu
  obtain ⟨hmeasure', hpriced'⟩ := total_eq_ok ht
  constructor
  · intro x
    rw [hmeasure', hmeasure]
    have hzero : ({} : PeriodUsage).measure x = 0 := by
      cases x <;> rfl
    rw [hzero, Nat.zero_add]
    rfl
  · intro c
    rw [hpriced', hpriced]
    have hfree : ({} : PeriodUsage).Priced c := by
      refine ⟨⟨rfl, ?_⟩, ⟨rfl, ?_⟩, rfl, ?_⟩
      all_goals exact fun k hk => absurd hk not_mem_emptyc
    rw [and_iff_right hfree]
    exact forall_mem_toList_iff s.attempts
      fun _ a => ∀ q, a.owes budget month = some q → (single q).Priced c

end GaugeDesk.ModelConnection
