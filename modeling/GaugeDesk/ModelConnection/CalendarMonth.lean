import GaugeDesk.ModelConnection.Spend

/-!
# Model connections: calendar months

`Month::at` takes the 400-year cycles from the days since 1970, then years, then
months.  `yearStart n` is the day on which the year 1970 + n begins:

    yearStart (n + 400) = yearStart n + 146097  (yearStart_cycle)
-/

namespace GaugeDesk.ModelConnection

open List

/-! ## The calendar -/

def yearLength (year : Nat) : Nat := if leap year then 366 else 365

def monthLengths (year : Nat) : List Nat :=
  [31, if leap year then 29 else 28, 31, 30, 31, 30, 31, 31, 30, 31, 30, 31]

/-- The days from 1 January 1970 to 1 January of the year 1970 + n. -/
def yearStart : (n : Nat) → Nat
  | 0 => 0
  | n + 1 => yearStart n + yearLength (1970 + n)

/-- The day, counted from 1 January 1970, is one of the month. -/
def Month.Covers (m : Month) (day : Nat) : Prop :=
  ∃ n k, m = ⟨1970 + n, k + 1⟩ ∧ k < 12 ∧
    yearStart n + ((monthLengths (1970 + n)).take k).sum ≤ day ∧
    day < yearStart n + ((monthLengths (1970 + n)).take (k + 1)).sum

theorem sum_monthLengths (year : Nat) : (monthLengths year).sum = yearLength year := by
  unfold monthLengths yearLength
  cases leap year <;> rfl

theorem yearStart_cycle (n : Nat) : yearStart (n + 400) = yearStart n + 146097 := by
  induction n with
  | zero => decide +kernel
  | succ n ih =>
    have hlength : yearLength (1970 + (n + 400)) = yearLength (1970 + n) := by
      unfold yearLength leap
      rw [← Nat.add_assoc, Nat.add_mod_right, show (1970 + n + 400) % 4 = (1970 + n) % 4 by omega,
        show (1970 + n + 400) % 100 = (1970 + n) % 100 by omega]
    calc yearStart (n + 400) + yearLength (1970 + (n + 400))
      _ = yearStart n + 146097 + yearLength (1970 + n) := by rw [ih, hlength]
      _ = yearStart n + yearLength (1970 + n) + 146097 := Nat.add_right_comm _ _ _

theorem yearStart_cycles (k : Nat) : yearStart (k * 400) = k * 146097 := by
  induction k with
  | zero => rfl
  | succ k ih => rw [Nat.succ_mul, yearStart_cycle, ih, Nat.succ_mul]

theorem sum_take_le (lengths : List Nat) {i j : Nat} (h : i ≤ j) :
    (lengths.take i).sum ≤ (lengths.take j).sum := by
  rw [← Nat.add_sub_cancel' h, take_add, sum_append]
  exact Nat.le_add_right _ _

/-- Days in order are in months in order. -/
theorem Month.Covers.le {m m' : Month} {d d' : Nat} (h : m.Covers d) (h' : m'.Covers d')
    (hd : d ≤ d') : m.year < m'.year ∨ m.year = m'.year ∧ m.month ≤ m'.month := by
  obtain ⟨n, k, rfl, -, hle, -⟩ := h
  obtain ⟨n', k', rfl, hk', -, hlt'⟩ := h'
  show 1970 + n < 1970 + n' ∨ 1970 + n = 1970 + n' ∧ k + 1 ≤ k' + 1
  by_contra hnot
  -- otherwise the month of `d'` ends where that of `d` starts, or before
  rcases Nat.lt_or_ge n' n with hn | hn
  · have hyears : yearStart (n' + 1) ≤ yearStart n :=
      monotone_nat_of_le_succ (fun _ => Nat.le_add_right _ _) hn
    have hmonths := sum_take_le (monthLengths (1970 + n')) (show k' + 1 ≤ 12 from hk')
    rw [show (monthLengths (1970 + n')).take 12 = monthLengths (1970 + n') from rfl,
      sum_monthLengths] at hmonths
    rw [yearStart] at hyears
    omega
  · obtain rfl : n = n' := by omega
    have hmonths := sum_take_le (monthLengths (1970 + n)) (show k' + 1 ≤ k by omega)
    omega

/-! ## The loops -/

theorem yearLoop_returns (k n r : Nat) (h : yearStart n + r < yearStart (n + k)) :
    ∃ n' < n + k, ∃ r', yearStart n' + r' = yearStart n + r ∧ r' < yearLength (1970 + n') ∧
      ∀ fuel, min k (r + 1) ≤ fuel → yearLoop fuel (1970 + n) r = some (1970 + n', r') := by
  induction k generalizing n r with
  | zero => exact absurd h (Nat.not_lt.mpr (Nat.le_add_right _ r))
  | succ k ih =>
    by_cases hr : r < yearLength (1970 + n)
    · refine ⟨n, by omega, r, rfl, hr, fun fuel hfuel => ?_⟩
      obtain ⟨fuel, rfl⟩ := Nat.exists_eq_add_one.mpr (show 0 < fuel by omega)
      exact if_pos hr
    · have hpos : 0 < yearLength (1970 + n) := by
        unfold yearLength
        split <;> decide
      have hstart : yearStart (n + 1) + (r - yearLength (1970 + n)) = yearStart n + r := by
        rw [yearStart]
        omega
      obtain ⟨n', hn', r', hsum, hlt, hloop⟩ := ih (n + 1) (r - yearLength (1970 + n))
        (by rw [hstart, Nat.add_right_comm]; exact h)
      refine ⟨n', by omega, r', hsum.trans hstart, hlt, fun fuel hfuel => ?_⟩
      obtain ⟨fuel, rfl⟩ := Nat.exists_eq_add_one.mpr (show 0 < fuel by omega)
      exact (if_neg hr).trans (hloop fuel (by omega))

theorem monthLoop_returns (lengths : List Nat) (index r : Nat) (h : r < lengths.sum) :
    ∃ k < lengths.length, monthLoop lengths index r = some (index + k + 1) ∧
      (lengths.take k).sum ≤ r ∧ r < (lengths.take (k + 1)).sum := by
  induction lengths generalizing index r with
  | nil => simp at h
  | cons length lengths ih =>
    rw [monthLoop]
    split
    · exact ⟨0, Nat.succ_pos _, rfl, Nat.zero_le _, by simpa using ‹_›⟩
    · rw [sum_cons] at h
      obtain ⟨k, hk, hloop, hle, hlt⟩ := ih (index + 1) (r - length) (by omega)
      refine ⟨k + 1, Nat.succ_lt_succ hk, ?_, ?_, ?_⟩
      · rw [hloop, Nat.add_right_comm index 1 k, Nat.add_assoc index k 1]
      · rw [take_succ_cons, sum_cons]
        omega
      · rw [take_succ_cons, sum_cons]
        omega

/-- The month of a time is that of its day, found within 400 rounds of the year loop. -/
theorem monthAt_covers (t : Nat) : ∃ m r, monthAt t = .ok m ∧ m.Covers (t / 86400) ∧
    m.year < 1970 + (t / 86400 / 146097 * 400 + 400) ∧
    yearLoop 400 (1970 + t / 86400 / 146097 * 400) (t / 86400 % 146097) = some (m.year, r) := by
  have hday := Nat.div_add_mod (t / 86400) 146097
  have hrest := Nat.mod_lt (t / 86400) (show 0 < 146097 by decide)
  obtain ⟨n, hn, r, hsum, hr, hyear⟩ := yearLoop_returns 400 (t / 86400 / 146097 * 400)
    (t / 86400 % 146097) (by rw [yearStart_cycle]; omega)
  rw [← sum_monthLengths] at hr
  obtain ⟨k, hk, hmonth, hle, hlt⟩ := monthLoop_returns _ 0 r hr
  rw [yearStart_cycles] at hsum
  refine ⟨⟨1970 + n, 0 + k + 1⟩, r, ?_, ⟨n, k, by rw [Nat.zero_add], hk, by omega, by omega⟩,
    Nat.add_lt_add_left hn 1970, hyear 400 (Nat.min_le_left _ _)⟩
  rw [monthAt, hyear _ (Nat.min_le_right _ _)]
  exact congrArg (expect _ · >>= fun month => pure (⟨1970 + n, month⟩ : Month)) hmonth

/-! ## Main result -/

/-- **Calendar months are exact**: every 64-bit time has a month, the only one of its day, found
within 400 rounds of the year loop and without overflow, and later times have no earlier one. -/
theorem month_at_exact (t : Nat) (ht : t < 2 ^ 64) :
    ∃ m r, monthAt t = .ok m ∧ m.Covers (t / 86400) ∧ (∀ m', m'.Covers (t / 86400) → m' = m) ∧
      yearLoop 400 (1970 + t / 86400 / 146097 * 400) (t / 86400 % 146097) = some (m.year, r) ∧
      m.year < 2 ^ 64 ∧ ∀ t' m', t ≤ t' → monthAt t' = .ok m' →
        m.year < m'.year ∨ m.year = m'.year ∧ m.month ≤ m'.month := by
  have hfit : 1970 + (t / 86400 / 146097 * 400 + 400) ≤ 2 ^ 64 := by omega
  obtain ⟨m, r, hm, hcovers, hbound, hyear⟩ := monthAt_covers t
  refine ⟨m, r, hm, hcovers, fun m' h' => ?_, hyear, hbound.trans_le hfit, fun t' m' hle hm' => ?_⟩
  · have hle := h'.le hcovers le_rfl
    have hge := hcovers.le h' le_rfl
    have hyear : m'.year = m.year := by omega
    have hmonth : m'.month = m.month := by omega
    exact congrArg₂ Month.mk hyear hmonth
  · obtain ⟨m'', -, hm'', h'', -⟩ := monthAt_covers t'
    cases hm'.symm.trans hm''
    exact hcovers.le h'' (Nat.div_le_div_right hle)

/-- The last second of a `u64`. -/
theorem month_at_exact_last : (⟨584554051223, 11⟩ : Month).Covers ((2 ^ 64 - 1) / 86400) := by
  obtain ⟨m, _, hm, hcovers, -⟩ := month_at_exact (2 ^ 64 - 1) (by decide)
  have hat : monthAt (2 ^ 64 - 1) = .ok ⟨584554051223, 11⟩ := by decide +kernel
  cases hm.symm.trans hat
  exact hcovers

end GaugeDesk.ModelConnection
