import Mathlib.Data.List.Sort

/-!
# Ordered selections from a table

`selectBy p key t` are the rows of `t` with `p`, in the order of `key`.  Appended
rows are selected in their own order when there were none before and their keys
ascend:

    no row of t with p, rows ascend → selectBy p key (t ++ rows) = rows  (selectBy_append_self)

A row is found by its key in the table as in the selection (`find?_selectBy`).
-/

variable {α β : Type} [LinearOrder β]

/-- The rows with `p`, ordered by `key`. -/
def selectBy (p : α → Bool) (key : α → β) (t : List α) : List α :=
  (t.filter p).insertionSort fun a b => key a ≤ key b

/-- Each entry is less than the next. -/
def ascending : List β → Bool
  | a :: b :: l => decide (a < b) && ascending (b :: l)
  | _ => true

theorem ascending_iff {l : List β} : ascending l = true ↔ l.Pairwise (· < ·) := by
  rw [← List.isChain_iff_pairwise]
  induction l with
  | nil => simp [ascending]
  | cons a l ih =>
    cases l with
    | nil => simp [ascending]
    | cons b l => rw [ascending, Bool.and_eq_true, decide_eq_true_eq, ih, List.isChain_cons_cons]

theorem nodup_of_ascending {l : List β} (h : l.Pairwise (· < ·)) : l.Nodup :=
  h.imp fun hlt => ne_of_lt hlt

theorem eq_of_ascending {l m : List β} (hl : l.Pairwise (· < ·)) (hm : m.Pairwise (· < ·))
    (h : ∀ b, b ∈ l ↔ b ∈ m) : l = m := by
  have hperm : l.Perm m :=
    (List.perm_ext_iff_of_nodup (nodup_of_ascending hl) (nodup_of_ascending hm)).mpr h
  refine hperm.eq_of_pairwise (fun a b _ _ hab hba => ?_) hl hm
  exact absurd hba (lt_asymm hab)

variable {p : α → Bool} {key : α → β} {t rows : List α}

theorem selectBy_perm : (selectBy p key t).Perm (t.filter p) := List.perm_insertionSort _ _

theorem mem_selectBy {a : α} : a ∈ selectBy p key t ↔ a ∈ t ∧ p a = true := by
  rw [selectBy_perm.mem_iff, List.mem_filter]

theorem selectBy_congr {t' : List α} (h : t'.filter p = t.filter p) : selectBy p key t' = selectBy p key t := by
  unfold selectBy
  rw [h]

theorem selectBy_eq_nil : selectBy p key t = [] ↔ ∀ a ∈ t, p a = false := by
  rw [List.eq_nil_iff_forall_not_mem]
  simp only [mem_selectBy, not_and, Bool.not_eq_true]

theorem selectBy_self (hp : ∀ a ∈ rows, p a = true) (hk : (rows.map key).Pairwise (· < ·)) :
    selectBy p key rows = rows := by
  unfold selectBy
  rw [List.filter_eq_self.mpr hp]
  exact ((List.pairwise_map.mp hk).imp fun h => le_of_lt h).insertionSort_eq

theorem selectBy_append_self (ht : ∀ a ∈ t, p a = false) (hp : ∀ a ∈ rows, p a = true)
    (hk : (rows.map key).Pairwise (· < ·)) : selectBy p key (t ++ rows) = rows := by
  have hnone : t.filter p = [] :=
    List.filter_eq_nil_iff.mpr fun a ha => by simp [ht a ha]
  refine Eq.trans ?_ (selectBy_self hp hk)
  unfold selectBy
  rw [List.filter_append, hnone, List.nil_append]

theorem ascending_selectBy (hk : ((t.filter p).map key).Nodup) :
    ((selectBy p key t).map key).Pairwise (· < ·) := by
  have hperm : (selectBy p key t).Perm (t.filter p) := selectBy_perm
  have hnodup : ((selectBy p key t).map key).Nodup := ((hperm.map key).nodup_iff).mpr hk
  have hsorted : ((selectBy p key t).map key).Pairwise (· ≤ ·) :=
    List.pairwise_map.mpr (List.pairwise_insertionSort (fun a b => key a ≤ key b) (t.filter p))
  exact (hsorted.and hnodup).imp fun h => lt_of_le_of_ne h.1 h.2

/-- A lookup that names one key finds the same row in the table and in a selection. -/
theorem find?_selectBy {q : α → Bool} {k : β} (hk : ((selectBy p key t).map key).Pairwise (· < ·))
    (hq : ∀ a, q a = true → key a = k) :
    (selectBy p key t).find? q = t.find? fun a => p a && q a := by
  have hfilter : (t.find? fun a => p a && q a) = (t.filter p).find? q := by
    rw [List.find?_filter]
    simp only [Bool.decide_and, Bool.decide_eq_true]
  rw [hfilter]
  cases hfind : (t.filter p).find? q with
  | none =>
    rw [List.find?_eq_none] at hfind ⊢
    exact fun a ha => hfind a (selectBy_perm.mem_iff.mp ha)
  | some a =>
    have ha : a ∈ selectBy p key t := selectBy_perm.mem_iff.mpr (List.mem_of_find?_eq_some hfind)
    have hqa : q a = true := List.find?_some hfind
    obtain ⟨b, hb⟩ : ∃ b, (selectBy p key t).find? q = some b :=
      Option.isSome_iff_exists.mp (List.find?_isSome.mpr ⟨a, ha, hqa⟩)
    have hkey : key b = key a := (hq b (List.find?_some hb)).trans (hq a hqa).symm
    obtain rfl : b = a :=
      List.inj_on_of_nodup_map (nodup_of_ascending hk) (List.mem_of_find?_eq_some hb) ha hkey
    exact hb
