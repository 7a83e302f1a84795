import Mathlib.Algebra.Ring.Nat
import Mathlib.Data.List.Perm.Basic
import Mathlib.Algebra.BigOperators.Group.List.Basic
import Std.Data.TreeMap

/-!
# Lookups and sums over ordered maps

`sumOf f t` adds `f` over the values of an ordered map.  Overwriting a value
moves the sum by the difference of the two summands and a new key adds its own:

    t[k]? = some v → sumOf f (t.insert k w) + f v = sumOf f t + f w  (sumOf_insert_of_some)
    t[k]? = none  → sumOf f (t.insert k w) = sumOf f t + f w  (sumOf_insert_of_none)
-/

namespace Std.TreeMap

variable {α β : Type} {cmp : α → α → Ordering}
variable {t : TreeMap α β cmp} {k a : α} {v : β}

/-- The sum of `f` over the values of `t`. -/
def sumOf (f : β → Nat) (t : TreeMap α β cmp) : Nat := (t.toList.map fun p => f p.2).sum

variable (f : β → Nat)

theorem sumOf_perm (t : TreeMap α β cmp) (l : List (α × β)) (h : t.toList.Perm l) :
    t.sumOf f = (l.map fun p => f p.2).sum :=
  (h.map _).sum_eq

variable [TransCmp cmp] [LawfulEqCmp cmp]

theorem forall_mem_toList_iff (t : TreeMap α β cmp) (P : α → β → Prop) :
    (∀ p ∈ t.toList, P p.1 p.2) ↔ ∀ k v, t[k]? = some v → P k v := by
  constructor
  · intro h k v hk
    exact h (k, v) (mem_toList_iff_getElem?_eq_some.mpr hk)
  · rintro h ⟨k, v⟩ hk
    exact h k v (mem_toList_iff_getElem?_eq_some.mp hk)

omit [LawfulEqCmp cmp] in
theorem contains_eq_false_iff_none : t.contains k = false ↔ t[k]? = none := by
  rw [contains_eq_isSome_getElem?, Option.isSome_eq_false_iff, Option.isNone_iff_eq_none]

theorem nodup_toList (t : TreeMap α β cmp) : t.toList.Nodup := by
  refine (distinct_keys_toList (t := t)).imp ?_
  rintro a b hab rfl
  exact hab ReflCmp.compare_self

theorem mem_before_iff (t : TreeMap α β cmp) {before after : List (α × β)} {p : α × β}
    (h : t.toList = before ++ p :: after) (a : α) :
    a ∈ before.map Prod.fst ↔ cmp a p.1 = .lt ∧ a ∈ t := by
  have hordered := ordered_keys_toList (t := t)
  rw [h, List.pairwise_append, List.pairwise_cons] at hordered
  obtain ⟨-, ⟨hafter, -⟩, hcross⟩ := hordered
  have hkeys : a ∈ t ↔ a ∈ (before ++ p :: after).map Prod.fst := by
    rw [← h, map_fst_toList_eq_keys, mem_keys]
  rw [hkeys, List.map_append, List.map_cons, List.mem_append, List.mem_cons]
  constructor
  · intro hmem
    obtain ⟨q, hq, rfl⟩ := List.mem_map.mp hmem
    exact ⟨hcross q hq p List.mem_cons_self, .inl hmem⟩
  · rintro ⟨hlt, hmem | rfl | hmem⟩
    · exact hmem
    · have heq : cmp p.1 p.1 = .eq := ReflCmp.compare_self
      rw [heq] at hlt
      cases hlt
    · obtain ⟨q, hq, rfl⟩ := List.mem_map.mp hmem
      have hgt := OrientedCmp.gt_of_lt (hafter q hq)
      rw [hlt] at hgt
      cases hgt

theorem sumOf_congr (g : β → Nat) (t : TreeMap α β cmp)
    (h : ∀ (k : α) (v : β), t[k]? = some v → f v = g v) : t.sumOf f = t.sumOf g := by
  unfold sumOf
  congr 1
  refine List.map_congr_left ?_
  rintro ⟨k, v⟩ hm
  exact h k v (mem_toList_iff_getElem?_eq_some.mp hm)

theorem sumOf_eq_zero (t : TreeMap α β cmp)
    (h : ∀ (k : α) (v : β), t[k]? = some v → f v = 0) : t.sumOf f = 0 := by
  rw [sumOf_congr f (fun _ => 0) t h]
  unfold sumOf
  rw [List.map_const', List.sum_replicate, Nat.nsmul_eq_mul, Nat.mul_zero]

variable [DecidableEq α] {Q : β → Prop}

theorem getElem?_insert_eq (t : TreeMap α β cmp) (k a : α) (v : β) :
    (t.insert k v)[a]? = if k = a then some v else t[a]? := by
  rw [getElem?_insert]
  by_cases h : k = a
  · rw [if_pos h, if_pos (LawfulEqCmp.compare_eq_iff_eq.mpr h)]
  · rw [if_neg h, if_neg (fun hc => h (LawfulEqCmp.compare_eq_iff_eq.mp hc))]

/-- What is found after an insertion was inserted, or is another key's and was there. -/
theorem getElem?_insert_cases {w : β} (h : (t.insert k v)[a]? = some w) :
    (k = a ∧ v = w) ∨ (k ≠ a ∧ t[a]? = some w) := by
  rw [getElem?_insert_eq] at h
  by_cases hk : k = a
  · rw [if_pos hk, Option.some.injEq] at h
    exact .inl ⟨hk, h⟩
  · rw [if_neg hk] at h
    exact .inr ⟨hk, h⟩

theorem exists_getElem?_insert {R : β → β → Prop} (hrefl : ∀ v, R v v) {w : β}
    (h : t[a]? = some v) (hw : ∀ u, t[k]? = some u → R u w) :
    ∃ v', (t.insert k w)[a]? = some v' ∧ R v v' := by
  rw [getElem?_insert_eq]
  by_cases hk : k = a
  · subst hk
    exact ⟨w, if_pos rfl, hw v h⟩
  · exact ⟨v, (if_neg hk).trans h, hrefl v⟩

/-- Every value satisfies `Q`. -/
def Each (Q : β → Prop) (t : TreeMap α β cmp) : Prop := ∀ (k : α) (v : β), t[k]? = some v → Q v

omit [LawfulEqCmp cmp] [DecidableEq α] in
theorem each_empty : (∅ : TreeMap α β cmp).Each Q := by
  intro k v h
  rw [getElem?_emptyc] at h
  cases h

theorem Each.insert_of_others (h : ∀ (a : α) (w : β), k ≠ a → t[a]? = some w → Q w)
    (hv : Q v) : (t.insert k v).Each Q := by
  intro a w ha
  rcases getElem?_insert_cases ha with ⟨-, rfl⟩ | ⟨hk, ha⟩
  · exact hv
  · exact h a w hk ha

theorem Each.insert (h : t.Each Q) (k : α) (hv : Q v) : (t.insert k v).Each Q :=
  insert_of_others (fun a w _ ha => h a w ha) hv

theorem getElem?_insertMany_const (ks : List α) (v : β) (t : TreeMap α β cmp) (a : α) :
    (t.insertMany (ks.map fun k => (k, v)))[a]? = if a ∈ ks then some v else t[a]? := by
  induction ks generalizing t with
  | nil => simp
  | cons k ks ih =>
    rw [List.map_cons, insertMany_cons, ih, getElem?_insert_eq]
    by_cases hk : k = a
    · subst hk
      simp
    · have hmem : a ∈ k :: ks ↔ a ∈ ks := by
        rw [List.mem_cons]
        exact or_iff_right (Ne.symm hk)
      rw [if_neg hk]
      simp only [hmem]

theorem getElem?_ofList_const (ks : List α) (v : β) (a : α) :
    (ofList (ks.map fun k => (k, v)) cmp)[a]? = if a ∈ ks then some v else none := by
  rw [ofList_eq_insertMany_empty, getElem?_insertMany_const]
  simp

theorem mem_of_getElem?_insertMany {l : List (α × β)} (h : (t.insertMany l)[a]? = some v) :
    (a, v) ∈ l ∨ t[a]? = some v := by
  induction l generalizing t with
  | nil => exact .inr (by simpa using h)
  | cons p l ih =>
    obtain ⟨k, w⟩ := p
    rw [insertMany_cons] at h
    rcases ih h with hm | hl
    · exact .inl (List.mem_cons_of_mem _ hm)
    · rcases getElem?_insert_cases hl with ⟨rfl, rfl⟩ | ⟨-, hl⟩
      · exact .inl List.mem_cons_self
      · exact .inr hl

theorem mem_of_getElem?_ofList {l : List (α × β)} (h : (ofList l cmp)[a]? = some v) :
    (a, v) ∈ l := by
  rw [ofList_eq_insertMany_empty] at h
  rcases mem_of_getElem?_insertMany h with hm | he
  · exact hm
  · simp at he

/-- The bindings of the other keys. -/
def others (t : TreeMap α β cmp) (k : α) : List (α × β) := t.toList.filter fun p => k ≠ p.1

theorem mem_others (t : TreeMap α β cmp) (k a : α) (v : β) :
    (a, v) ∈ t.others k ↔ t[a]? = some v ∧ k ≠ a := by
  unfold others
  rw [List.mem_filter, mem_toList_iff_getElem?_eq_some, decide_eq_true_iff]

theorem toList_perm_of_some (t : TreeMap α β cmp) (k : α) (v : β) (h : t[k]? = some v) :
    t.toList.Perm ((k, v) :: t.others k) := by
  have hnot : (k, v) ∉ t.others k := fun hm => ((mem_others t k k v).mp hm).2 rfl
  refine (List.perm_ext_iff_of_nodup t.nodup_toList
    (List.nodup_cons.mpr ⟨hnot, t.nodup_toList.filter _⟩)).mpr ?_
  rintro ⟨a, w⟩
  rw [List.mem_cons, mem_others, mem_toList_iff_getElem?_eq_some]
  constructor
  · intro ha
    by_cases hk : k = a
    · subst hk
      left
      rw [h] at ha
      cases ha
      rfl
    · exact .inr ⟨ha, hk⟩
  · rintro (he | ⟨ha, -⟩)
    · cases he
      exact h
    · exact ha

theorem toList_eq_others (t : TreeMap α β cmp) (k : α) (h : t[k]? = none) :
    t.others k = t.toList := by
  refine List.filter_eq_self.mpr ?_
  rintro ⟨a, v⟩ hm
  rw [decide_eq_true_iff]
  rintro rfl
  rw [mem_toList_iff_getElem?_eq_some, h] at hm
  cases hm

theorem others_insert_perm (t : TreeMap α β cmp) (k : α) (v : β) :
    ((t.insert k v).others k).Perm (t.others k) := by
  refine (List.perm_ext_iff_of_nodup ((nodup_toList _).filter _) ((nodup_toList _).filter _)).mpr ?_
  rintro ⟨a, w⟩
  show (a, w) ∈ (t.insert k v).others k ↔ (a, w) ∈ t.others k
  rw [mem_others, mem_others, getElem?_insert_eq]
  constructor
  · rintro ⟨h, hk⟩
    rw [if_neg hk] at h
    exact ⟨h, hk⟩
  · rintro ⟨h, hk⟩
    exact ⟨by rw [if_neg hk]; exact h, hk⟩

theorem toList_insert_perm_others (t : TreeMap α β cmp) (k : α) (v : β) :
    (t.insert k v).toList.Perm ((k, v) :: t.others k) :=
  (toList_perm_of_some _ k v getElem?_insert_self).trans ((others_insert_perm t k v).cons _)

/-! ## Sums -/

theorem sumOf_insert_of_some (t : TreeMap α β cmp) (k : α) (v w : β)
    (h : t[k]? = some v) : (t.insert k w).sumOf f + f v = t.sumOf f + f w := by
  rw [sumOf_perm f _ _ (toList_insert_perm_others t k w), sumOf_perm f _ _ (toList_perm_of_some t k v h)]
  simp only [List.map_cons, List.sum_cons]
  omega

theorem sumOf_insert_of_none (t : TreeMap α β cmp) (k : α) (w : β)
    (h : t[k]? = none) : (t.insert k w).sumOf f = t.sumOf f + f w := by
  rw [sumOf_perm f _ _ (toList_insert_perm_others t k w), toList_eq_others t k h]
  simp only [List.map_cons, List.sum_cons, sumOf]
  omega

theorem le_sumOf (t : TreeMap α β cmp) (k : α) (v : β) (h : t[k]? = some v) :
    f v ≤ t.sumOf f := by
  rw [sumOf_perm f _ _ (toList_perm_of_some t k v h)]
  simp only [List.map_cons, List.sum_cons]
  omega

theorem sum_filter_toList (t : TreeMap α Nat cmp) (k : α) :
    ((t.toList.filter fun p => p.1 = k).map Prod.snd).sum = t.getD k 0 := by
  have hothers : (t.others k).filter (fun p => p.1 = k) = [] := by
    refine List.filter_eq_nil_iff.mpr ?_
    rintro ⟨a, v⟩ hm
    have hne := ((mem_others t k a v).mp hm).2
    simp only [decide_eq_true_eq]
    exact Ne.symm hne
  rw [getD_eq_getD_getElem?]
  cases h : t[k]? with
  | none =>
    rw [← toList_eq_others t k h, hothers]
    rfl
  | some v =>
    have hperm := ((toList_perm_of_some t k v h).filter fun p => p.1 = k).map Prod.snd
    rw [hperm.sum_eq, List.filter_cons_of_pos (by simp), hothers]
    simp

end Std.TreeMap
