import Mathlib.Data.List.Sort

/-!
# Sequenced lists: every entry carries its own index

`Sequenced f l` says that the entries of `l` are numbered `0, 1, …` by `f`, as
the rows of an append-only log are.  Such a list is sorted, its next number is
its length, and a number splits it at that place:

    Sequenced f l → the greatest number plus one is l.length  (Sequenced.foldl_max)

A fold that resumes after a prefix agrees with the fold of the whole list when
the two agree on the prefix and, step by step, on the rest (`foldlM_resume`).
-/

/-- The entries of `l` are numbered from `0` in order. -/
def Sequenced {α : Type} (f : α → Nat) (l : List α) : Prop := l.map f = List.range l.length

namespace Sequenced

open List

variable {α : Type} {f : α → Nat} {l : List α} {a : α}

theorem nil : Sequenced f [] := rfl

section
variable (h : Sequenced f l)
include h

theorem snoc (ha : f a = l.length) : Sequenced f (l ++ [a]) := by
  show (l ++ [a]).map f = List.range (l ++ [a]).length
  rw [map_append, length_append, length_singleton, range_succ, ← ha]
  rw [show l.map f = List.range l.length from h, ← ha]
  rfl

theorem pairwise : l.Pairwise fun a b => f a ≤ f b := by
  have hp : (l.map f).Pairwise (· ≤ ·) := by
    rw [show l.map f = List.range l.length from h]
    exact pairwise_le_range
  exact pairwise_map.mp hp

theorem lt_of_mem_take {n : Nat} (ha : a ∈ l.take n) : f a < n := by
  have hm : f a ∈ (l.take n).map f := mem_map_of_mem ha
  rw [map_take, show l.map f = List.range l.length from h, take_range,
    mem_range] at hm
  omega

theorem le_of_mem_drop {n : Nat} (ha : a ∈ l.drop n) : n ≤ f a := by
  have hm : f a ∈ (l.drop n).map f := mem_map_of_mem ha
  rw [map_drop, show l.map f = List.range l.length from h, mem_drop_iff_getElem] at hm
  obtain ⟨i, hi, he⟩ := hm
  rw [getElem_range] at he
  omega

theorem lt_length (ha : a ∈ l) : f a < l.length := by
  apply h.lt_of_mem_take
  rw [take_length]
  exact ha

end

private theorem foldl_max_range (n : Nat) : ((List.range n).map (· + 1)).foldl max 0 = n := by
  induction n with
  | zero => rfl
  | succ n ih =>
    rw [range_succ, map_append, foldl_append, ih]
    show max n (n + 1) = n + 1
    omega

theorem foldl_max (h : Sequenced f l) : (l.map fun a => f a + 1).foldl max 0 = l.length := by
  have hm : (l.map fun a => f a + 1) = (l.map f).map (· + 1) := by
    rw [List.map_map]
    rfl
  rw [hm, show l.map f = List.range l.length from h, foldl_max_range]

end Sequenced

/-- The greatest number moves when entries with greater numbers are appended. -/
theorem eq_nil_of_max?_append {α : Type} {f : α → Nat} {l rows : List α}
    (hlt : ∀ r ∈ rows, ∀ a ∈ l, f a < f r)
    (h : ((l ++ rows).map f).max? = (l.map f).max?) : rows = [] := by
  rw [List.eq_nil_iff_forall_not_mem]
  intro r hr
  have hm : f r ∈ (l ++ rows).map f := List.mem_map_of_mem (List.mem_append_right l hr)
  obtain ⟨m, hmax⟩ : ∃ m, ((l ++ rows).map f).max? = some m :=
    Option.isSome_iff_exists.mp (List.isSome_max?_of_mem hm)
  have hle : f r ≤ m := (List.max?_eq_some_iff.mp hmax).2 (f r) hm
  rw [h] at hmax
  obtain ⟨a, ha, hfa⟩ := List.mem_map.mp (List.max?_eq_some_iff.mp hmax).1
  have hless := hlt r hr a ha
  omega

/-- A resumed fold: `f` from `b` and `g` from `c` agree on the prefix and then step by step. -/
theorem foldlM_resume {φ α β : Type} {f g : β → α → Except φ β} {l m : List α} {b c : β}
    (hl : l.foldlM f b = l.foldlM g c) (hm : ∀ a ∈ m, ∀ d, f d a = g d a) :
    (l ++ m).foldlM f b = (l ++ m).foldlM g c := by
  have hrest : ∀ d, m.foldlM f d = m.foldlM g d := by
    induction m with
    | nil => exact fun d => rfl
    | cons a m ih =>
      intro d
      rw [List.foldlM_cons, List.foldlM_cons, hm a List.mem_cons_self d]
      congr 1
      funext e
      exact ih (fun x hx => hm x (List.mem_cons_of_mem a hx)) e
  rw [List.foldlM_append, List.foldlM_append, hl]
  congr 1
  funext d
  exact hrest d
