import Mathlib.Data.List.Induction

/-!
# Chains of hashed entries

Every entry of a chain holds the hash of the entry before it, and the first one a
fixed start.  A chain as long as another and with its head is the other, when the
hash tells their entries apart:

    Linked l → Linked l' → l.length = l'.length → head l = head l' → l = l'  (Linked.eq_of_head)
-/

/-- What an entry holds of the one before it, its hash, and what the first one holds. -/
structure HashChain (α δ : Type) where
  prev : α → δ
  hash : α → δ
  genesis : δ

namespace HashChain

open List

variable {α δ : Type} {C : HashChain α δ} {l l' : List α} {a : α}

/-- The hash of the last entry. -/
def head (C : HashChain α δ) (l : List α) : δ := (l.getLast?.map C.hash).getD C.genesis

@[simp] theorem head_concat (l : List α) (a : α) : C.head (l ++ [a]) = C.hash a := by
  simp [head]

/-- Every entry holds the head of those before it. -/
def Linked (C : HashChain α δ) (l : List α) : Prop :=
  ∀ before a after, l = before ++ a :: after → C.prev a = C.head before

theorem linked_nil : C.Linked [] := by
  intro before a after h
  exact absurd h (by simp)

theorem linked_concat : C.Linked (l ++ [a]) ↔ C.Linked l ∧ C.prev a = C.head l := by
  constructor
  · intro h
    refine ⟨fun before b after heq => ?_, h l a [] rfl⟩
    exact h before b (after ++ [a]) (by rw [heq, append_assoc]; rfl)
  · rintro ⟨hl, ha⟩ before b after heq
    rcases eq_nil_or_concat after with rfl | ⟨init, last, rfl⟩
    · obtain ⟨rfl, hb⟩ := append_inj' heq rfl
      obtain rfl := (cons.inj hb).1
      exact ha
    · have hsplit : l ++ [a] = (before ++ b :: init) ++ [last] := by
        rw [heq, concat_eq_append]
        simp
      exact hl before b init (append_inj' hsplit rfl).1

theorem Linked.take (h : C.Linked l) (n : Nat) : C.Linked (l.take n) := by
  intro before a after heq
  apply h before a (after ++ l.drop n)
  calc l = l.take n ++ l.drop n := (take_append_drop n l).symm
    _ = before ++ a :: (after ++ l.drop n) := by rw [heq, append_assoc, cons_append]

/-- **Chains of one length and one head are equal.** -/
theorem Linked.eq_of_head (h : C.Linked l) (h' : C.Linked l')
    (hinj : ∀ a ∈ l, ∀ b ∈ l', C.hash a = C.hash b → a = b) (hlength : l.length = l'.length)
    (hhead : C.head l = C.head l') : l = l' := by
  -- from the last entry backwards: equal heads give equal last entries, which hold the heads before
  induction l using reverseRecOn generalizing l' with
  | nil =>
    rw [length_nil, eq_comm, length_eq_zero_iff] at hlength
    exact hlength.symm
  | append_singleton l a ih =>
    rcases eq_nil_or_concat l' with rfl | ⟨m, b, rfl⟩
    · simp at hlength
    · rw [concat_eq_append] at *
      rw [head_concat, head_concat] at hhead
      obtain rfl : a = b := hinj a (by simp) b (by simp) hhead
      obtain ⟨hl, ha⟩ := linked_concat.mp h
      obtain ⟨hm, hb⟩ := linked_concat.mp h'
      have hlm : l = m := by
        apply ih hl hm
        · intro c hc d hd
          exact hinj c (mem_append_left _ hc) d (mem_append_left _ hd)
        · simpa using hlength
        · rw [← ha, ← hb]
      rw [hlm]

end HashChain
