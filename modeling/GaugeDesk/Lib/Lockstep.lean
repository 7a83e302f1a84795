import Mathlib.Data.List.Forall2
import GaugeDesk.Lib.Reducer

/-!
# Lists in lockstep

`List.Forall₂ rel l m` puts two lists in lockstep.  What holds of one side's
entries is carried to the other:

    (∀ a ∈ l, ∃ b, rel a b) → some m is in lockstep with l  (exists_lockstep)
    b ∈ m → ∃ a ∈ l, rel a b  (exists_of_lockstep)

A loop that computes one entry from each puts its two lists in lockstep
(`Except.mapM_eq_ok`).
-/

variable {α β φ : Type} {rel : α → β → Prop} {l : List α} {m : List β} {γ : Type}

theorem exists_lockstep (h : ∀ a ∈ l, ∃ b, rel a b) : ∃ m, List.Forall₂ rel l m := by
  induction l with
  | nil => exact ⟨[], .nil⟩
  | cons a l ih =>
    rw [List.forall_mem_cons] at h
    obtain ⟨b, hb⟩ := h.1
    obtain ⟨m, hm⟩ := ih h.2
    exact ⟨b :: m, .cons hb hm⟩

section
variable (h : List.Forall₂ rel l m)
include h

theorem exists_of_lockstep {b : β} (hb : b ∈ m) : ∃ a ∈ l, rel a b := by
  induction h with
  | nil => cases hb
  | @cons a b' l m hab _ ih =>
    rcases List.mem_cons.mp hb with rfl | hb
    · exact ⟨a, List.mem_cons_self, hab⟩
    · obtain ⟨a', ha', hr⟩ := ih hb
      exact ⟨a', List.mem_cons_of_mem a ha', hr⟩

/-- In lockstep lists, what tells the left entries apart tells the right ones apart. -/
theorem pairwise_of_lockstep {s : α → α → Prop} {t : β → β → Prop}
    (hl : l.Pairwise s) (ht : ∀ a b a' b', rel a b → rel a' b' → s a a' → t b b') :
    m.Pairwise t := by
  induction h with
  | nil => exact .nil
  | @cons a b l m hab hlm ih =>
    obtain ⟨ha, hl⟩ := List.pairwise_cons.mp hl
    refine List.pairwise_cons.mpr ⟨fun b' hb' => ?_, ih hl⟩
    obtain ⟨a', ha', hr⟩ := exists_of_lockstep hlm hb'
    exact ht a b a' b' hab hr (ha a' ha')

theorem map_of_lockstep {f : α → γ} {g : β → γ}
    (hrel : ∀ a b, rel a b → g b = f a) : m.map g = l.map f := by
  induction h with
  | nil => rfl
  | cons hab _ ih => rw [List.map_cons, List.map_cons, hrel _ _ hab, ih]

theorem lockstep_trans {rel' : β → γ → Prop} {rel'' : α → γ → Prop} {n : List γ} (h' : List.Forall₂ rel' m n)
    (hrel : ∀ a b c, rel a b → rel' b c → rel'' a c) : List.Forall₂ rel'' l n := by
  induction h generalizing n with
  | nil =>
    cases h'
    exact .nil
  | cons hab _ ih =>
    obtain ⟨c, n, hbc, hrest, rfl⟩ := List.forall₂_cons_left_iff.mp h'
    exact .cons (hrel _ _ _ hab hbc) (ih hrest)

end

theorem lockstep_eq_map {f : α → β} : List.Forall₂ (fun a b => b = f a) l m ↔ m = l.map f := by
  rw [eq_comm, ← List.forall₂_eq_eq_eq, List.forall₂_map_left_iff]
  simp only [eq_comm]

theorem Except.mapM_eq_ok {f : α → Except φ β} :
    l.mapM f = .ok m ↔ List.Forall₂ (fun a b => f a = .ok b) l m := by
  induction l generalizing m with
  | nil =>
    rw [List.mapM_nil, List.forall₂_nil_left_iff]
    constructor
    · rintro ⟨⟩
      rfl
    · rintro rfl
      rfl
  | cons a l ih =>
    rw [List.mapM_cons, bind_eq_ok, List.forall₂_cons_left_iff]
    simp only [bind_eq_ok, ih, pure_eq_ok]
    constructor
    · rintro ⟨b, hb, m', hm', rfl⟩
      exact ⟨b, m', hb, hm', rfl⟩
    · rintro ⟨b, m', hb, hm', rfl⟩
      exact ⟨b, hb, m', hm', rfl⟩
