import GaugeDesk.Lib.Program
import GaugeDesk.Lib.History

/-!
# Lib: calls that have written nothing when they answer

`x.Never N`: whatever `x` reads, it does not return a result in `N`.
`x.Silent I N`: a step of `x` in a state with `I` leaves the state as it is, or
no result in `N` can follow.

    Silent.read_bind, Silent.check_bind, Silent.transact, Silent.returning  the rules
    every program is Silent → no step of a call that is answered with a
      result in N changes the state  (Pool.silent_run)
-/

namespace GaugeDesk

open List

variable {γ σ ε ρ α β : Type}

/-- The program does not return a result in `N`. -/
def Program.Never (N : Except ε α → Prop) : Program σ ε α → Prop
  | .ret result => ¬ N result
  | .atomic _ next => ∀ s, (next s).Never N

/-- A step that writes excludes the results in `N`. -/
def Program.Silent (I : σ → Prop) (N : Except ε α → Prop) : Program σ ε α → Prop
  | .ret _ => True
  | .atomic update next => ∀ s, I s → (update s = s ∨ (next s).Never N) ∧ (next s).Silent I N

section
variable {I : σ → Prop} {N : Except ε α → Prop} {M : Except ε β → Prop} {x : Program σ ε α}
  {f : α → Program σ ε β} {g : α → β}

/-! ## Rules -/

theorem Program.Never.of_forall (h : ∀ r, ¬ N r) (x : Program σ ε α) : x.Never N := by
  induction x with
  | ret result => exact h result
  | atomic update next ih => exact fun s => ih s

theorem Program.Never.silent (h : x.Never N) : x.Silent I N := by
  induction x with
  | ret result => exact True.intro
  | atomic update next ih => exact fun s _ => ⟨.inr (h s), ih s (h s)⟩

theorem Program.Never.returning (h : x.Never fun r => M (r.map g)) :
    (x >>= fun a => pure (g a)).Never M := by
  induction x with
  | ret result => cases result <;> exact h
  | atomic update next ih => exact fun s => ih s (h s)

theorem Program.Silent.returning (h : x.Silent I fun r => M (r.map g)) :
    (x >>= fun a => pure (g a)).Silent I M := by
  induction x with
  | ret result => cases result <;> exact True.intro
  | atomic update next ih =>
    intro s hs
    obtain ⟨hstep, hnext⟩ := h s hs
    exact ⟨hstep.imp_right fun hn => hn.returning, ih s hnext⟩

theorem Program.Silent.check_bind {result : Except ε α} (h : ∀ a, (f a).Silent I M) :
    (Program.check result >>= f).Silent I M := by
  cases result with
  | ok a => exact h a
  | error e => exact True.intro

theorem Program.Silent.read_bind {query : σ → Except ε α} (h : ∀ a, (f a).Silent I M) :
    (Program.read query >>= f).Silent I M :=
  fun _ _ => ⟨.inl rfl, Silent.check_bind h⟩

theorem Program.Silent.transact {t : σ → Except ε (σ × α)}
    (h : ∀ s s' a, I s → t s = .ok (s', a) → N (.ok a) → s' = s) :
    (Program.transact t).Silent I N := by
  intro s hs
  refine ⟨?_, True.intro⟩
  cases ht : t s with
  | error e => exact .inl (by simp only [Program.commit, ht])
  | ok p =>
    by_cases hn : N (.ok p.2)
    · refine .inl ?_
      simp only [Program.commit, ht]
      exact h s p.1 p.2 hs ht hn
    · refine .inr ?_
      show ¬ N ((t s).map Prod.snd)
      rw [ht]
      exact hn

end

/-! ## Pools -/

section
variable {I : σ → Prop} {N : Except ε ρ → Prop} {program : γ → Program σ ε ρ} {w : Pool γ σ ε ρ}
  {q : Running γ σ ε ρ}

/-- The calls have the numbers they were started with, and an answered call does not run. -/
structure Pool.Apart (w : Pool γ σ ε ρ) : Prop where
  running : ∀ q ∈ w.running, q.id < w.started
  answered : ∀ a ∈ w.answered, a.id < w.started
  apart : ∀ a ∈ w.answered, ∀ q ∈ w.running, a.id ≠ q.id

/-- No answer of call `n` is, or will be, in `N`. -/
structure Pool.Barred (N : Except ε ρ → Prop) (n : Nat) (w : Pool γ σ ε ρ) : Prop where
  started : n < w.started
  running : ∀ q ∈ w.running, q.id = n → q.program.Never N
  answered : ∀ a ∈ w.answered, a.id = n → ¬ N a.result

theorem Pool.advance_cases (w : Pool γ σ ε ρ) (n : Nat) :
    w.advance n = w ∨ ∃ q ∈ w.running, q.id = n ∧ w.advance n = w.continue q := by
  unfold Pool.advance
  split
  · next q hq =>
    have hid := find?_some hq
    exact .inr ⟨q, mem_of_find?_eq_some hq, beq_iff_eq.mp hid, rfl⟩
  · exact .inl rfl

theorem Pool.Apart.continue (h : w.Apart) (hq : q ∈ w.running) :
    (w.continue q).Apart := by
  unfold Pool.continue
  cases q.program with
  | ret result =>
    refine ⟨fun p hp => h.running p (mem_filter.mp hp).1,
      forall_mem_concat.mpr ⟨h.answered, h.running q hq⟩,
      forall_mem_concat.mpr ⟨fun a ha p hp => ?_, fun p hp => ?_⟩⟩
    · exact h.apart a ha p (mem_filter.mp hp).1
    · exact (bne_iff_ne.mp (mem_filter.mp hp).2).symm
  | atomic update next =>
    exact ⟨forall_mem_replace (h.running q hq) fun p hp _ => h.running p hp, h.answered,
      fun a ha => forall_mem_replace (h.apart a ha q hq) fun p hp _ => h.apart a ha p hp⟩

theorem Pool.Apart.step (h : w.Apart) (l : Schedule γ) : (w.step program l).Apart := by
  cases l with
  | start c =>
    refine ⟨forall_mem_concat.mpr ⟨fun q hq => ?_, Nat.lt_succ_self _⟩,
      fun a ha => Nat.lt_succ_of_lt (h.answered a ha), fun a ha => ?_⟩
    · exact Nat.lt_succ_of_lt (h.running q hq)
    · exact forall_mem_concat.mpr ⟨h.apart a ha, Nat.ne_of_lt (h.answered a ha)⟩
  | advance n =>
    show (w.advance n).Apart
    rcases w.advance_cases n with he | ⟨q, hq, -, he⟩
    · rw [he]
      exact h
    · rw [he]
      exact h.continue hq
  | crash n =>
    have hsub : ∀ q ∈ w.running.filter (fun p => p.id != n), q ∈ w.running :=
      fun q hq => (mem_filter.mp hq).1
    exact ⟨fun q hq => h.running q (hsub q hq), h.answered,
      fun a ha q hq => h.apart a ha q (hsub q hq)⟩

theorem Pool.Apart.run (h : w.Apart) (ls : List (Schedule γ)) : (w.run program ls).Apart := by
  induction ls generalizing w with
  | nil => exact h
  | cons l ls ih => exact ih (h.step l)

theorem Pool.Barred.continue {n : Nat} (h : w.Barred N n)
    (hq : q ∈ w.running) : (w.continue q).Barred N n := by
  have hnever : q.id = n → q.program.Never N := h.running q hq
  unfold Pool.continue
  cases hprogram : q.program with
  | ret result =>
    rw [hprogram] at hnever
    exact ⟨h.started, fun p hp => h.running p (mem_filter.mp hp).1,
      forall_mem_concat.mpr ⟨h.answered, hnever⟩⟩
  | atomic update next =>
    rw [hprogram] at hnever
    exact ⟨h.started, forall_mem_replace (fun hn => hnever hn w.state)
      fun p hp _ => h.running p hp, h.answered⟩

theorem Pool.Barred.run {n : Nat} (h : w.Barred N n) (ls : List (Schedule γ)) :
    (w.run program ls).Barred N n := by
  induction ls generalizing w with
  | nil => exact h
  | cons l ls ih =>
    refine ih ?_
    cases l with
    | start c =>
      -- a new call has a later number
      have hlater : w.started = n → (program c).Never N := fun hn => absurd hn (Nat.ne_of_gt h.started)
      exact ⟨Nat.lt_succ_of_lt h.started, forall_mem_concat.mpr ⟨h.running, hlater⟩, h.answered⟩
    | advance m =>
      show (w.advance m).Barred N n
      rcases w.advance_cases m with he | ⟨q, hq, -, he⟩
      · rw [he]
        exact h
      · rw [he]
        exact h.continue hq
    | crash m => exact ⟨h.started, fun q hq => h.running q (mem_filter.mp hq).1, h.answered⟩

/-- The running programs are silent. -/
def Pool.Hushed (I : σ → Prop) (N : Except ε ρ → Prop) (w : Pool γ σ ε ρ) : Prop :=
  ∀ q ∈ w.running, q.program.Silent I N

theorem Pool.Hushed.step (h : w.Hushed I N) (hp : ∀ c, (program c).Silent I N) (hI : I w.state)
    (l : Schedule γ) : (w.step program l).Hushed I N := by
  cases l with
  | start c => exact forall_mem_concat.mpr ⟨h, hp c⟩
  | advance n =>
    show (w.advance n).Hushed I N
    rcases w.advance_cases n with he | ⟨q, hq, -, he⟩
    · rw [he]
      exact h
    · rw [he]
      have hsilent := h q hq
      unfold Pool.continue
      cases hprogram : q.program with
      | ret result => exact fun p hm => h p (mem_filter.mp hm).1
      | atomic update next =>
        rw [hprogram] at hsilent
        exact forall_mem_replace (hsilent w.state hI).2 fun p hp _ => h p hp
  | crash n => exact fun q hq => h q (mem_filter.mp hq).1

/-- A step that changes the state bars its call. -/
theorem Pool.Hushed.barred (h : w.Hushed I N) (ha : w.Apart) (hI : I w.state) {n : Nat}
    (hne : (w.advance n).state ≠ w.state) : (w.advance n).Barred N n := by
  rcases w.advance_cases n with he | ⟨q, hq, rfl, he⟩
  · rw [he] at hne
    exact absurd rfl hne
  · rw [he] at hne ⊢
    have hsilent := h q hq
    unfold Pool.continue at hne ⊢
    cases hprogram : q.program with
    | ret result =>
      rw [hprogram] at hne
      exact absurd rfl hne
    | atomic update next =>
      rw [hprogram] at hsilent hne
      have hnever : (next w.state).Never N := (hsilent w.state hI).1.resolve_left hne
      exact ⟨ha.running q hq, forall_mem_replace (fun _ => hnever) fun p _ hne hid => absurd hid hne,
        fun a hm hid => absurd hid (ha.apart a hm q hq)⟩

theorem Pool.silent_run (hp : ∀ c, (program c).Silent I N) (ha : w.Apart) (hh : w.Hushed I N)
    (hI : ∀ ls, I (w.run program ls).state) (ls ms : List (Schedule γ)) (n : Nat)
    (a : Answered γ ε ρ) (hm : a ∈ (w.run program (ls ++ .advance n :: ms)).answered)
    (hid : a.id = n) (hn : N a.result) :
    (w.run program (ls ++ [.advance n])).state = (w.run program ls).state := by
  have hush : (w.run program ls).Hushed I N := by
    induction ls generalizing w with
    | nil => exact hh
    | cons l ls ih => exact ih (ha.step l) (hh.step hp (hI []) l) (fun ls => hI (l :: ls)) hm
  have hsplit : w.run program (ls ++ .advance n :: ms) =
      Pool.run program ((w.run program ls).advance n) ms := by
    unfold Pool.run
    rw [foldl_append]
    rfl
  have hstep : w.run program (ls ++ [.advance n]) = (w.run program ls).advance n := by
    unfold Pool.run
    rw [foldl_append]
    rfl
  rw [hsplit] at hm
  rw [hstep]
  by_cases he : ((w.run program ls).advance n).state = (w.run program ls).state
  · exact he
  · have hbarred := hush.barred (ha.run ls) (hI ls) he
    exact absurd hn ((hbarred.run ms).answered a hm hid)

end

end GaugeDesk
