import Mathlib.Logic.Relation
import GaugeDesk.Lib.Program
import GaugeDesk.Lib.History

/-!
# Lib: rely and guarantee for pools of programs

`R` is what any step of any program may do to the state.  `x.Meets R P T`: from
a state with `P`, each step of `x` is in `R` and leaves a fact that steps in `R`
cannot break (`Stable R`), and what `x` returns satisfies `T` there.

    Meets.bind, Meets.read, Meets.transact, Meets.weaken, Meets.frame  the rules
    every program meets its specification → every run of the pool does  (Pool.Sound.run)
-/

namespace GaugeDesk

variable {γ σ ε ρ α β : Type} {f : α → Program σ ε β} {result : Except ε α}
  {t : σ → Except ε (σ × α)}

/-- Steps in `R` keep `P`. -/
def Stable (R : σ → σ → Prop) (P : σ → Prop) : Prop := ∀ s s', R s s' → P s → P s'

theorem Stable.and {R : σ → σ → Prop} {P Q : σ → Prop} (hp : Stable R P) (hq : Stable R Q) :
    Stable R fun s => P s ∧ Q s :=
  fun s s' h hs => ⟨hp s s' h hs.1, hq s s' h hs.2⟩

theorem Stable.run {R : σ → σ → Prop} {P : σ → Prop} (hp : Stable R P) {s s' : σ}
    (h : Relation.ReflTransGen R s s') (hs : P s) : P s' := by
  induction h with
  | refl => exact hs
  | tail _ hstep ih => exact hp _ _ hstep ih

/-- The program's steps are in `R` and its result satisfies `T`, when it starts with `P`. -/
def Program.Meets (R : σ → σ → Prop) (T : Except ε α → σ → Prop) :
    Program σ ε α → (σ → Prop) → Prop
  | .ret result, P => ∀ s, P s → T result s
  | .atomic update next, P =>
    ∀ s, P s → R s (update s) ∧ ∃ P', Stable R P' ∧ P' (update s) ∧ (next s).Meets R T P'

section
variable {R : σ → σ → Prop} {P P' F : σ → Prop} {x : Program σ ε α} {T U : Except ε α → σ → Prop}
  {V : Except ε β → σ → Prop}

/-! ## Rules -/

theorem Program.Meets.weaken (h : x.Meets R U P) (hp : ∀ s, P' s → P s)
    (ht : ∀ r s, U r s → T r s) : x.Meets R T P' := by
  induction x generalizing P P' with
  | ret result => exact fun s hs => ht result s (h s (hp s hs))
  | atomic update next ih =>
    intro s hs
    obtain ⟨hstep, Q, hstable, hq, hnext⟩ := h s (hp s hs)
    exact ⟨hstep, Q, hstable, hq, ih s hnext fun _ hs' => hs'⟩

theorem Program.Meets.frame (h : x.Meets R T P) (hf : Stable R F) :
    x.Meets R (fun r s => T r s ∧ F s) fun s => P s ∧ F s := by
  induction x generalizing P with
  | ret result => exact fun s hs => ⟨h s hs.1, hs.2⟩
  | atomic update next ih =>
    intro s hs
    obtain ⟨hstep, Q, hstable, hq, hnext⟩ := h s hs.1
    exact ⟨hstep, _, hstable.and hf, ⟨hq, hf _ _ hstep hs.2⟩, ih s hnext⟩

theorem Program.Meets.vacuous (h : ∀ s, ¬ P s) : x.Meets R T P := by
  cases x with
  | ret | atomic => exact fun s hs => absurd hs (h s)

theorem Program.Meets.bind
    (hx : x.Meets R U P) (hf : ∀ a, (f a).Meets R V (U (.ok a)))
    (he : ∀ e s, U (.error e) s → V (.error e) s) : (x >>= f).Meets R V P := by
  induction x generalizing P with
  | ret result =>
    cases result with
    | ok a => exact (hf a).weaken hx fun _ _ h => h
    | error e => exact fun s hs => he e s (hx s hs)
  | atomic update next ih =>
    intro s hs
    obtain ⟨hstep, Q, hstable, hq, hnext⟩ := hx s hs
    exact ⟨hstep, Q, hstable, hq, ih s hnext⟩

theorem Program.Meets.check (h : ∀ s, P s → T result s) :
    (Program.check result : Program σ ε α).Meets R T P := h

theorem Program.Meets.read {query : σ → Except ε α} (hr : ∀ s, R s s)
    (hs : ∀ r, Stable R (T r)) (h : ∀ s, P s → T (query s) s) :
    (Program.read query).Meets R T P :=
  fun s hp => ⟨hr s, T (query s), hs _, h s hp, fun _ ht => ht⟩

theorem Program.Meets.transact (hr : ∀ s, R s s)
    (hs : ∀ r, Stable R (T r))
    (hok : ∀ s s' a, P s → t s = .ok (s', a) → R s s' ∧ T (.ok a) s')
    (herr : ∀ s e, P s → t s = .error e → T (.error e) s) :
    (Program.transact t).Meets R T P := by
  intro s hp
  cases ht : t s with
  | ok p =>
    obtain ⟨hstep, hpost⟩ := hok s p.1 p.2 hp ht
    simp only [Program.commit, ht]
    exact ⟨hstep, T (.ok p.2), hs _, hpost, fun _ h => h⟩
  | error e =>
    simp only [Program.commit, ht]
    exact ⟨hr s, T (.error e), hs _, herr s e hp ht, fun _ h => h⟩

/-- A check looks at no state, so the rest may use its result. -/
theorem Program.Meets.check_bind
    (hok : ∀ a, result = .ok a → (f a).Meets R V P)
    (herr : ∀ e s, P s → V (.error e) s) : (Program.check result >>= f).Meets R V P := by
  cases result with
  | ok a => exact hok a rfl
  | error e => exact fun s hs => herr e s hs

theorem Program.Meets.runAlone (h : x.Meets R T P) {s : σ} (hs : P s) :
    ∃ s', T (x.runAlone s) s' := by
  induction x generalizing P s with
  | ret result => exact ⟨s, h s hs⟩
  | atomic update next ih =>
    obtain ⟨-, Q, -, hq, hnext⟩ := h s hs
    exact ih s hnext hq

end

/-! ## Invariants -/

/-- The program's steps are in `R`, which keeps the invariant `I`. -/
def Program.Preserves (R : σ → σ → Prop) (I : σ → Prop) (x : Program σ ε α) : Prop :=
  x.Meets R (fun _ => I) I

section
variable {R : σ → σ → Prop} {I : σ → Prop}

theorem Program.Preserves.check (r : Except ε α) : (Program.check r).Preserves R I :=
  Meets.check fun _ hi => hi

theorem Program.Preserves.pure (a : α) : (Pure.pure a : Program σ ε α).Preserves R I :=
  fun _ hi => hi

theorem Program.Preserves.read (hr : ∀ s, R s s) (hI : Stable R I) (query : σ → Except ε α) :
    (Program.read query).Preserves R I :=
  Meets.read hr (fun _ => hI) fun _ hi => hi

theorem Program.Preserves.transact (hr : ∀ s, R s s) (hI : Stable R I)
    (h : ∀ s s' a, I s → t s = .ok (s', a) → R s s') :
    (Program.transact t).Preserves R I := by
  refine Meets.transact hr (fun _ => hI) (fun s s' a hi ht => ?_) fun _ _ hi _ => hi
  have hstep := h s s' a hi ht
  exact ⟨hstep, hI s s' hstep hi⟩

theorem Program.Preserves.bind {x : Program σ ε α} (hx : x.Preserves R I)
    (hf : ∀ a, (f a).Preserves R I) : (x >>= f).Preserves R I :=
  Meets.bind hx hf fun _ _ hi => hi

theorem Program.Preserves.check_bind
    (hf : ∀ a, result = .ok a → (f a).Preserves R I) : (Program.check result >>= f).Preserves R I :=
  Meets.check_bind hf fun _ _ hi => hi

theorem Program.Preserves.ite {x y : Program σ ε α} {p : Prop} [Decidable p]
    (hx : p → x.Preserves R I) (hy : ¬ p → y.Preserves R I) : (if p then x else y).Preserves R I := by
  by_cases hp : p
  · rw [if_pos hp]
    exact hx hp
  · rw [if_neg hp]
    exact hy hp

end

/-! ## Pools -/

section
variable {R : σ → σ → Prop} {I : σ → Prop} {program : γ → Program σ ε ρ}
  {T : Nat → γ → Except ε ρ → σ → Prop} {w : Pool γ σ ε ρ}

/-- The running calls meet their specifications, and the answered ones have. -/
structure Pool.Sound (R : σ → σ → Prop) (I : σ → Prop) (T : Nat → γ → Except ε ρ → σ → Prop)
    (w : Pool γ σ ε ρ) : Prop where
  inv : I w.state
  running : ∀ q ∈ w.running, q.id < w.started ∧
    ∃ P, Stable R P ∧ P w.state ∧ q.program.Meets R (T q.id q.call) P
  answered : ∀ a ∈ w.answered, a.id < w.started ∧ T a.id a.call a.result w.state

section
variable (h : w.Sound R I T) (hI : Stable R I) (hT : ∀ n c r, Stable R (T n c r))
include h hI hT

theorem Pool.Sound.continue {q : Running γ σ ε ρ} (hq : q ∈ w.running) :
    (w.continue q).Sound R I T ∧ ((w.continue q).state = w.state ∨ R w.state (w.continue q).state) ∧
      (w.continue q).started = w.started := by
  obtain ⟨hlt, P, hstable, hp, hmeets⟩ := h.running q hq
  unfold Pool.continue
  cases hprogram : q.program with
  | ret result =>
    rw [hprogram] at hmeets
    refine ⟨⟨h.inv, fun p hm => ?_, ?_⟩, .inl rfl, rfl⟩
    · exact h.running p (List.mem_filter.mp hm).1
    · exact List.forall_mem_concat.mpr ⟨h.answered, hlt, hmeets _ hp⟩
  | atomic update next =>
    rw [hprogram] at hmeets
    obtain ⟨hstep, P', hstable', hp', hnext⟩ := hmeets _ hp
    refine ⟨⟨hI _ _ hstep h.inv, ?_, ?_⟩, .inr hstep, rfl⟩
    · refine forall_mem_replace ⟨hlt, P', hstable', hp', hnext⟩ fun p hp0 _ => ?_
      -- the facts the other calls rest on are stable
      obtain ⟨hlt0, P0, hstable0, hfact, hmeets0⟩ := h.running p hp0
      exact ⟨hlt0, P0, hstable0, hstable0 _ _ hstep hfact, hmeets0⟩
    · intro a ha
      obtain ⟨hlta, hta⟩ := h.answered a ha
      exact ⟨hlta, hT _ _ _ _ _ hstep hta⟩

section
variable (hp : ∀ n, w.started ≤ n → ∀ c, (program c).Meets R (T n c) I)
include hp

theorem Pool.Sound.step (l : Schedule γ) : (w.step program l).Sound R I T ∧
      ((w.step program l).state = w.state ∨ R w.state (w.step program l).state) ∧
      w.started ≤ (w.step program l).started := by
  cases l with
  | start c =>
    refine ⟨⟨h.inv, List.forall_mem_concat.mpr ⟨fun q hq => ?_, ?_⟩, ?_⟩, .inl rfl, Nat.le_succ _⟩
    · obtain ⟨hlt, hmeets⟩ := h.running q hq
      exact ⟨Nat.lt_succ_of_lt hlt, hmeets⟩
    · exact ⟨Nat.lt_succ_self _, I, hI, h.inv, hp _ (Nat.le_refl _) c⟩
    · intro a ha
      obtain ⟨hlt, ht⟩ := h.answered a ha
      exact ⟨Nat.lt_succ_of_lt hlt, ht⟩
  | advance id =>
    show (w.advance id).Sound R I T ∧ ((w.advance id).state = w.state ∨ R w.state (w.advance id).state) ∧
      w.started ≤ (w.advance id).started
    unfold Pool.advance
    split
    · next q hf =>
      obtain ⟨hsound, hstep, hstarted⟩ := h.continue hI hT (List.mem_of_find?_eq_some hf)
      exact ⟨hsound, hstep, Nat.le_of_eq hstarted.symm⟩
    · exact ⟨h, .inl rfl, Nat.le_refl _⟩
  | crash id =>
    refine ⟨⟨h.inv, ?_, h.answered⟩, .inl rfl, Nat.le_refl _⟩
    intro q hq
    exact h.running q (List.mem_filter.mp hq).1

theorem Pool.Sound.run (ls : List (Schedule γ)) :
    (w.run program ls).Sound R I T ∧ Relation.ReflTransGen R w.state (w.run program ls).state := by
  induction ls generalizing w with
  | nil => exact ⟨h, .refl⟩
  | cons l ls ih =>
    obtain ⟨hsound, hstep, hstarted⟩ := h.step hI hT hp l
    obtain ⟨hend, hrun⟩ := ih hsound fun n hn => hp n (Nat.le_trans hstarted hn)
    refine ⟨hend, ?_⟩
    rcases hstep with he | hr
    · rw [he] at hrun
      exact hrun
    · exact .head hr hrun

end

end

/-- Specifications that agree on the calls already started are interchangeable. -/
theorem Pool.Sound.congr (h : w.Sound R I T) {J : σ → Prop} {V : Nat → γ → Except ε ρ → σ → Prop}
    (hJ : J w.state) (hV : ∀ n, n < w.started → V n = T n) : w.Sound R J V := by
  refine ⟨hJ, ?_, ?_⟩
  · intro q hq
    obtain ⟨hlt, hmeets⟩ := h.running q hq
    rw [hV _ hlt]
    exact ⟨hlt, hmeets⟩
  · intro a ha
    obtain ⟨hlt, ht⟩ := h.answered a ha
    rw [hV _ hlt]
    exact ⟨hlt, ht⟩

end

end GaugeDesk
