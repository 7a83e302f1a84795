import GaugeDesk.Core.Fault

/-!
# Core: lifecycles whose commands are refused or take a step

The `Lifecycle` trait of `crates/core`: a reducer whose commands are rejected
or decide events, and whose `evolve` is meant never to panic on them.
`Admits R Step` says that what is admitted is one of the listed steps, and
`Decides R Step` that besides no command panics:

    Decides R Step → no decide panics, nor does folding its events  (no_panic, evolve_decided)
    Admits R Step  → a command changes nothing or takes a step  (Admits.cases)
    invariants of steps are invariants of runs  (Admits.run_inv, run_trace_inv)
-/

namespace GaugeDesk

variable {σ γ ε : Type}

/-- The computation `x` refuses the command `c`, or its events fold into a step of `c`. -/
def Outcome (R : Reducer σ γ ε Fault) (Step : σ → γ → List ε → σ → Prop) (s : σ) (c : γ)
    (x : Except Fault (List ε)) : Prop :=
  (∃ r, x = .error (.rejected r)) ∨
    ∃ es s', x = .ok es ∧ R.evolveAll s es = .ok s' ∧ Step s c es s'

/-- Whatever `R` decides and folds is a `Step`. -/
def Admits (R : Reducer σ γ ε Fault) (Step : σ → γ → List ε → σ → Prop) : Prop :=
  ∀ s c es s', R.decide s c = .ok es → R.evolveAll s es = .ok s' → Step s c es s'

/-- Every command of `R` is refused or takes a `Step`, without a panic. -/
def Decides (R : Reducer σ γ ε Fault) (Step : σ → γ → List ε → σ → Prop) : Prop :=
  ∀ s c, Outcome R Step s c (R.decide s c)

/-- `Decides` for one command. -/
abbrev DecidesAt (R : Reducer σ γ ε Fault) (Step : σ → γ → List ε → σ → Prop) (s : σ) (c : γ) : Prop :=
  Outcome R Step s c (R.decide s c)

section
variable {R : Reducer σ γ ε Fault} {Step : σ → γ → List ε → σ → Prop} {s s' : σ} {c : γ}
  {es : List ε}

/-! ## Building outcomes -/

theorem Outcome.reject (reason : String) : Outcome R Step s c (GaugeDesk.reject reason) :=
  .inl ⟨_, rfl⟩

theorem Outcome.guard {p : Prop} [Decidable p] {reason : String} {x : Except Fault (List ε)}
    (h : ¬ p → Outcome R Step s c x) :
    Outcome R Step s c (if p then GaugeDesk.reject reason else x) := by
  by_cases hp : p
  · rw [if_pos hp]
    exact .reject reason
  · rw [if_neg hp]
    exact h hp

theorem Outcome.unless {p : Prop} [Decidable p] {reason : String} {x : Except Fault (List ε)}
    (h : p → Outcome R Step s c x) :
    Outcome R Step s c (if ¬ p then GaugeDesk.reject reason else x) :=
  .guard fun hp => h (not_not.mp hp)

theorem Outcome.okOr {α : Type} {reason : String} {o : Option α} {f : α → Except Fault (List ε)}
    (h : ∀ a, o = some a → Outcome R Step s c (f a)) :
    Outcome R Step s c (GaugeDesk.okOr reason o >>= f) := by
  cases o with
  | none => exact .reject reason
  | some a => exact h a rfl

theorem Outcome.ok (he : R.evolveAll s es = .ok s') (h : Step s c es s') :
    Outcome R Step s c (.ok es) :=
  .inr ⟨es, s', rfl, he, h⟩

theorem Outcome.one {e : ε} (he : R.evolve s e = .ok s') (h : Step s c [e] s') :
    Outcome R Step s c (.ok [e]) :=
  .ok (R.evolveAll_one he) h

theorem Outcome.two {t : σ} {e f : ε} (he : R.evolve s e = .ok t) (hf : R.evolve t f = .ok s')
    (h : Step s c [e, f] s') : Outcome R Step s c (.ok [e, f]) :=
  .ok (R.evolveAll_two he hf) h

/-! ## Using them -/

theorem Outcome.step (h : Outcome R Step s c (.ok es)) (he : R.evolveAll s es = .ok s') :
    Step s c es s' := by
  rcases h with ⟨r, hr⟩ | ⟨es', t, hd, he', hstep⟩
  · cases hr
  · cases hd
    cases he.symm.trans he'
    exact hstep

theorem Decides.admits (h : Decides R Step) : Admits R Step := by
  intro s c es s' hd he
  have ho := h s c
  rw [hd] at ho
  exact ho.step he

theorem Decides.evolve_decided (h : Decides R Step) (hd : R.decide s c = .ok es) :
    ∃ s', R.evolveAll s es = .ok s' := by
  rcases h s c with ⟨r, hr⟩ | ⟨es', t, hd', he', -⟩
  · rw [hd] at hr
    cases hr
  · cases hd.symm.trans hd'
    exact ⟨t, he'⟩

theorem Decides.no_panic (h : Decides R Step) (s : σ) (c : γ) (message : String) :
    R.decide s c ≠ .error (.panicked message) := by
  intro hp
  rcases h s c with ⟨r, hr⟩ | ⟨es, t, hd, -, -⟩
  · cases hp.symm.trans hr
  · cases hp.symm.trans hd

/-! ## Runs -/

section
variable (h : Admits R Step)
include h

theorem Admits.cases (s : σ) (c : γ) :
    (R.step s c = s ∧ R.emitted s c = []) ∨ Step s c (R.emitted s c) (R.step s c) := by
  rcases R.step_cases s c with hn | ⟨hd, he⟩
  · exact .inl hn
  · exact .inr (h s c _ _ hd he)

theorem Admits.of_emitted {e : ε} (he : e ∈ R.emitted s c) :
    Step s c (R.emitted s c) (R.step s c) := by
  rcases h.cases s c with ⟨-, hn⟩ | hstep
  · rw [hn] at he
    cases he
  · exact hstep

theorem Admits.next (I : σ → Prop)
    (hs : ∀ s c es s', I s → Step s c es s' → I s') (s : σ) (c : γ) (hi : I s) :
    I (R.step s c) := by
  rcases h.cases s c with ⟨he, -⟩ | hstep
  · rw [he]
    exact hi
  · exact hs s c _ _ hi hstep

theorem Admits.run_inv (I : σ → Prop) (h0 : I R.init)
    (hs : ∀ s c es s', I s → Step s c es s' → I s') (cs : List γ) : I (R.run cs) :=
  R.runFrom_inv I (fun s c hi => h.next I hs s c hi) R.init h0 cs

theorem Admits.runFrom_rel_of_inv (I : σ → Prop) (P : σ → σ → Prop)
    (hI : ∀ s c es s', I s → Step s c es s' → I s') (hrefl : ∀ s, P s s)
    (htrans : ∀ a b c, P a b → P b c → P a c) (hs : ∀ s c es s', I s → Step s c es s' → P s s') (s : σ)
    (hi : I s) (cs : List γ) : P s (R.runFrom s cs) := by
  refine R.runFrom_rel I P (h.next I hI) hrefl htrans (fun s c hi => ?_) s hi cs
  rcases h.cases s c with ⟨he, -⟩ | hstep
  · rw [he]
    exact hrefl s
  · exact hs s c _ _ hi hstep

theorem Admits.runFrom_rel (P : σ → σ → Prop) (hrefl : ∀ s, P s s)
    (htrans : ∀ a b c, P a b → P b c → P a c) (hs : ∀ s c es s', Step s c es s' → P s s') (s : σ)
    (cs : List γ) : P s (R.runFrom s cs) :=
  h.runFrom_rel_of_inv (fun _ => True) P (fun _ _ _ _ _ _ => True.intro) hrefl htrans
    (fun s c es s' _ => hs s c es s') s True.intro cs

theorem Admits.run_trace_inv (J : σ → List ε → Prop) (h0 : J R.init [])
    (hs : ∀ s tr c es s', J s tr → Step s c es s' → J s' (tr ++ es)) (cs : List γ) :
    J (R.run cs) (R.trace cs) := by
  refine Reducer.StepsMeet.trace_inv R (fun _ _ => True) J ?_ R.init [] h0 cs
    (Reducer.StepsMeet.trivial R _ cs)
  intro s tr c hj _
  rcases h.cases s c with ⟨he, hn⟩ | hstep
  · rw [he, hn, List.append_nil]
    exact hj
  · exact hs s tr c _ _ hj hstep

/-- What the steps from states with `I` emit is all that runs from such a state emit. -/
theorem Admits.traceFrom_all (I : σ → Prop) (Q : ε → Prop)
    (hI : ∀ s c es s', I s → Step s c es s' → I s')
    (hQ : ∀ s c es s', I s → Step s c es s' → ∀ e ∈ es, Q e) (s : σ) (hi : I s) (cs : List γ) :
    ∀ e ∈ R.traceFrom s cs, Q e := by
  induction cs generalizing s with
  | nil => exact nofun
  | cons c cs ih =>
    intro e he
    rw [Reducer.traceFrom, List.mem_append] at he
    rcases h.cases s c with ⟨hsame, hnone⟩ | hstep
    · rw [hsame, hnone] at he
      exact ih s hi e (he.resolve_left List.not_mem_nil)
    · rcases he with he | he
      · exact hQ s c _ _ hi hstep e he
      · exact ih _ (hI s c _ _ hi hstep) e he

end

end

end GaugeDesk
