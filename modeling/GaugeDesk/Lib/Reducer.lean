import Mathlib.Data.List.Basic

/-!
# Reducers: runs of a decide/evolve pair

A reducer folds events into a state (`evolve`) and turns commands into events
(`decide`); both may fail.  A command that fails leaves the state as it was.
The results below are the rules every development over a reducer uses:

    R.step s c = s  or  the admitted events took s to R.step s c  (step_cases)
    I kept by one step  →  I kept by every run  (runFrom_inv)
    P between one step's two ends  →  P between every run's  (runFrom_rel)
    J of state and history, kept by the
      steps with a side condition  →  J along the runs that meet it  (StepsMeet.trace_inv)
-/

/-- A command decider and an event folder over one initial state. -/
structure Reducer (σ γ ε φ : Type) where
  init : σ
  decide : σ → γ → Except φ (List ε)
  evolve : σ → ε → Except φ σ

theorem bind_eq_ok {φ α β : Type} {x : Except φ α} {f : α → Except φ β} {b : β} :
    (x >>= f) = .ok b ↔ ∃ a, x = .ok a ∧ f a = .ok b := by
  cases x with
  | error | ok => simp [bind, Except.bind]

theorem pure_eq_ok {φ α : Type} {a b : α} : (pure a : Except φ α) = .ok b ↔ a = b :=
  ⟨Except.ok.inj, congrArg Except.ok⟩

theorem Except.mapError_eq_ok {φ ψ α : Type} (x : Except φ α) (f : φ → ψ) (a : α) :
    x.mapError f = .ok a ↔ x = .ok a := by
  cases x <;> simp [Except.mapError]

theorem Except.map_eq_ok {φ α β : Type} {x : Except φ α} {f : α → β} {b : β} :
    x.map f = .ok b ↔ ∃ a, x = .ok a ∧ f a = b := by
  cases x <;> simp [Except.map]

theorem Except.exists_error {φ α : Type} {x : Except φ α} (h : ∀ a, x ≠ .ok a) : ∃ e, x = .error e := by
  cases x with
  | error e => exact ⟨e, rfl⟩
  | ok a => exact absurd rfl (h a)

theorem map_fst_eq_ok {φ α β : Type} {x : Except φ (α × β)} {a : α} :
    x.map Prod.fst = .ok a ↔ ∃ b, x = .ok (a, b) := by
  rw [Except.map_eq_ok]
  simp

theorem Except.forM_ok_iff {φ α : Type} {f : α → Except φ Unit} {l : List α} {u : Unit} :
    l.forM f = .ok u ↔ ∀ a ∈ l, f a = .ok () := by
  induction l with
  | nil => exact ⟨nofun, fun _ => rfl⟩
  | cons b l ih =>
    rw [List.forM, bind_eq_ok, List.forall_mem_cons, ← ih]
    constructor
    · rintro ⟨a, hb, hl⟩
      exact ⟨hb, hl⟩
    · rintro ⟨hb, hl⟩
      exact ⟨(), hb, hl⟩

/-- A loop that succeeds relates its two ends when every round does. -/
theorem Except.foldlM_rel {φ α β : Type} {f : β → α → Except φ β} {R : β → β → Prop}
    (hrefl : ∀ b, R b b) (htrans : ∀ b c d, R b c → R c d → R b d) {l : List α}
    (hstep : ∀ a ∈ l, ∀ b b', f b a = .ok b' → R b b') {b b' : β} (h : l.foldlM f b = .ok b') :
    R b b' := by
  induction l generalizing b with
  | nil =>
    obtain rfl : b = b' := Except.ok.inj h
    exact hrefl b
  | cons a l ih =>
    rw [List.foldlM_cons, bind_eq_ok] at h
    obtain ⟨c, hc, hrest⟩ := h
    rw [List.forall_mem_cons] at hstep
    exact htrans b c b' (hstep.1 b c hc) (ih hstep.2 hrest)

namespace Reducer

open List

variable {σ γ ε φ : Type} (R : Reducer σ γ ε φ)

/-! ## Runs -/

/-- Fold a list of events. -/
def evolveAll (s : σ) (es : List ε) : Except φ σ := es.foldlM R.evolve s

/-- Decide one command and fold its events. -/
def handle (s : σ) (c : γ) : Except φ (List ε × σ) := do
  let es ← R.decide s c
  let s' ← R.evolveAll s es
  return (es, s')

/-- The state after one command; a failed command changes nothing. -/
def step (s : σ) (c : γ) : σ :=
  match R.handle s c with
  | .ok (_, s') => s'
  | .error _ => s

/-- The events one command appends. -/
def emitted (s : σ) (c : γ) : List ε :=
  match R.handle s c with
  | .ok (es, _) => es
  | .error _ => []

/-- The state after a sequence of commands. -/
def runFrom (s : σ) (cs : List γ) : σ := cs.foldl R.step s

/-- The events of a sequence of commands, in order. -/
def traceFrom (s : σ) : List γ → List ε
  | [] => []
  | c :: cs => R.emitted s c ++ traceFrom (R.step s c) cs

def run (cs : List γ) : σ := R.runFrom R.init cs

def trace (cs : List γ) : List ε := R.traceFrom R.init cs

/-- Every step of the run from `s` meets the side condition `G`. -/
def StepsMeet (G : σ → γ → Prop) (s : σ) : List γ → Prop
  | [] => True
  | c :: cs => G s c ∧ StepsMeet G (R.step s c) cs

instance StepsMeet.decidable (G : σ → γ → Prop) [∀ s c, Decidable (G s c)] :
    (s : σ) → (cs : List γ) → Decidable (R.StepsMeet G s cs)
  | _, [] => isTrue True.intro
  | s, c :: cs =>
    have := decidable G (R.step s c) cs
    inferInstanceAs (Decidable (G s c ∧ R.StepsMeet G (R.step s c) cs))

/-! ## Lemmas -/

theorem evolveAll_cons (s s' : σ) (e : ε) (es : List ε) :
    R.evolveAll s (e :: es) = .ok s' ↔ ∃ t, R.evolve s e = .ok t ∧ R.evolveAll t es = .ok s' := by
  unfold evolveAll
  rw [foldlM_cons, bind_eq_ok]

theorem evolveAll_cons_of_ok {s t : σ} {e : ε} (h : R.evolve s e = .ok t) (es : List ε) :
    R.evolveAll s (e :: es) = R.evolveAll t es := by
  unfold evolveAll
  rw [foldlM_cons, h]
  rfl

theorem evolveAll_one {s t : σ} {e : ε} (h : R.evolve s e = .ok t) : R.evolveAll s [e] = .ok t :=
  R.evolveAll_cons_of_ok h []

theorem evolveAll_two {s t u : σ} {e f : ε} (h : R.evolve s e = .ok t) (h' : R.evolve t f = .ok u) :
    R.evolveAll s [e, f] = .ok u :=
  (R.evolveAll_cons_of_ok h [f]).trans (R.evolveAll_one h')

theorem evolveAll_append (s s' : σ) (es fs : List ε) :
    R.evolveAll s (es ++ fs) = .ok s' ↔
      ∃ t, R.evolveAll s es = .ok t ∧ R.evolveAll t fs = .ok s' := by
  unfold evolveAll
  rw [foldlM_append, bind_eq_ok]

theorem handle_eq_ok (s s' : σ) (c : γ) (es : List ε) :
    R.handle s c = .ok (es, s') ↔ R.decide s c = .ok es ∧ R.evolveAll s es = .ok s' := by
  unfold handle
  rw [bind_eq_ok]
  constructor
  · rintro ⟨es', hd, h⟩
    rw [bind_eq_ok] at h
    obtain ⟨t, ht, h⟩ := h
    cases h
    exact ⟨hd, ht⟩
  · rintro ⟨hd, he⟩
    exact ⟨es, hd, by rw [bind_eq_ok]; exact ⟨s', he, rfl⟩⟩

/-- What one command can do: nothing, or fold the events it decided. -/
theorem step_cases (s : σ) (c : γ) :
    (R.step s c = s ∧ R.emitted s c = []) ∨
      (R.decide s c = .ok (R.emitted s c) ∧ R.evolveAll s (R.emitted s c) = .ok (R.step s c)) := by
  unfold step emitted
  cases h : R.handle s c with
  | error e => exact .inl ⟨rfl, rfl⟩
  | ok p => exact .inr ((R.handle_eq_ok s p.2 c p.1).mp h)

theorem step_of_ok (s s' : σ) (c : γ) (es : List ε) (hd : R.decide s c = .ok es)
    (he : R.evolveAll s es = .ok s') : R.step s c = s' ∧ R.emitted s c = es := by
  have h := (R.handle_eq_ok s s' c es).mpr ⟨hd, he⟩
  unfold step emitted
  rw [h]
  exact ⟨rfl, rfl⟩

theorem runFrom_append (s : σ) (cs ds : List γ) :
    R.runFrom s (cs ++ ds) = R.runFrom (R.runFrom s cs) ds := by
  unfold runFrom
  rw [foldl_append]

theorem run_append (cs ds : List γ) : R.run (cs ++ ds) = R.runFrom (R.run cs) ds :=
  R.runFrom_append R.init cs ds

theorem traceFrom_append (s : σ) (cs ds : List γ) :
    R.traceFrom s (cs ++ ds) = R.traceFrom s cs ++ R.traceFrom (R.runFrom s cs) ds := by
  induction cs generalizing s with
  | nil => rfl
  | cons c cs ih =>
    rw [cons_append, traceFrom, traceFrom, ih, append_assoc]
    rfl

theorem runFrom_inv (I : σ → Prop) (hs : ∀ s c, I s → I (R.step s c)) (s : σ) (h : I s)
    (cs : List γ) : I (R.runFrom s cs) := by
  induction cs generalizing s with
  | nil => exact h
  | cons c cs ih => exact ih (R.step s c) (hs s c h)

theorem runFrom_rel (I : σ → Prop) (P : σ → σ → Prop) (hI : ∀ s c, I s → I (R.step s c))
    (hrefl : ∀ s, P s s) (htrans : ∀ a b c, P a b → P b c → P a c)
    (hs : ∀ s c, I s → P s (R.step s c)) (s : σ) (h : I s) (cs : List γ) :
    P s (R.runFrom s cs) := by
  induction cs generalizing s with
  | nil => exact hrefl s
  | cons c cs ih => exact htrans _ _ _ (hs s c h) (ih (R.step s c) (hI s c h))

theorem StepsMeet.append (G : σ → γ → Prop) (s : σ) (cs ds : List γ) :
    R.StepsMeet G s (cs ++ ds) ↔ R.StepsMeet G s cs ∧ R.StepsMeet G (R.runFrom s cs) ds := by
  induction cs generalizing s with
  | nil => simp [StepsMeet, runFrom]
  | cons c cs ih =>
    rw [cons_append, StepsMeet, StepsMeet, ih, and_assoc]
    rfl

theorem StepsMeet.trace_inv (G : σ → γ → Prop) (J : σ → List ε → Prop)
    (hs : ∀ s tr c, J s tr → G s c → J (R.step s c) (tr ++ R.emitted s c)) (s : σ) (tr : List ε)
    (h : J s tr) (cs : List γ) (hg : R.StepsMeet G s cs) :
    J (R.runFrom s cs) (tr ++ R.traceFrom s cs) := by
  induction cs generalizing s tr with
  | nil =>
    rw [traceFrom, append_nil]
    exact h
  | cons c cs ih =>
    rw [traceFrom, ← append_assoc]
    exact ih (R.step s c) _ (hs s tr c h hg.1) hg.2

theorem StepsMeet.inv (G : σ → γ → Prop) (I : σ → Prop)
    (hs : ∀ s c, I s → G s c → I (R.step s c)) (s : σ) (h : I s) (cs : List γ)
    (hg : R.StepsMeet G s cs) : I (R.runFrom s cs) :=
  StepsMeet.trace_inv R G (fun s _ => I s) (fun s _ c => hs s c) s [] h cs hg

theorem StepsMeet.trivial (s : σ) (cs : List γ) : R.StepsMeet (fun _ _ => True) s cs := by
  induction cs generalizing s with
  | nil => exact True.intro
  | cons c cs ih => exact ⟨True.intro, ih _⟩

end Reducer
