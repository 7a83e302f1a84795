import Mathlib.Data.List.Basic

/-!
# Transition systems: runs of labelled steps

`Steps step s ls s'` runs a step relation along the labels `ls`.  Runs compose,
and a run ends with a step:

    Steps step s ls t → Steps step t ms u → Steps step s (ls ++ ms) u  (Steps.append)
-/

/-- The runs of `step` and the labels they take. -/
inductive Steps {σ γ : Type} (step : σ → γ → σ → Prop) : σ → List γ → σ → Prop
  | nil (s : σ) : Steps step s [] s
  | snoc {s t u : σ} {ls : List γ} {l : γ} : Steps step s ls t → step t l u →
      Steps step s (ls ++ [l]) u

namespace Steps

variable {σ γ : Type} {step : σ → γ → σ → Prop} {s t u : σ} {ls ms : List γ}

theorem append (h : Steps step s ls t) (h' : Steps step t ms u) : Steps step s (ls ++ ms) u := by
  induction h' with
  | nil => rwa [List.append_nil]
  | snoc _ hl ih =>
    rw [← List.append_assoc]
    exact .snoc ih hl

theorem snoc_inv {l : γ} (h : Steps step s (ls ++ [l]) u) : ∃ t, Steps step s ls t ∧ step t l u := by
  generalize hx : ls ++ [l] = xs at h
  cases h with
  | nil => exact absurd hx (by simp)
  | snoc hr hl =>
    obtain ⟨rfl, he⟩ := List.append_inj' hx rfl
    cases he
    exact ⟨_, hr, hl⟩

end Steps
