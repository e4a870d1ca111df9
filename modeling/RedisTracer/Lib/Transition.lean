import Mathlib

/-!
# Transition systems

A system is a step relation and the state it starts in. `Simulates step step' R` matches every step on
the left by steps on the right, none included, so a run on the left has one beside it on the right
(`Simulates.run`). A system whose steps all lower a measure stops (`exists_final`), after at most so many
steps (`Steps.add_le`).
-/

namespace Transition

open Relation

variable {σ τ : Type} {step : σ → σ → Prop} {step' : τ → τ → Prop} {R : σ → τ → Prop} {I : σ → Prop}
  {s s' s₀ : σ} {t : τ} {f : σ → Nat} {n : Nat}

theorem invariant (h0 : I s₀) (hstep : ∀ s s', I s → step s s' → I s') (h : ReflTransGen step s₀ s) :
    I s := by
  induction h with
  | refl => exact h0
  | tail _ hlast ih => exact hstep _ _ ih hlast

/-! ### Simulation -/

def Simulates (step : σ → σ → Prop) (step' : τ → τ → Prop) (R : σ → τ → Prop) : Prop :=
  ∀ s t s', R s t → step s s' → ∃ t', ReflTransGen step' t t' ∧ R s' t'

theorem Simulates.run (h : Simulates step step' R) (hR : R s t) (hrun : ReflTransGen step s s') :
    ∃ t', ReflTransGen step' t t' ∧ R s' t' := by
  induction hrun with
  | refl => exact ⟨t, .refl, hR⟩
  | tail _ hlast ih =>
    obtain ⟨t₁, hrun, hR₁⟩ := ih
    obtain ⟨t₂, hrun', hR₂⟩ := h _ _ _ hR₁ hlast
    exact ⟨t₂, hrun.trans hrun', hR₂⟩

/-- A simulation by a function: steps are steps of the image, or leave it alone. -/
theorem simulates_map {g : σ → τ} (h : ∀ s s', step s s' → step' (g s) (g s') ∨ g s' = g s) :
    Simulates step step' fun s t => g s = t := by
  rintro s t s' rfl hstep
  rcases h s s' hstep with hstep' | heq
  · exact ⟨g s', .single hstep', rfl⟩
  · exact ⟨g s, .refl, heq⟩

/-! ### Termination -/

inductive Steps (step : σ → σ → Prop) : Nat → σ → σ → Prop
  | refl (s : σ) : Steps step 0 s s
  | tail {n : Nat} {s s' s'' : σ} : Steps step n s s' → step s' s'' → Steps step (n + 1) s s''

def Final (step : σ → σ → Prop) (s : σ) : Prop := ∀ s', ¬ step s s'

theorem Steps.add_le (hf : ∀ s s', step s s' → f s' < f s) (h : Steps step n s s') :
    n + f s' ≤ f s := by
  induction h with
  | refl => exact Nat.le_of_eq (Nat.zero_add _)
  | tail _ hlast ih =>
    have := hf _ _ hlast
    omega

theorem exists_final (hf : ∀ s s', step s s' → f s' < f s) (s : σ) :
    ∃ s', ReflTransGen step s s' ∧ Final step s' := by
  induction hn : f s using Nat.strongRecOn generalizing s with
  | ind n ih =>
    by_cases hfinal : Final step s
    · exact ⟨s, .refl, hfinal⟩
    · obtain ⟨s₁, hstep⟩ : ∃ s₁, step s s₁ := by simpa only [Final, not_forall, not_not] using hfinal
      obtain ⟨s', hrun, hend⟩ := ih _ (hn ▸ hf s s₁ hstep) s₁ rfl
      exact ⟨s', .head hstep hrun, hend⟩

end Transition
