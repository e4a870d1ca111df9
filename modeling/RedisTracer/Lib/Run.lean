import Mathlib

/-!
# Runs of a step function

`stateAt step s₀ tr j` is the state after the first `j` inputs of `tr`; `stateAt_invariant` is the
induction over a run. `LastBefore P j i` and `FirstAfter P i l` name the latest position before `j`
and the first position after `i` at which `P` holds.
-/

namespace Run

variable {σ α : Type} {step : σ → α → σ} {s₀ : σ} {tr : List α} {j : Nat} {a : α}

def stateAt (step : σ → α → σ) (s₀ : σ) (tr : List α) (j : Nat) : σ := (tr.take j).foldl step s₀

@[simp] theorem stateAt_zero : stateAt step s₀ tr 0 = s₀ := rfl

theorem stateAt_succ (h : tr[j]? = some a) :
    stateAt step s₀ tr (j + 1) = step (stateAt step s₀ tr j) a := by
  obtain ⟨hj, rfl⟩ := List.getElem?_eq_some_iff.1 h
  have htake : tr.take (j + 1) = tr.take j ++ [tr[j]] := (List.take_append_getElem hj).symm
  rw [stateAt, htake, List.foldl_append]; rfl

/-- What holds initially and is kept by every input of the run holds at every position. -/
theorem stateAt_invariant {I : Nat → σ → Prop} (h0 : I 0 s₀)
    (hstep : ∀ j a, tr[j]? = some a → I j (stateAt step s₀ tr j) →
      I (j + 1) (step (stateAt step s₀ tr j) a)) :
    ∀ j, j ≤ tr.length → I j (stateAt step s₀ tr j) := by
  intro j
  induction j with
  | zero => exact fun _ => h0
  | succ j ih =>
    intro hj
    have hget : tr[j]? = some tr[j] := List.getElem?_eq_getElem hj
    rw [stateAt_succ hget]
    exact hstep j _ hget (ih (Nat.le_of_lt hj))

/-- `i` is the latest position before `j` at which `P` holds. -/
def LastBefore (P : Nat → Prop) (j i : Nat) : Prop :=
  i < j ∧ P i ∧ ∀ l, i < l → l < j → ¬ P l

/-- `l` is the first position after `i` at which `P` holds. -/
def FirstAfter (P : Nat → Prop) (i l : Nat) : Prop :=
  i < l ∧ P l ∧ ∀ n, i < n → n < l → ¬ P n

variable {P Q : Nat → Prop} {i i' l l' n : Nat}

namespace LastBefore

theorem unique (h : LastBefore P j i) (h' : LastBefore P j i') : i = i' := by
  rcases Nat.lt_trichotomy i i' with hlt | rfl | hlt
  · exact absurd h'.2.1 (h.2.2 i' hlt h'.1)
  · rfl
  · exact absurd h.2.1 (h'.2.2 i hlt h.1)

end LastBefore

namespace FirstAfter

theorem unique (h : FirstAfter P i l) (h' : FirstAfter P i l') : l = l' := by
  rcases Nat.lt_trichotomy l l' with hlt | rfl | hlt
  · exact absurd h.2.1 (h'.2.2 l h.1 hlt)
  · rfl
  · exact absurd h'.2.1 (h.2.2 l' h'.1 hlt)

theorem exists_of_lt (hil : i < n) (hn : P n) : ∃ l, l ≤ n ∧ FirstAfter P i l := by
  classical
  have hex : ∃ l, i < l ∧ P l := ⟨n, hil, hn⟩
  refine ⟨Nat.find hex, Nat.find_min' hex ⟨hil, hn⟩, (Nat.find_spec hex).1, (Nat.find_spec hex).2, ?_⟩
  exact fun m h1 h2 hm => Nat.find_min hex h2 ⟨h1, hm⟩

end FirstAfter

end Run
