import Mathlib

/-!
# Locks and who holds them

`owner l` is the party that holds `l`. `Tracks owner p holds` says that `p` holds exactly the locks in
`holds`; taking or giving back a lock keeps what is tracked of the other parties.
-/

namespace Locks

variable {L P : Type} [DecidableEq L] {owner : L → Option P} {p q : P} {l : L}
  {holds holds' : L → Prop}

def acquire (owner : L → Option P) (l : L) (p : P) : L → Option P := Function.update owner l (some p)

def release (owner : L → Option P) (l : L) : L → Option P := Function.update owner l none

def Tracks (owner : L → Option P) (p : P) (holds : L → Prop) : Prop := ∀ l, owner l = some p ↔ holds l

theorem acquire_eq_some {k : L} :
    acquire owner l p k = some q ↔ (k = l ∧ p = q) ∨ (k ≠ l ∧ owner k = some q) := by
  by_cases hk : k = l
  · subst hk; simp [acquire]
  · simp [acquire, hk]

theorem release_eq_some {k : L} : release owner l k = some q ↔ k ≠ l ∧ owner k = some q := by
  by_cases hk : k = l
  · subst hk; simp [release]
  · simp [release, hk]

namespace Tracks

theorem acquire (h : Tracks owner p holds) (hnew : ∀ k, holds' k ↔ k = l ∨ holds k) :
    Tracks (acquire owner l p) p holds' := by
  intro k
  rw [acquire_eq_some, hnew, h k]
  by_cases hk : k = l <;> simp [hk]

theorem acquire_other (h : Tracks owner q holds) (hfree : owner l = none) (hne : p ≠ q) :
    Tracks (Locks.acquire owner l p) q holds := by
  intro k
  rw [acquire_eq_some, ← h k]
  by_cases hk : k = l
  · subst hk; simp [hne, hfree]
  · simp [hk]

theorem release (h : Tracks owner p holds) (hnew : ∀ k, holds' k ↔ k ≠ l ∧ holds k) :
    Tracks (release owner l) p holds' := by
  intro k
  rw [release_eq_some, hnew, h k]

theorem release_other (h : Tracks owner q holds) (hp : owner l = some p) (hne : p ≠ q) :
    Tracks (Locks.release owner l) q holds := by
  intro k
  rw [release_eq_some, ← h k]
  by_cases hk : k = l
  · subst hk; simp [hp, hne]
  · simp [hk]

omit [DecidableEq L] in
/-- No lock is held by two. -/
theorem exclusive (h : Tracks owner p holds) (h' : Tracks owner q holds') (hne : p ≠ q) (hl : holds l) :
    ¬ holds' l := by
  intro hl'
  have hp := (h l).2 hl
  rw [(h' l).2 hl'] at hp
  exact hne (Option.some.inj hp).symm

end Tracks

end Locks
