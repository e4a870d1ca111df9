import Mathlib

/-!
# Computations that a cache does not change

`Answers I m a`: from every state with the invariant `I`, `m` returns `a` and keeps `I`. What the state
holds then makes no difference to the answer.
-/

namespace Memo

variable {σ α β : Type} {I : σ → Prop} {m : StateM σ α} {a : α} {as : List α}

def Answers (I : σ → Prop) (m : StateM σ α) (a : α) : Prop := ∀ s, I s → (m s).1 = a ∧ I (m s).2

namespace Answers

theorem pure (I : σ → Prop) (a : α) : Answers I (pure a) a := fun _ hs => ⟨rfl, hs⟩

theorem bind {f : α → StateM σ β} {b : β} (hm : Answers I m a) (hf : Answers I (f a) b) :
    Answers I (m >>= f) b := by
  intro s hs
  obtain ⟨ha, hs'⟩ := hm s hs
  have hrun : (m >>= f) s = f (m s).1 (m s).2 := rfl
  rw [hrun, ha]
  exact hf _ hs'

theorem mapM {f : α → StateM σ β} {g : α → β} (h : ∀ a, Answers I (f a) (g a)) :
    Answers I (as.mapM f) (as.map g) := by
  induction as with
  | nil => exact pure I []
  | cons a as ih =>
    rw [List.mapM_cons, List.map_cons]
    exact (h a).bind (ih.bind (pure I _))

theorem foldlM {f : β → α → StateM σ β} {g : β → α → β} (h : ∀ b a, Answers I (f b a) (g b a))
    (b : β) : Answers I (as.foldlM f b) (as.foldl g b) := by
  induction as generalizing b with
  | nil => exact pure I b
  | cons a as ih =>
    rw [List.foldlM_cons, List.foldl_cons]
    exact (h b a).bind (ih _)

end Answers

end Memo
