import Mathlib

/-!
# Rankings

`ranked f as` lists `as` with the greatest values of `f` first (`IsRanking`). The first `n` of a ranking are
`IsTop`: none left out has more than one of them.
-/

namespace Ranking

variable {α : Type} {f : α → Nat} {as : List α} {n : Nat}

def ranked (f : α → Nat) (as : List α) : List α := as.mergeSort fun a b => f b ≤ f a

theorem ranked_perm (f : α → Nat) (as : List α) : (ranked f as).Perm as := List.mergeSort_perm _ _

theorem ranked_pairwise (f : α → Nat) (as : List α) : (ranked f as).Pairwise fun a b => f b ≤ f a := by
  let le (a b : α) : Bool := decide (f b ≤ f a)
  have htrans : ∀ a b c, le a b → le b c → le a c := fun a b c hab hbc =>
    decide_eq_true ((of_decide_eq_true hbc).trans (of_decide_eq_true hab))
  have htotal : ∀ a b, le a b || le b a := by
    intro a b
    simpa [le] using Nat.le_total (f b) (f a)
  exact (List.pairwise_mergeSort htrans htotal as).imp of_decide_eq_true

/-- `all` are those with `P`, the greatest first. -/
structure IsRanking (f : α → Nat) (P : α → Prop) (all : List α) : Prop where
  nodup : all.Nodup
  mem : ∀ a, a ∈ all ↔ P a
  sorted : all.Pairwise fun a b => f b ≤ f a

/-- `top` are the `n` greatest with `P`, in order, or all with `P` where they are fewer. -/
structure IsTop (n : Nat) (f : α → Nat) (P : α → Prop) (top : List α) : Prop where
  nodup : top.Nodup
  sound : ∀ a ∈ top, P a
  sorted : top.Pairwise fun a b => f b ≤ f a
  length_le : top.length ≤ n
  best : ∀ a, P a → a ∉ top → top.length = n ∧ ∀ b ∈ top, f a ≤ f b

theorem isRanking_ranked {P : α → Prop} (hnodup : as.Nodup) (hP : ∀ a, a ∈ as ↔ P a) :
    IsRanking f P (ranked f as) where
  nodup := (ranked_perm f as).nodup_iff.2 hnodup
  mem a := (ranked_perm f as).mem_iff.trans (hP a)
  sorted := ranked_pairwise f as

theorem IsRanking.isTop {P : α → Prop} (h : IsRanking f P as) (n : Nat) : IsTop n f P (as.take n) := by
  refine ⟨h.nodup.sublist (List.take_sublist ..), fun a ha => (h.mem a).1 (List.mem_of_mem_take ha),
    h.sorted.sublist (List.take_sublist ..), List.length_take_le .., fun a ha hout => ?_⟩
  have hmem := (h.mem a).2 ha
  have hsorted := h.sorted
  rw [← List.take_append_drop n as] at hmem hsorted
  have hdrop : a ∈ as.drop n := (List.mem_append.1 hmem).resolve_left hout
  refine ⟨?_, fun b hb => (List.pairwise_append.1 hsorted).2.2 b hb a hdrop⟩
  have hlt : n < as.length := by
    by_contra hle
    rw [List.drop_eq_nil_of_le (Nat.not_lt.1 hle)] at hdrop
    cases hdrop
  rw [List.length_take, Nat.min_eq_left hlt.le]

/-- Ranking commutes with a map that keeps the values. -/
theorem map_ranked {β : Type} {g : β → Nat} (k : α → β) (h : ∀ a ∈ as, f a = g (k a)) :
    (ranked f as).map k = ranked g (as.map k) := by
  refine List.map_mergeSort fun a ha b hb => ?_
  rw [h a ha, h b hb]

end Ranking
