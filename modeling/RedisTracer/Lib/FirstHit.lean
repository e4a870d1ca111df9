import Mathlib

/-!
# Loops that stop at the first hit

A loop over the positions of a list, taken in increasing order, that goes on, answers or fails at each
of them: what it returns is decided by the first position at which it does not go on.
-/

namespace FirstHit

variable {α β ε : Type} {l : List Nat} {i : Nat} {r : β} {e : ε}

/-- The positions of the elements of `as` that satisfy `q`. -/
def positions (q : α → Bool) (as : List α) : List Nat :=
  (as.zipIdx.filter fun p => q p.1).map Prod.snd

theorem mem_positions {q : α → Bool} {as : List α} :
    i ∈ positions q as ↔ ∃ a, as[i]? = some a ∧ q a = true := by
  simp only [positions, List.mem_map, List.mem_filter, Prod.exists, List.mem_zipIdx_iff_getElem?]
  constructor
  · rintro ⟨a, j, ⟨ha, hq⟩, rfl⟩
    exact ⟨a, ha, hq⟩
  · rintro ⟨a, ha, hq⟩
    exact ⟨a, i, ⟨ha, hq⟩, rfl⟩

theorem positions_sorted (q : α → Bool) (as : List α) : (positions q as).Pairwise (· < ·) := by
  refine List.Pairwise.map _ (fun _ _ h => h) (List.Pairwise.filter _ ?_)
  have hrange : (as.zipIdx.map Prod.snd).Pairwise (· < ·) := by
    rw [List.zipIdx_map_snd]; exact List.pairwise_lt_range'
  exact List.pairwise_map.1 hrange

/-- In an increasing list, what comes before `i` is what is smaller. -/
theorem split_sorted (hl : l.Pairwise (· < ·)) {P Q : Nat → Prop} :
    (∃ pre i post, l = pre ++ i :: post ∧ P i ∧ ∀ j ∈ pre, Q j) ↔
      ∃ i ∈ l, P i ∧ ∀ j ∈ l, j < i → Q j := by
  constructor
  · rintro ⟨pre, i, post, rfl, hi, hpre⟩
    refine ⟨i, by simp, hi, fun j hj hlt => ?_⟩
    obtain ⟨-, hpost, -⟩ := List.pairwise_append.1 hl
    rcases List.mem_append.1 hj with hj | hj
    · exact hpre j hj
    · rcases List.mem_cons.1 hj with rfl | hj
      · omega
      · have := (List.pairwise_cons.1 hpost).1 j hj
        omega
  · rintro ⟨i, hi, hp, hq⟩
    obtain ⟨pre, post, rfl⟩ := List.append_of_mem hi
    refine ⟨pre, i, post, rfl, hp, fun j hj => hq j (List.mem_append_left _ hj) ?_⟩
    exact (List.pairwise_append.1 hl).2.2 j hj i List.mem_cons_self

theorem findSome?_eq_some (hl : l.Pairwise (· < ·)) {f : Nat → Option β} :
    l.findSome? f = some r ↔ ∃ i ∈ l, f i = some r ∧ ∀ j ∈ l, j < i → f j = none :=
  List.findSome?_eq_some_iff.trans (split_sorted hl)

theorem findSomeM?_eq_error (hl : l.Pairwise (· < ·)) {f : Nat → Except ε (Option β)} :
    l.findSomeM? f = .error e ↔ ∃ i ∈ l, f i = .error e ∧ ∀ j ∈ l, j < i → f j = .ok none := by
  rw [← split_sorted hl]
  clear hl
  induction l with
  | nil => simp [pure, Except.pure]
  | cons k l ih =>
    rw [List.findSomeM?_cons]
    constructor
    · intro h
      cases hf : f k with
      | error e' =>
        rw [hf] at h
        cases h
        exact ⟨[], k, l, rfl, hf, by simp⟩
      | ok o =>
        cases o with
        | some b => rw [hf] at h; cases h
        | none =>
          rw [hf] at h
          obtain ⟨pre, i, post, rfl, hi, hpre⟩ := ih.1 h
          refine ⟨k :: pre, i, post, rfl, hi, fun j hj => ?_⟩
          rcases List.mem_cons.1 hj with rfl | hj
          exacts [hf, hpre j hj]
    · rintro ⟨pre, i, post, heq, hi, hpre⟩
      cases pre with
      | nil =>
        cases heq
        rw [hi]; rfl
      | cons k' pre =>
        cases heq
        rw [hpre k List.mem_cons_self]
        exact ih.2 ⟨pre, i, post, rfl, hi, fun j hj => hpre j (List.mem_cons_of_mem _ hj)⟩

/-- A loop that does not fail is the one that cannot. -/
theorem findSomeM?_eq_ok {f : Nat → Except ε (Option β)} {g : Nat → Option β}
    (hfg : ∀ i ∈ l, ∀ o, f i = .ok o → o = g i) (hno : ∀ e, l.findSomeM? f ≠ .error e) :
    l.findSomeM? f = .ok (l.findSome? g) := by
  induction l with
  | nil => rfl
  | cons k l ih =>
    rw [List.findSomeM?_cons] at hno ⊢
    rw [List.findSome?_cons]
    cases hf : f k with
    | error e => rw [hf] at hno; exact absurd rfl (hno e)
    | ok o =>
      rw [← hfg k List.mem_cons_self o hf]
      cases o with
      | some b => rfl
      | none =>
        rw [hf] at hno
        exact ih (fun i hi => hfg i (List.mem_cons_of_mem _ hi)) hno

end FirstHit
