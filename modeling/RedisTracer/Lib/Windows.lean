import Mathlib.Data.List.Infix
import Mathlib.Data.List.TakeWhile

/-!
# Contiguous parts of a list

A word occurs in a list when it is one of its windows. A word can only occur on one side of an element
it does not have.
-/

namespace Windows

variable {α β : Type} {as bs w : List α} {a c : α} {n : Nat}

def windows (n : Nat) (as : List α) : List (List α) :=
  (List.range (as.length + 1 - n)).map fun i => (as.drop i).take n

theorem mem_windows : w ∈ windows n as ↔ w.length = n ∧ w <:+: as := by
  simp only [windows, List.mem_map, List.mem_range]
  constructor
  · rintro ⟨i, hi, rfl⟩
    refine ⟨by rw [List.length_take, List.length_drop]; omega, ?_⟩
    exact (List.take_prefix ..).isInfix.trans (List.drop_suffix ..).isInfix
  · rintro ⟨rfl, pre, post, rfl⟩
    refine ⟨pre.length, by simp only [List.length_append]; omega, ?_⟩
    rw [List.append_assoc, List.drop_left, List.take_left]

theorem any_windows [BEq α] [LawfulBEq α] :
    (windows w.length as).any (· == w) = true ↔ w <:+: as := by
  rw [List.any_eq_true]
  constructor
  · rintro ⟨v, hv, heq⟩
    obtain rfl := eq_of_beq heq
    exact (mem_windows.1 hv).2
  · intro h
    exact ⟨w, mem_windows.2 ⟨rfl, h⟩, BEq.rfl⟩

/-! ### Separators -/

/-- A prefix of `c :: bs` without `c` is empty. -/
theorem eq_nil_of_prefix_cons (h : c ∉ w) (hw : w <+: c :: bs) : w = [] := by
  rcases List.prefix_cons_iff.1 hw with rfl | ⟨t, rfl, -⟩
  · rfl
  · exact absurd List.mem_cons_self h

theorem infix_append_cons (h : c ∉ w) : w <:+: as ++ c :: bs ↔ w <:+: as ∨ w <:+: bs := by
  constructor
  · intro hw
    rcases List.infix_append_iff.1 hw with hw | hw | ⟨u, v, rfl, hu, hv⟩
    · exact .inl hw
    · rcases List.infix_cons_iff.1 hw with hw | hw
      · rw [eq_nil_of_prefix_cons h hw]
        exact .inl List.nil_infix
      · exact .inr hw
    · -- the part behind `as` starts with `c`
      have hv : v = [] := eq_nil_of_prefix_cons (fun hc => h (List.mem_append_right _ hc)) hv
      rw [hv, List.append_nil]
      exact .inl hu.isInfix
  · rintro (hw | hw)
    · exact List.infix_append_of_infix_left hw
    · exact List.infix_append_of_infix_right (List.infix_cons hw)

theorem infix_cons_of_not_mem (hw : w ≠ []) (h : c ∉ w) : w <:+: c :: bs ↔ w <:+: bs := by
  rw [← List.nil_append (c :: bs), infix_append_cons h, List.infix_nil]
  exact or_iff_right hw

/-- Elements a word does not have can be left out in front. -/
theorem infix_append_of_disjoint (hw : w ≠ []) (h : ∀ a ∈ as, a ∉ w) : w <:+: as ++ bs ↔ w <:+: bs := by
  induction as with
  | nil => rfl
  | cons a as ih =>
    rw [List.cons_append, infix_cons_of_not_mem hw (h a List.mem_cons_self)]
    exact ih fun b hb => h b (List.mem_cons_of_mem _ hb)

/-! ### Tables -/

section
variable [DecidableEq β] {f : α → β} {p : α → Bool}

theorem eq_takeWhile_append (hn : (as.map f).Nodup) (ha : a ∈ as) :
    ∃ bs, as = as.takeWhile (f · ≠ f a) ++ a :: bs := by
  induction as with
  | nil => cases ha
  | cons b as ih =>
    rw [List.map_cons, List.nodup_cons] at hn
    rcases List.mem_cons.1 ha with rfl | ha
    · exact ⟨as, by simp⟩
    · have hne : f b ≠ f a := fun heq => hn.1 (heq ▸ List.mem_map_of_mem ha)
      obtain ⟨bs, hbs⟩ := ih hn.2 ha
      refine ⟨bs, ?_⟩
      rw [List.takeWhile_cons_of_pos (by simpa using hne), List.cons_append, ← hbs]

/-- The search stops at an entry when none before it is hit. -/
theorem find?_eq_some_iff (hn : (as.map f).Nodup) (ha : a ∈ as) :
    as.find? p = some a ↔ p a = true ∧ ∀ b ∈ as.takeWhile (f · ≠ f a), p b = false := by
  obtain ⟨bs, hbs⟩ := eq_takeWhile_append hn ha
  have hmem : a ∉ as.takeWhile (f · ≠ f a) := fun hmem => by
    simpa using List.mem_takeWhile_imp hmem
  generalize as.takeWhile (f · ≠ f a) = pre at hbs hmem ⊢
  subst hbs
  rw [List.find?_append, Option.or_eq_some_iff]
  constructor
  · rintro (hfind | ⟨hnone, hfind⟩)
    · exact absurd (List.mem_of_find?_eq_some hfind) hmem
    · have hpre : ∀ b ∈ pre, p b = false := by simpa using hnone
      refine ⟨?_, hpre⟩
      exact List.find?_some hfind
  · rintro ⟨hp, hpre⟩
    exact .inr ⟨by simpa using hpre, by rw [List.find?_cons_of_pos hp]⟩

end

end Windows
