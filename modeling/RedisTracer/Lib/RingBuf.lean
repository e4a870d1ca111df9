import Mathlib

/-!
# Ring buffers

A queue of bounded length. `push` refuses a record when the ring is full; `unread c` counts the unread
records of the producer `c`. A log of pushes lists each record with whether it was taken (`taken`).
-/

structure RingBuf (ι α : Type) (cap : Nat) where
  items : List (ι × α)
  length_le : items.length ≤ cap

namespace RingBuf

variable {ι α : Type} {cap : Nat} [DecidableEq ι]

def empty : RingBuf ι α cap := ⟨[], Nat.zero_le cap⟩

def push (r : RingBuf ι α cap) (c : ι) (a : α) : Option (RingBuf ι α cap) :=
  if h : r.items.length < cap then some ⟨r.items ++ [(c, a)], by rw [List.length_append]; exact h⟩ else none

def pop (r : RingBuf ι α cap) : Option (α × RingBuf ι α cap) :=
  match h : r.items with
  | [] => none
  | (_, a) :: rest => some (a, ⟨rest, by have := r.length_le; simp [h] at this; omega⟩)

def unread (r : RingBuf ι α cap) (c : ι) : Nat := (r.items.map Prod.fst).count c

variable {r r' : RingBuf ι α cap} {c : ι} {a : α}

omit [DecidableEq ι] in
theorem push_isSome (h : r.items.length < cap) (c : ι) (a : α) : ∃ r', r.push c a = some r' :=
  ⟨_, dif_pos h⟩

omit [DecidableEq ι] in
theorem items_push (h : r.push c a = some r') : r'.items = r.items ++ [(c, a)] := by
  unfold push at h
  split at h
  · cases h; rfl
  · cases h

omit [DecidableEq ι] in
theorem le_length_of_push (h : r.push c a = none) : cap ≤ r.items.length := by
  unfold push at h
  split at h
  · cases h
  · exact Nat.not_lt.1 ‹_›

omit [DecidableEq ι] in
theorem items_pop (h : r.pop = some (a, r')) : ∃ c, r.items = (c, a) :: r'.items := by
  unfold pop at h
  split at h
  · cases h
  · rename_i c b rest hitems
    cases h
    exact ⟨c, hitems⟩

omit [DecidableEq ι] in
theorem pop_eq_none : r.pop = none ↔ r.items = [] := by
  unfold pop
  split
  · rename_i hnil
    exact iff_of_true rfl hnil
  · rename_i c b rest hitems
    refine ⟨fun h => (nomatch h), fun h => ?_⟩
    rw [hitems] at h; cases h

theorem unread_push (h : r.push c a = some r') (d : ι) :
    r'.unread d = r.unread d + if c = d then 1 else 0 := by
  unfold push at h
  split at h
  · cases h
    simp [unread, List.count_singleton]
  · cases h

theorem unread_of_pop_none (h : r.pop = none) (c : ι) : r.unread c = 0 := by
  unfold pop at h
  split at h
  · rename_i hnil; rw [unread, hnil]; rfl
  · cases h

/-- With at most `n` records of each producer, the ring holds at most `n` times the producers. -/
theorem length_le_mul [Fintype ι] {n : Nat} (h : ∀ c, r.unread c ≤ n) :
    r.items.length ≤ n * Fintype.card ι := by
  have hsum : ∑ c, r.unread c = r.items.length := by
    have := Multiset.sum_count_eq_card (s := Finset.univ) (m := (r.items.map Prod.fst : Multiset ι))
      fun c _ => Finset.mem_univ c
    simpa [unread] using this
  calc r.items.length = ∑ c, r.unread c := hsum.symm
    _ ≤ ∑ _c : ι, n := Finset.sum_le_sum fun c _ => h c
    _ = n * Fintype.card ι := by simp [Nat.mul_comm]

/-! ### Records of another type -/

def map {β : Type} (f : α → β) (r : RingBuf ι α cap) : RingBuf ι β cap :=
  ⟨r.items.map fun x => (x.1, f x.2), by rw [List.length_map]; exact r.length_le⟩

omit [DecidableEq ι] in
theorem push_map {β : Type} (f : α → β) (r : RingBuf ι α cap) (c : ι) (a : α) :
    (r.map f).push c (f a) = (r.push c a).map (map f) := by
  unfold push
  by_cases h : r.items.length < cap
  · rw [dif_pos h, dif_pos (by rw [map, List.length_map]; exact h)]
    simp [map]
  · rw [dif_neg h, dif_neg (by rw [map, List.length_map]; exact h)]
    rfl

omit [DecidableEq ι] in
theorem pop_map {β : Type} (f : α → β) (r : RingBuf ι α cap) :
    (r.map f).pop = r.pop.map fun x => (f x.1, x.2.map f) := by
  obtain ⟨items, hle⟩ := r
  cases items <;> rfl

/-! ### Logs of pushes -/

/-- The records taken. -/
def taken (sent : List (α × Bool)) : List α := (sent.filter Prod.snd).map Prod.fst

/-- A record is refused only behind `cap` others. -/
def RefusedWhenFull (cap : Nat) (sent : List (α × Bool)) : Prop :=
  ∀ pre a post, sent = pre ++ (a, false) :: post → cap ≤ (taken pre).length

theorem taken_append (xs ys : List (α × Bool)) : taken (xs ++ ys) = taken xs ++ taken ys := by
  simp [taken]

theorem taken_sublist (sent : List (α × Bool)) : (taken sent).Sublist (sent.map Prod.fst) :=
  List.filter_sublist.map _

/-- Nothing is refused of what the ring can hold. -/
theorem RefusedWhenFull.taken_eq {sent : List (α × Bool)} (h : RefusedWhenFull cap sent) (hlen : sent.length ≤ cap) :
    taken sent = sent.map Prod.fst := by
  have hall : ∀ x ∈ sent, x.2 = true := by
    rintro ⟨a, b⟩ hx
    by_contra hb
    obtain rfl : b = false := by simpa using hb
    obtain ⟨pre, post, rfl⟩ := List.append_of_mem hx
    have hfull := h pre a post rfl
    have htaken : (taken pre).length ≤ pre.length := by
      rw [taken, List.length_map]
      exact List.length_filter_le ..
    rw [List.length_append, List.length_cons] at hlen
    omega
  rw [taken, List.filter_eq_self.2 hall]

theorem RefusedWhenFull.append {xs ys : List (α × Bool)} (h : RefusedWhenFull cap xs)
    (hfull : ∀ a, (a, false) ∈ ys → cap ≤ (taken xs).length) : RefusedWhenFull cap (xs ++ ys) := by
  intro pre a post hsplit
  rcases List.append_eq_append_iff.1 hsplit with ⟨mid, rfl, rfl⟩ | ⟨mid, rfl, hmid⟩
  · rw [taken_append, List.length_append]
    have := hfull a (by simp)
    omega
  · rcases mid with _ | ⟨x, mid⟩
    · rw [List.nil_append] at hmid
      have := hfull a (hmid ▸ List.mem_cons_self)
      rwa [List.append_nil] at this
    · obtain ⟨rfl, -⟩ := List.cons_eq_cons.1 hmid
      exact h pre a mid rfl

end RingBuf
