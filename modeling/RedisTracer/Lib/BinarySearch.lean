import Mathlib

/-!
# Binary search on sorted lists

What a library documents of its binary search: on a sorted list it reports an index of the key, any of
them when there are several, or else the index at which the key could be inserted. `first` is one such
search.
-/

/-- `.ok` is the index of a hit, `.error` where the key would go. -/
structure BinarySearch (κ : Type) [LinearOrder κ] where
  search : List κ → κ → Except Nat Nat
  found : ∀ ks k i, ks.Pairwise (· ≤ ·) → search ks k = .ok i → ks[i]? = some k
  absent : ∀ ks k i, ks.Pairwise (· ≤ ·) → search ks k = .error i →
    i ≤ ks.length ∧ (∀ k' ∈ ks.take i, k' < k) ∧ ∀ k' ∈ ks.drop i, k < k'

namespace BinarySearch

variable {κ α : Type} [LinearOrder κ] {f : α → κ} {as : List α} {a : α} {k : κ} {i : Nat}

def byKey (s : BinarySearch κ) (f : α → κ) (as : List α) (k : κ) : Except Nat Nat :=
  s.search (as.map f) k

/-- No element with a key at most `k` has a greater key than `a`. -/
def IsFloor (f : α → κ) (as : List α) (k : κ) (a : α) : Prop :=
  a ∈ as ∧ f a ≤ k ∧ ∀ b ∈ as, f b ≤ k → f b ≤ f a

def SortedBy (f : α → κ) (as : List α) : Prop := as.Pairwise fun a b => f a ≤ f b

theorem SortedBy.map (h : SortedBy f as) : (as.map f).Pairwise (· ≤ ·) := List.pairwise_map.2 h

section
variable {s : BinarySearch κ} (hs : SortedBy f as)
include hs

theorem byKey_ok (h : s.byKey f as k = .ok i) : ∃ a, as[i]? = some a ∧ f a = k := by
  have hget := s.found _ _ _ hs.map h
  rw [List.getElem?_map] at hget
  exact Option.map_eq_some_iff.1 hget

theorem byKey_error (h : s.byKey f as k = .error i) :
    i ≤ as.length ∧ (∀ a ∈ as.take i, f a < k) ∧ ∀ a ∈ as.drop i, k < f a := by
  obtain ⟨hle, htake, hdrop⟩ := s.absent _ _ _ hs.map h
  rw [List.length_map] at hle
  rw [← List.map_take] at htake
  rw [← List.map_drop] at hdrop
  exact ⟨hle, fun a ha => htake _ (List.mem_map_of_mem ha), fun a ha => hdrop _ (List.mem_map_of_mem ha)⟩

theorem le_of_getElem? {j : Nat} {b : α} (hi : as[i]? = some a) (hj : as[j]? = some b) (hij : i ≤ j) :
    f a ≤ f b := by
  obtain ⟨hilt, rfl⟩ := List.getElem?_eq_some_iff.1 hi
  obtain ⟨hjlt, rfl⟩ := List.getElem?_eq_some_iff.1 hj
  rcases Nat.eq_or_lt_of_le hij with rfl | hlt
  · exact le_refl _
  · exact List.pairwise_iff_getElem.1 hs i j hilt hjlt hlt

/-! ### The greatest key at most `k` -/

theorem floor_of_ok (h : s.byKey f as k = .ok i) : ∃ a, as[i]? = some a ∧ f a = k ∧ IsFloor f as k a := by
  obtain ⟨a, hget, rfl⟩ := byKey_ok hs h
  exact ⟨a, hget, rfl, List.mem_of_getElem? hget, le_refl _, fun b _ hb => hb⟩

theorem lt_of_error_zero (h : s.byKey f as k = .error 0) : ∀ b ∈ as, k < f b := (byKey_error hs h).2.2

theorem floor_of_error_succ (h : s.byKey f as k = .error (i + 1)) :
    ∃ a, as[i]? = some a ∧ f a < k ∧ IsFloor f as k a ∧ ∀ b, as[i + 1]? = some b → k < f b := by
  obtain ⟨hle, htake, hdrop⟩ := byKey_error hs h
  have hget : as[i]? = some as[i] := List.getElem?_eq_getElem hle
  have hlt : f as[i] < k := htake _ (List.mem_take_iff_getElem.2 ⟨i, by omega, rfl⟩)
  refine ⟨as[i], hget, hlt, ⟨List.getElem_mem hle, le_of_lt hlt, fun b hb hbk => ?_⟩, fun b hb => ?_⟩
  · obtain ⟨j, hj⟩ := List.getElem?_of_mem hb
    refine le_of_getElem? hs hj hget (Nat.le_of_not_lt fun hij => ?_)
    -- an element after the insertion index has a greater key
    refine absurd (hdrop b (List.mem_of_getElem? (i := j - (i + 1)) ?_)) (not_lt_of_ge hbk)
    rwa [List.getElem?_drop, Nat.add_sub_cancel' hij]
  · refine hdrop b (List.mem_of_getElem? (i := 0) ?_)
    rwa [List.getElem?_drop]

end

/-! ### Stable sorting -/

/-- The last of the elements with the greatest key at most `k`. -/
def IsLastFloor (f : α → κ) (as : List α) (k : κ) (a : α) : Prop :=
  ∃ before after, as = before ++ a :: after ∧ f a ≤ k ∧ (∀ b ∈ before, f b ≤ k → f b ≤ f a) ∧
    ∀ b ∈ after, f b ≤ k → f b < f a

theorem IsLastFloor.of_map {β : Type} {g : β → α} {bs : List β} (h : IsLastFloor f (bs.map g) k a) :
    ∃ b, a = g b ∧ IsLastFloor (fun b => f (g b)) bs k b := by
  obtain ⟨before, after, heq, hle, hbefore, hafter⟩ := h
  obtain ⟨before', rest, rfl, rfl, hrest⟩ := List.map_eq_append_iff.1 heq
  obtain ⟨b, after', rfl, rfl, rfl⟩ := List.map_eq_cons_iff.1 hrest
  exact ⟨b, rfl, before', after', rfl, hle, fun b' hb' => hbefore _ (List.mem_map_of_mem hb'),
    fun b' hb' => hafter _ (List.mem_map_of_mem hb')⟩

theorem filter_mergeSort {le : α → α → Bool} (htrans : ∀ a b c, le a b → le b c → le a c)
    (htotal : ∀ a b, le a b || le b a) {p : α → Bool} (hp : ∀ a b, p a → p b → le a b) (as : List α) :
    (as.mergeSort le).filter p = as.filter p := by
  have hpair : (as.filter p).Pairwise fun a b => le a b = true := by
    refine List.pairwise_of_forall_mem_list fun a ha b hb => ?_
    exact hp a b (List.mem_filter.1 ha).2 (List.mem_filter.1 hb).2
  have hsub := (List.sublist_mergeSort htrans htotal hpair List.filter_sublist).filter p
  rw [List.filter_filter] at hsub
  simp only [Bool.and_self] at hsub
  exact (hsub.eq_of_length ((List.mergeSort_perm as le).filter p).length_eq.symm).symm

/-- Where the key goes after `a`, `a` is the last of its equals before the sorting too. -/
theorem lastFloor_of_error_succ {s : BinarySearch κ} {sorted : List α} (hs : SortedBy f sorted)
    (hstable : ∀ k, sorted.filter (fun a => f a = k) = as.filter fun a => f a = k)
    (h : s.byKey f sorted k = .error (i + 1)) :
    ∃ a, sorted[i]? = some a ∧ f a < k ∧ IsLastFloor f as k a ∧ ∀ b, sorted[i + 1]? = some b → k < f b := by
  obtain ⟨a, hget, hlt, hfloor, hnext⟩ := floor_of_error_succ hs h
  obtain ⟨hi, hval⟩ := List.getElem?_eq_some_iff.1 hget
  have hmem : ∀ b, b ∈ as → b ∈ sorted := by
    intro b hb
    have hb' : b ∈ sorted.filter fun a => f a = f b := by
      rw [hstable]
      exact List.mem_filter.2 ⟨hb, decide_eq_true rfl⟩
    exact (List.mem_filter.1 hb').1
  have hsplit : sorted = sorted.take i ++ a :: sorted.drop (i + 1) := by
    rw [← hval, List.cons_getElem_drop_succ, List.take_append_drop]
  have hdrop : (sorted.drop (i + 1)).filter (fun b => f b = f a) = [] := by
    refine List.filter_eq_nil_iff.2 fun b hb => ?_
    have hgt := (byKey_error hs h).2.2 b hb
    simpa using (hlt.trans hgt).ne'
  have hequals : as.filter (fun b => f b = f a) = (sorted.take i).filter (fun b => f b = f a) ++ [a] := by
    rw [← hstable]
    conv_lhs => rw [hsplit]
    rw [List.filter_append, List.filter_cons_of_pos (by simp), hdrop]
  obtain ⟨l₁, l₂, rfl, -, hl₂⟩ := List.filter_eq_append_iff.1 hequals
  obtain ⟨m₁, m₂, rfl, -, -, hm₂⟩ := List.filter_eq_cons_iff.1 hl₂
  refine ⟨a, hget, hlt, ⟨l₁ ++ m₁, m₂, (List.append_assoc ..).symm, le_of_lt hlt, fun b hb hbk => ?_,
    fun b hb hbk => ?_⟩, hnext⟩
  · refine hfloor.2.2 b (hmem b ?_) hbk
    rw [← List.append_assoc]
    exact List.mem_append_left _ hb
  · have hle : f b ≤ f a := by
      refine hfloor.2.2 b (hmem b ?_) hbk
      exact List.mem_append_right _ (List.mem_append_right _ (List.mem_cons_of_mem _ hb))
    have hne : f b ≠ f a := by simpa using List.filter_eq_nil_iff.1 hm₂ b hb
    exact lt_of_le_of_ne hle hne

/-! ### The first of several equal keys -/

/-- A sorted list is what is below `k` and then what is not. -/
theorem split_sorted (k : κ) {ks : List κ} (hs : ks.Pairwise (· ≤ ·)) :
    ∃ hi, ks = ks.takeWhile (· < k) ++ hi ∧ (∀ a ∈ ks.takeWhile (· < k), a < k) ∧ ∀ a ∈ hi, k ≤ a := by
  refine ⟨ks.dropWhile (· < k), List.takeWhile_append_dropWhile.symm, fun a ha => ?_, fun a ha => ?_⟩
  · simpa using List.mem_takeWhile_imp ha
  · cases hrest : ks.dropWhile (· < k) with
    | nil => rw [hrest] at ha; cases ha
    | cons b rest =>
      have hb : k ≤ b := by
        have hne : ks.dropWhile (· < k) ≠ [] := by simp [hrest]
        have hhead := List.head_dropWhile_not (· < k) hne
        simpa [hrest] using hhead
      have hsort : (b :: rest).Pairwise (· ≤ ·) := hrest ▸ hs.sublist (List.dropWhile_sublist _)
      rw [hrest] at ha
      rcases List.mem_cons.1 ha with rfl | ha
      · exact hb
      · exact le_trans hb ((List.pairwise_cons.1 hsort).1 a ha)

def first : BinarySearch κ where
  search ks k :=
    let i := (ks.takeWhile (· < k)).length
    if ks[i]? = some k then .ok i else .error i
  found ks k i _ h := by
    dsimp only at h
    split at h
    · rename_i hget
      cases h; exact hget
    · cases h
  absent ks k i hs h := by
    dsimp only at h
    split at h
    · cases h
    · rename_i hget
      cases h
      obtain ⟨hi, hks, hlo, hhi⟩ := split_sorted k hs
      generalize ks.takeWhile (· < k) = lo at *
      subst hks
      rw [List.take_left, List.drop_left]
      refine ⟨by simp, hlo, fun a ha => lt_of_le_of_ne (hhi a ha) ?_⟩
      rintro rfl
      -- the key would be the head of what is not below it
      refine hget ?_
      obtain ⟨b, rest, rfl⟩ := List.exists_cons_of_ne_nil (List.ne_nil_of_mem ha)
      have hsort := List.pairwise_cons.1 (List.pairwise_append.1 hs).2.1
      have hb : b ≤ k := by
        rcases List.mem_cons.1 ha with rfl | hmem
        · exact le_refl _
        · exact hsort.1 k hmem
      rw [le_antisymm hb (hhi b List.mem_cons_self)]; simp

/-- Of a repeated key `first` reports an index with the key again behind it. -/
theorem first_of_sublist {ks : List κ} (hs : ks.Pairwise (· ≤ ·)) (h : [k, k].Sublist ks) :
    ∃ i, first.search ks k = .ok i ∧ ks[i]? = some k ∧ ks[i + 1]? = some k := by
  obtain ⟨hi, hks, hlo, hhi⟩ := split_sorted k hs
  have hsort : hi.Pairwise (· ≤ ·) := hs.sublist (by rw [hks]; exact List.sublist_append_right ..)
  have hsub : [k, k].Sublist hi := by
    rw [hks] at h
    obtain ⟨l₁, l₂, happ, hl₁, hl₂⟩ := List.sublist_append_iff.1 h
    cases l₁ with
    | nil => rwa [happ]
    | cons a l₁ =>
      -- nothing before `hi` has the key
      rw [List.cons_append, List.cons.injEq] at happ
      exact absurd (hlo a (hl₁.subset List.mem_cons_self)) (by rw [← happ.1]; exact lt_irrefl _)
  obtain ⟨a, b, rest, rfl⟩ : ∃ a b rest, hi = a :: b :: rest := by
    rcases hi with - | ⟨a, - | ⟨b, rest⟩⟩
    · simp at hsub
    · simpa using hsub.length_le
    · exact ⟨a, b, rest, rfl⟩
  rw [List.pairwise_cons, List.pairwise_cons] at hsort
  have hb : b = k := by
    have hmem : k ∈ b :: rest := by
      rcases List.sublist_cons_iff.1 hsub with hsub | ⟨r, hr, hsub⟩
      · exact hsub.subset List.mem_cons_self
      · rw [List.cons.injEq] at hr
        exact hsub.subset (hr.2 ▸ List.mem_cons_self)
    have hle : b ≤ k := by
      rcases List.mem_cons.1 hmem with rfl | hmem
      · exact le_refl _
      · exact hsort.2.1 k hmem
    exact le_antisymm hle (hhi b (by simp))
  have ha : a = k := le_antisymm (hb ▸ hsort.1 b (by simp)) (hhi a (by simp))
  have hsearch : first.search ks k =
    if ks[(ks.takeWhile (· < k)).length]? = some k then .ok (ks.takeWhile (· < k)).length
    else .error (ks.takeWhile (· < k)).length := rfl
  generalize ks.takeWhile (· < k) = lo at *
  subst hks ha hb
  have hget : (lo ++ b :: b :: rest)[lo.length]? = some b := by simp
  rw [if_pos hget] at hsearch
  exact ⟨lo.length, hsearch, hget, by simp⟩

end BinarySearch
