import Mathlib

/-!
# Folding a list by key

`group init add key as` is the map that takes each `a` of `as` into the entry of `key a`, in order; an
entry starts as `init`. The entry of `k` is the fold of the elements with key `k`, and a counter in it
adds up the weights of these (`counter_foldl`).
-/

namespace GroupFold

variable {κ σ α : Type} [DecidableEq κ] {init : σ} {add : σ → α → σ} {key : α → κ}
  {as : List α} {k : κ} {s : σ}

def upsert (init : σ) (add : σ → α → σ) (key : α → κ) (m : AList fun _ : κ => σ) (a : α) :
    AList fun _ : κ => σ :=
  m.insert (key a) (add ((m.lookup (key a)).getD init) a)

def group (init : σ) (add : σ → α → σ) (key : α → κ) (as : List α) : AList fun _ : κ => σ :=
  as.foldl (upsert init add key) ∅

def ofKey (key : α → κ) (k : κ) (as : List α) : List α := as.filter fun a => key a = k

theorem lookup_upsert (m : AList fun _ : κ => σ) (a : α) :
    (upsert init add key m a).lookup k =
      if key a = k then some (add ((m.lookup k).getD init) a) else m.lookup k := by
  split
  · rename_i hk; subst hk; exact AList.lookup_insert _
  · rename_i hk; exact AList.lookup_insert_ne (Ne.symm hk)

theorem lookup_foldl (m : AList fun _ : κ => σ) :
    (as.foldl (upsert init add key) m).lookup k =
      (ofKey key k as).foldl (fun o a => some (add (o.getD init) a)) (m.lookup k) := by
  induction as generalizing m with
  | nil => rfl
  | cons a as ih =>
    rw [List.foldl_cons, ih, lookup_upsert, ofKey, ofKey, List.filter_cons]
    by_cases hk : key a = k <;> simp [hk]

theorem foldl_some (s : σ) :
    as.foldl (fun o a => some (add (o.getD init) a)) (some s) = some (as.foldl add s) := by
  induction as generalizing s with
  | nil => rfl
  | cons a as ih => exact ih (add s a)

theorem lookup_group : (group init add key as).lookup k =
    if ofKey key k as = [] then none else some ((ofKey key k as).foldl add init) := by
  rw [group, lookup_foldl, AList.lookup_empty]
  split
  · rename_i h; rw [h]; rfl
  · rename_i h
    obtain ⟨a, l, hl⟩ := List.exists_cons_of_ne_nil h
    rw [hl]; exact foldl_some _

theorem ofKey_eq_nil : ofKey key k as = [] ↔ ¬ ∃ a ∈ as, key a = k := by
  simp [ofKey, List.filter_eq_nil_iff]

theorem length_ofKey (key : α → κ) (k : κ) (as : List α) : (ofKey key k as).length = (as.map key).count k := by
  rw [ofKey, ← List.countP_eq_length_filter, List.count, List.countP_map]
  exact List.countP_congr fun a _ => by simp

theorem exists_lookup_group :
    (∃ s, (group init add key as).lookup k = some s) ↔ ∃ a ∈ as, key a = k := by
  rw [lookup_group]
  by_cases h : ofKey key k as = []
  · simp only [if_pos h, reduceCtorEq, exists_false, ofKey_eq_nil.1 h]
  · simp only [if_neg h, Option.some.injEq, exists_eq']
    exact ⟨fun _ => Decidable.not_not.1 fun hno => h (ofKey_eq_nil.2 hno), fun _ => trivial⟩

theorem mem_keys_group : k ∈ (group init add key as).keys ↔ k ∈ as.map key := by
  rw [← AList.mem_keys, ← AList.lookup_isSome, Option.isSome_iff_exists, exists_lookup_group,
    List.mem_map]

theorem eq_of_lookup_group (h : (group init add key as).lookup k = some s) :
    s = (ofKey key k as).foldl add init := by
  rw [lookup_group] at h
  split at h
  · cases h
  · exact (Option.some.inj h).symm

/-- A counter to which every element adds its weight. -/
theorem counter_foldl (n : σ → UInt64) (w : α → Nat)
    (hadd : ∀ s a, n (add s a) = n s + UInt64.ofNat (w a)) (s : σ) (as : List α) :
    n (as.foldl add s) = n s + UInt64.ofNat (as.map w).sum := by
  induction as generalizing s with
  | nil => exact (UInt64.add_zero _).symm
  | cons a as ih =>
    rw [List.foldl_cons, ih, hadd, List.map_cons, List.sum_cons, UInt64.ofNat_add, UInt64.add_assoc]

theorem sum_length_ofKey (init : σ) (add : σ → α → σ) (key : α → κ) (as : List α) :
    ((group init add key as).keys.map fun k => (ofKey key k as).length).sum = as.length := by
  have hperm : (group init add key as).keys.Perm (as.map key).dedup :=
    (List.perm_ext_iff_of_nodup (AList.keys_nodup _) (List.nodup_dedup _)).2 fun k => by
      rw [mem_keys_group, List.mem_dedup]
  have hcount : ∀ k, (ofKey key k as).length = (as.map key).count k := by
    intro k
    rw [ofKey, List.count_eq_countP, List.countP_map, List.countP_eq_length_filter]
    congr 2
  rw [List.map_congr_left fun k _ => hcount k, (hperm.map _).sum_eq,
    List.sum_map_count_dedup_eq_length, List.length_map]

/-- A measure that counts the elements of each group sums up to the whole. -/
theorem sum_entries_group (f : σ → Nat)
    (hf : ∀ k s, (group init add key as).lookup k = some s → f s = (ofKey key k as).length) :
    ((group init add key as).entries.map fun e => f e.2).sum = as.length := by
  have hentry : ∀ e ∈ (group init add key as).entries, f e.2 = (ofKey key e.1 as).length :=
    fun e he => hf e.1 e.2 (AList.mem_lookup_iff.2 he)
  rw [List.map_congr_left hentry, ← sum_length_ofKey init add key as, AList.keys, List.keys, List.map_map]; rfl

end GroupFold
