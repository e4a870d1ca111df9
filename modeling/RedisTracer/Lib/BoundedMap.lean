import Mathlib

/-!
# Maps of bounded capacity

`BoundedMap α β cap` is a finite map that never holds more than `cap` keys. Replacing the value of a
present key always succeeds; a new key is refused when the map is full. Every operation is described
by what it does to `get`, so that a client never looks at the representation.
-/

structure BoundedMap (α β : Type) [DecidableEq α] (cap : Nat) where
  entries : AList fun _ : α => β
  size_le : entries.keys.length ≤ cap

namespace BoundedMap

variable {α β : Type} [DecidableEq α] {cap : Nat}

def empty : BoundedMap α β cap := ⟨∅, Nat.zero_le cap⟩

def get (m : BoundedMap α β cap) (k : α) : Option β := m.entries.lookup k

/-- Room for `k`: the key is present, or the map is not full. -/
def HasRoom (m : BoundedMap α β cap) (k : α) : Prop :=
  k ∈ m.entries ∨ m.entries.keys.length < cap

instance (m : BoundedMap α β cap) (k : α) : Decidable (m.HasRoom k) :=
  inferInstanceAs (Decidable (_ ∨ _))

theorem length_keys_insert (s : AList fun _ : α => β) (k : α) (v : β) :
    (s.insert k v).keys.length = if k ∈ s then s.keys.length else s.keys.length + 1 := by
  rw [AList.keys_insert, List.length_cons]
  split
  · rename_i hk
    have hpos : 0 < s.keys.length := List.length_pos_of_mem (AList.mem_keys.1 hk)
    rw [List.length_erase_of_mem (AList.mem_keys.1 hk)]; omega
  · rename_i hk
    rw [List.erase_of_not_mem fun h => hk (AList.mem_keys.2 h)]

theorem size_insert_le {m : BoundedMap α β cap} {k : α} (v : β) (h : m.HasRoom k) :
    (m.entries.insert k v).keys.length ≤ cap := by
  have hle := m.size_le
  rw [length_keys_insert]
  split
  · exact hle
  · rename_i hk
    exact h.elim (fun hk' => absurd hk' hk) Nat.succ_le_of_lt

def insert? (m : BoundedMap α β cap) (k : α) (v : β) : Option (BoundedMap α β cap) :=
  if h : m.HasRoom k then some ⟨m.entries.insert k v, size_insert_le v h⟩ else none

/-- Insertion with its failure ignored: the map stays as it was. -/
def insert (m : BoundedMap α β cap) (k : α) (v : β) : BoundedMap α β cap :=
  (m.insert? k v).getD m

def remove (m : BoundedMap α β cap) (k : α) : BoundedMap α β cap :=
  ⟨m.entries.erase k, by
    rw [AList.keys_erase]; exact Nat.le_trans (List.length_erase_le ..) m.size_le⟩

def modify (m : BoundedMap α β cap) (k : α) (f : β → β) : BoundedMap α β cap :=
  match m.get k with
  | some v => m.insert k (f v)
  | none => m

variable {m : BoundedMap α β cap} {k k' : α} {v : β}

theorem mem_of_get (h : m.get k = some v) : k ∈ m.entries :=
  AList.lookup_isSome.1 (by rw [get] at h; rw [h]; rfl)

theorem get_eq_none_of_not_hasRoom (h : ¬ m.HasRoom k) : m.get k = none :=
  AList.lookup_eq_none.2 fun hk => h (.inl hk)

theorem hasRoom_of_get (h : m.get k = some v) : m.HasRoom k := .inl (mem_of_get h)

theorem hasRoom_of_forall_get (hcap : 0 < cap) (h : ∀ k, m.get k = none) (k : α) : m.HasRoom k := by
  have hkeys : m.entries.keys = [] := List.eq_nil_iff_forall_not_mem.2 fun k' hk' =>
    AList.lookup_eq_none.1 (h k') (AList.mem_keys.2 hk')
  exact .inr (by rw [hkeys]; exact hcap)

@[simp] theorem get_empty : (empty : BoundedMap α β cap).get k = none := AList.lookup_empty k

theorem get_insert_self (h : m.HasRoom k) : (m.insert k v).get k = some v := by
  simp [insert, insert?, h, get]

theorem get_insert_of_full (h : ¬ m.HasRoom k) : (m.insert k v).get k = none := by
  simpa [insert, insert?, h] using get_eq_none_of_not_hasRoom h

theorem get_insert_of_ne (h : k' ≠ k) : (m.insert k v).get k' = m.get k' := by
  by_cases hk : m.HasRoom k <;> simp [insert, insert?, hk, get, h]

@[simp] theorem get_remove_self : (m.remove k).get k = none := AList.lookup_erase k m.entries

theorem get_remove_of_ne (h : k' ≠ k) : (m.remove k).get k' = m.get k' := AList.lookup_erase_ne h

theorem get_modify_self (f : β → β) : (m.modify k f).get k = (m.get k).map f := by
  unfold modify
  cases h : m.get k with
  | none => simp [h]
  | some v => rw [get_insert_self (hasRoom_of_get h)]; rfl

theorem get_modify_of_ne (f : β → β) (h : k' ≠ k) : (m.modify k f).get k' = m.get k' := by
  unfold modify
  split
  · exact get_insert_of_ne h
  · rfl

end BoundedMap
