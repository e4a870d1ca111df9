import RedisTracer.Symbolizer

/-!
# The nearest symbol

A lookup at an address that two symbols share may find the first of them. The symbol after it is then
not above the address, and the name is lost: the check meant for gaps rejects a hit.
-/

namespace RedisTracer

open BinarySearch

variable {search : BinarySearch Nat} {syms : SymTable} {x : UInt64}

abbrev addrOf (s : UInt64 × String) : Nat := s.1.toNat

/-- Where the table has an address at most `x`, `r` is the name of a symbol at the greatest one; where it
has none, `r` is the fallback. -/
def NamesNearest (syms : SymTable) (x : UInt64) (named : String → String) (fallback r : String) : Prop :=
  ((∃ s ∈ syms, s.1 ≤ x) → ∃ s, IsFloor addrOf syms x.toNat s ∧ r = named s.2) ∧
    ((∀ s ∈ syms, x < s.1) → r = fallback)

/-- No two symbols share the address `x`, or one there is named like the fallback. -/
def Unaliased (syms : SymTable) (x : UInt64) (unnamed : String) : Prop :=
  (syms.map Prod.fst).count x ≤ 1 ∨ (x, unnamed) ∈ syms

/-! ### One lookup -/

theorem nearestSymbol_of_ok {i : Nat} (h : search.byKey addrOf syms x.toNat = .ok i) :
    nearestSymbol search syms x = syms[i]?.bind fun s =>
      if x ≥ s.1 ∧ x < (syms[i + 1]?.map Prod.fst).getD u64Max then some s.2 else none := by
  unfold nearestSymbol
  rw [h]
  rfl

theorem nearestSymbol_of_succ {i : Nat} (h : search.byKey addrOf syms x.toNat = .error (i + 1)) :
    nearestSymbol search syms x = syms[i]?.bind fun s =>
      if x ≥ s.1 ∧ x < (syms[i + 1]?.map Prod.fst).getD u64Max then some s.2 else none := by
  unfold nearestSymbol
  rw [h]
  rfl

theorem nearestSymbol_of_zero (h : search.byKey addrOf syms x.toNat = .error 0) :
    nearestSymbol search syms x = none := by
  unfold nearestSymbol
  rw [h]
  rfl

/-- What a lookup can do: name a nearest symbol, find nothing, or hit the first of two symbols at `x`. -/
theorem nearestSymbol_cases (search : BinarySearch Nat) (hs : SortedBy addrOf syms) (hx : x < u64Max) :
    (∃ s, IsFloor addrOf syms x.toNat s ∧ nearestSymbol search syms x = some s.2) ∨
      (nearestSymbol search syms x = none ∧ ∀ s ∈ syms, x < s.1) ∨
      (nearestSymbol search syms x = none ∧
        ∃ i s t, syms[i]? = some s ∧ syms[i + 1]? = some t ∧ s.1 = x ∧ t.1 = x) := by
  rcases hsearch : search.byKey addrOf syms x.toNat with i | i
  · cases i with
    | zero =>
      refine .inr (.inl ⟨nearestSymbol_of_zero hsearch, fun s hmem => ?_⟩)
      exact UInt64.lt_iff_toNat_lt.2 (lt_of_error_zero hs hsearch s hmem)
    | succ i =>
      obtain ⟨s, hget, hlt, hfloor, hnext⟩ := floor_of_error_succ hs hsearch
      refine .inl ⟨s, hfloor, ?_⟩
      have hbelow : x < (syms[i + 1]?.map Prod.fst).getD u64Max := by
        cases ht : syms[i + 1]? with
        | none => exact hx
        | some t => exact UInt64.lt_iff_toNat_lt.2 (hnext t ht)
      rw [nearestSymbol_of_succ hsearch, hget]
      exact if_pos ⟨UInt64.le_iff_toNat_le.2 (Nat.le_of_lt hlt), hbelow⟩
  · obtain ⟨s, hget, hkey, hfloor⟩ := floor_of_ok hs hsearch
    have hsx : s.1 = x := UInt64.toNat_inj.1 hkey
    rw [nearestSymbol_of_ok hsearch, hget]
    by_cases hbelow : x < (syms[i + 1]?.map Prod.fst).getD u64Max
    · exact .inl ⟨s, hfloor, if_pos ⟨UInt64.le_of_eq hsx, hbelow⟩⟩
    · refine .inr (.inr ⟨if_neg fun h => hbelow h.2, i, s, ?_⟩)
      cases ht : syms[i + 1]? with
      | none => rw [ht] at hbelow; exact absurd hx hbelow
      | some t =>
        rw [ht] at hbelow
        refine ⟨t, hget, rfl, hsx, ?_⟩
        have hle : addrOf s ≤ addrOf t := le_of_getElem? hs hget ht (Nat.le_succ i)
        have hge : t.1 ≤ x := UInt64.not_lt.1 hbelow
        rw [UInt64.le_iff_toNat_le] at hge
        exact UInt64.toNat_inj.1 (by rw [← hsx] at hge ⊢; exact Nat.le_antisymm hge hle)

/-! ### Repeated addresses -/

theorem count_of_adjacent {i : Nat} {s t : UInt64 × String} (hs : syms[i]? = some s)
    (ht : syms[i + 1]? = some t) (hsx : s.1 = x) (htx : t.1 = x) : ¬ (syms.map Prod.fst).count x ≤ 1 := by
  have hdrop : syms.drop i = s :: t :: syms.drop (i + 2) := by
    rw [List.drop_eq_getElem?_toList_append, List.drop_eq_getElem?_toList_append, hs, ht]
    rfl
  have hle : ((syms.drop i).map Prod.fst).count x ≤ (syms.map Prod.fst).count x :=
    ((List.drop_sublist i syms).map _).count_le x
  rw [hdrop, List.map_cons, List.map_cons, hsx, htx, List.count_cons_self, List.count_cons_self] at hle
  omega

theorem first_of_count (hs : SortedBy addrOf syms) (hcount : ¬ (syms.map Prod.fst).count x ≤ 1) :
    nearestSymbol .first syms x = none := by
  have hkeys : [x.toNat, x.toNat].Sublist (syms.map addrOf) := by
    have hinj : Function.Injective UInt64.toNat := fun a b h => UInt64.toNat_inj.1 h
    have hmap : syms.map addrOf = (syms.map Prod.fst).map UInt64.toNat := by rw [List.map_map]; rfl
    have htwo : (List.replicate 2 x.toNat).Sublist (syms.map addrOf) := by
      rw [List.replicate_sublist_iff, hmap, List.count_map_of_injective _ _ hinj]
      omega
    exact htwo
  obtain ⟨i, hi, -, hnext⟩ := first_of_sublist hs.map hkeys
  rw [nearestSymbol_of_ok hi]
  rw [List.getElem?_map] at hnext
  obtain ⟨t, ht, htx⟩ := Option.map_eq_some_iff.1 hnext
  have htx : t.1 = x := UInt64.toNat_inj.1 htx
  cases syms[i]? with
  | none => rfl
  | some s =>
    rw [ht]
    exact if_neg fun h => absurd h.2 (by rw [← htx]; exact UInt64.lt_irrefl _)

/-! ### Both lookups -/

theorem namesNearest_iff {named : String → String} (hinj : Function.Injective named) (unnamed : String)
    (hs : SortedBy addrOf syms) (hx : x < u64Max) :
    (∀ search, NamesNearest syms x named (named unnamed)
      (named ((nearestSymbol search syms x).getD unnamed))) ↔ Unaliased syms x unnamed := by
  constructor
  · intro hall
    refine or_iff_not_imp_left.2 fun hcount => ?_
    have hmem : x ∈ syms.map Prod.fst := List.count_pos_iff.1 (by omega)
    obtain ⟨t, ht, htx⟩ := List.mem_map.1 hmem
    obtain ⟨s, ⟨hs', hle, hmax⟩, hname⟩ := (hall .first).1 ⟨t, ht, UInt64.le_of_eq htx⟩
    rw [first_of_count hs hcount] at hname
    -- the greatest address at most `x` is `x` itself
    have hge : x.toNat ≤ addrOf s := by
      have := hmax t ht (by rw [addrOf, htx])
      rwa [addrOf, htx] at this
    have hsx : s = (x, unnamed) := Prod.ext (UInt64.toNat_inj.1 (Nat.le_antisymm hle hge)) (hinj hname).symm
    exact hsx ▸ hs'
  · intro hun search
    rcases nearestSymbol_cases search hs hx with ⟨s, hfloor, hname⟩ | ⟨hnone, hgt⟩ | ⟨hnone, i, s, t, h, h', hsx, htx⟩
    · rw [hname]
      refine ⟨fun _ => ⟨s, hfloor, rfl⟩, fun hgt => ?_⟩
      have hlt := UInt64.lt_iff_toNat_lt.1 (hgt s hfloor.1)
      exact absurd hfloor.2.1 (Nat.not_le_of_lt hlt)
    · rw [hnone]
      exact ⟨fun ⟨s, hmem, hle⟩ => absurd (hgt s hmem) (UInt64.not_lt.2 hle), fun _ => rfl⟩
    · rw [hnone]
      have hmem : (x, unnamed) ∈ syms := hun.resolve_left (count_of_adjacent h h' hsx htx)
      refine ⟨fun _ => ⟨_, ⟨hmem, Nat.le_refl _, fun b _ hb => hb⟩, rfl⟩, fun _ => rfl⟩

theorem resolveKernel_eq (search : BinarySearch Nat) (ksyms : SymTable) (ip : UInt64) :
    resolveKernel search ksyms ip = "[k] " ++ (nearestSymbol search ksyms ip).getD s!"0x{hex ip}" := by
  unfold resolveKernel
  cases nearestSymbol search ksyms ip with
  | some name => rfl
  | none => rfl

theorem nearest_lookup_iff (path : String) (hs : SortedBy addrOf syms) (hx : x < u64Max) :
    ((∀ search, NamesNearest syms x (fun name => s!"[k] {name}") s!"[k] 0x{hex x}"
        (resolveKernel search syms x)) ↔ Unaliased syms x s!"0x{hex x}") ∧
      ((∀ search, NamesNearest syms x id s!"{fileName path}!+0x{hex x}" (symbolStep search syms x path)) ↔
        Unaliased syms x s!"{fileName path}!+0x{hex x}") := by
  constructor
  · simp only [resolveKernel_eq]
    exact namesNearest_iff (fun a b h => String.append_right_inj _ |>.1 h) _ hs hx
  · exact namesNearest_iff Function.injective_id _ hs hx

/-- A symbol and its alias. -/
def aliases : SymTable := [(16, "memcpy"), (16, "memmove")]

theorem nearest_lookup_iff_gap :
    let syms := aliases ++ [(32, "free")]
    let path := "/bin/server"
    (∀ search, NamesNearest syms 18 (fun name => s!"[k] {name}") s!"[k] 0x{hex 18}" (resolveKernel search syms 18)) ∧
      ∀ search, NamesNearest syms 18 id s!"{fileName path}!+0x{hex 18}" (symbolStep search syms 18 path) := by
  have hsorted : SortedBy addrOf (aliases ++ [(32, "free")]) := by unfold SortedBy; decide
  obtain ⟨hkernel, huser⟩ := nearest_lookup_iff "/bin/server" hsorted (x := 18) (by decide)
  exact ⟨hkernel.2 (.inl (by decide)), huser.2 (.inl (by decide))⟩

theorem not_nearest_lookup : ¬ ∀ (search : BinarySearch Nat) (syms : SymTable) (x : UInt64) (path : String),
    SortedBy addrOf syms → x < u64Max →
      NamesNearest syms x (fun name => s!"[k] {name}") s!"[k] 0x{hex x}" (resolveKernel search syms x) ∧
        NamesNearest syms x id s!"{fileName path}!+0x{hex x}" (symbolStep search syms x path) := by
  intro hall
  have hsorted : SortedBy addrOf aliases := List.pairwise_pair.2 (Nat.le_refl _)
  obtain ⟨s, hfloor, hname⟩ := (hall .first aliases 16 "/bin/server" hsorted (by decide)).1.1
    ⟨_, List.mem_cons_self, by decide⟩
  have hrun : resolveKernel .first aliases 16 = "[k] 0x10" := by decide
  rw [hrun] at hname
  rcases List.mem_pair.1 hfloor.1 with rfl | rfl
  · revert hname
    decide
  · revert hname
    decide

end RedisTracer
