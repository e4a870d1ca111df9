import RedisTracer.Symbolizer

/-!
# The mapping of an address

The first stage of `resolve` with its indices and its arithmetic checked. In a table of disjoint
intervals the only mapping that can contain an address is the last one that starts at or below it.
-/

namespace RedisTracer

open BinarySearch

def MemMapping.Contains (m : MemMapping) (x : UInt64) : Prop := m.start ≤ x ∧ x < m.endAddr

instance (m : MemMapping) (x : UInt64) : Decidable (m.Contains x) := inferInstanceAs (Decidable (_ ∧ _))

abbrev startOf (m : MemMapping) : Nat := m.start.toNat

/-- Disjoint non-empty intervals in the order of their starts, with offsets that fit a file. -/
structure MappingTable where
  entries : List MemMapping
  sorted : SortedBy startOf entries
  nonempty : ∀ m ∈ entries, m.start < m.endAddr
  disjoint : entries.Pairwise fun m m' => ∀ x, ¬ (m.Contains x ∧ m'.Contains x)
  fits : ∀ m ∈ entries, m.offset.toNat + (m.endAddr.toNat - m.start.toNat) < 2 ^ 64

/-! ### The checked lookup -/

inductive LookupPanic
  | indexOutOfBounds
  | subOverflow
  | addOverflow
deriving DecidableEq, Repr

def mappingAt (mappings : List MemMapping) (i : Nat) : Except LookupPanic MemMapping :=
  match mappings[i]? with
  | some m => .ok m
  | none => .error .indexOutOfBounds

/-- `ip - mapping.start + mapping.offset` -/
def fileOffChecked (m : MemMapping) (ip : UInt64) : Except LookupPanic UInt64 :=
  if ip < m.start then .error .subOverflow
  else if (ip - m.start).toNat + m.offset.toNat < 2 ^ 64 then .ok (ip - m.start + m.offset)
  else .error .addOverflow

def findMappingChecked (search : BinarySearch Nat) (mappings : List MemMapping) (ip : UInt64) :
    Except LookupPanic (Option MemMapping) :=
  match search.byKey startOf mappings ip.toNat with
  | .ok i => some <$> mappingAt mappings i
  | .error i =>
    if i > 0 then do
      let m ← mappingAt mappings (i - 1)
      return if ip ≥ m.start ∧ ip < m.endAddr then some m else none
    else return none

def lookupMappingChecked (search : BinarySearch Nat) (mappings : List MemMapping) (ip : UInt64) :
    Except LookupPanic (Option (UInt64 × String)) := do
  match ← findMappingChecked search mappings ip with
  | none => return none
  | some m => return some (← fileOffChecked m ip, m.path)

variable {table : MappingTable} {search : BinarySearch Nat} {m m' : MemMapping} {ip x : UInt64}

/-! ### At most one mapping -/

theorem MappingTable.eq_of_contains (hm : m ∈ table.entries) (hm' : m' ∈ table.entries)
    (h : m.Contains x) (h' : m'.Contains x) : m' = m := by
  by_contra hne
  have hsymm : Std.Symm fun m m' : MemMapping => ∀ x, ¬ (m.Contains x ∧ m'.Contains x) :=
    ⟨fun _ _ hdisj x hx => hdisj x hx.symm⟩
  exact table.disjoint.forall hm' hm hne x ⟨h', h⟩

theorem MappingTable.contains_start (hm : m ∈ table.entries) : m.Contains m.start :=
  ⟨UInt64.le_refl _, table.nonempty m hm⟩

/-- An address that the last mapping starting at or below it does not contain is in none. -/
theorem MappingTable.eq_of_floor (hfloor : IsFloor startOf table.entries ip.toNat m)
    (hm' : m' ∈ table.entries) (h' : m'.Contains ip) : m' = m := by
  obtain ⟨hm, hle, hmax⟩ := hfloor
  have hstart : m'.Contains m.start := by
    refine ⟨UInt64.le_iff_toNat_le.2 (hmax m' hm' (UInt64.le_iff_toNat_le.1 h'.1)), ?_⟩
    exact UInt64.lt_of_le_of_lt (UInt64.le_iff_toNat_le.2 hle) h'.2
  exact eq_of_contains hm hm' (contains_start hm) hstart

/-! ### No panic -/

theorem fileOffChecked_eq (hm : m ∈ table.entries) (h : m.Contains ip) :
    fileOffChecked m ip = .ok (ip - m.start + m.offset) ∧
      (ip - m.start + m.offset).toNat = ip.toNat - m.start.toNat + m.offset.toNat := by
  have hfits := table.fits m hm
  have hle := UInt64.le_iff_toNat_le.1 h.1
  have hlt := UInt64.lt_iff_toNat_lt.1 h.2
  have hsub : (ip - m.start).toNat = ip.toNat - m.start.toNat := UInt64.toNat_sub_of_le _ _ h.1
  constructor
  · rw [fileOffChecked, if_neg (UInt64.not_lt.2 h.1), if_pos (by omega)]
  · rw [UInt64.toNat_add, hsub]
    exact Nat.mod_eq_of_lt (by omega)

/-- A search that reports an index of a mapping leads to that mapping, checked or not. -/
theorem findMapping_cases (search : BinarySearch Nat) (table : MappingTable) (ip : UInt64) :
    ∃ found, findMappingChecked search table.entries ip = .ok found ∧
      findMapping search table.entries ip = found ∧
      (∀ m, found = some m → m ∈ table.entries ∧ m.Contains ip) ∧
      (found = none → ∀ m ∈ table.entries, ¬ m.Contains ip) := by
  unfold findMappingChecked findMapping mappingAt
  rcases hsearch : search.byKey startOf table.entries ip.toNat with i | i
  · cases i with
    | zero =>
      have hgt := lt_of_error_zero table.sorted hsearch
      refine ⟨none, rfl, rfl, fun m hm => (nomatch hm), fun _ m hm hcontains => ?_⟩
      exact absurd (UInt64.le_iff_toNat_le.1 hcontains.1) (Nat.not_le_of_lt (hgt m hm))
    | succ i =>
      obtain ⟨m, hget, -, hfloor, -⟩ := floor_of_error_succ table.sorted hsearch
      by_cases h : ip ≥ m.start ∧ ip < m.endAddr
      · refine ⟨some m, ?_, ?_, fun m' hm' => ?_, fun hnone => (nomatch hnone)⟩
        · simp [hget, h]
        · simp [hget, h]
        · cases hm'
          exact ⟨hfloor.1, h⟩
      · refine ⟨none, ?_, ?_, fun m' hm' => (nomatch hm'), fun _ m' hm' h' => ?_⟩
        · simp [hget, h]
        · simp only [Nat.succ_pos, if_true, Nat.add_sub_cancel, hget]
          exact Option.filter_some_neg (by simpa using h)
        · exact h (MappingTable.eq_of_floor hfloor hm' h' ▸ h')
  · obtain ⟨m, hget, hkey, hfloor⟩ := floor_of_ok table.sorted hsearch
    refine ⟨some m, ?_, hget, fun m' hm' => ?_, fun hnone => (nomatch hnone)⟩
    · simp [hget]
    · cases hm'
      -- the end needs no check: the mapping is not empty
      have hip : m.start = ip := UInt64.toNat_inj.1 hkey
      exact ⟨hfloor.1, hip ▸ MappingTable.contains_start hfloor.1⟩

theorem findMapping_of_contains (search : BinarySearch Nat) (hm : m ∈ table.entries) (h : m.Contains ip) :
    findMapping search table.entries ip = some m ∧ findMappingChecked search table.entries ip = .ok (some m) := by
  obtain ⟨found, hchecked, hrelease, hsome, hnone⟩ := findMapping_cases search table ip
  cases found with
  | none => exact absurd h (hnone rfl m hm)
  | some m' =>
    obtain ⟨hm', h'⟩ := hsome m' rfl
    rw [MappingTable.eq_of_contains hm hm' h h'] at hchecked hrelease
    exact ⟨hrelease, hchecked⟩

theorem findMapping_of_not_contains (search : BinarySearch Nat) (h : ∀ m ∈ table.entries, ¬ m.Contains ip) :
    findMapping search table.entries ip = none ∧ findMappingChecked search table.entries ip = .ok none := by
  obtain ⟨found, hchecked, hrelease, hsome, -⟩ := findMapping_cases search table ip
  cases found with
  | none => exact ⟨hrelease, hchecked⟩
  | some m => exact absurd (hsome m rfl).2 (h m (hsome m rfl).1)

/-! ### The selected mapping -/

/-- `ip - start + offset`, computed without wrapping. -/
structure Selects (env : Machine) (table : MappingTable) (ip : UInt64) (m : MemMapping) (fileOff : UInt64) :
    Prop where
  checked : lookupMappingChecked env.search table.entries ip = .ok (some (fileOff, m.path))
  release : lookupMapping env.search table.entries ip = some (fileOff, m.path)
  exact : fileOff.toNat = ip.toNat - m.start.toNat + m.offset.toNat

/-- No mapping: the address itself is returned. -/
structure SelectsNone (env : Machine) (table : MappingTable) (ip : UInt64) : Prop where
  checked : lookupMappingChecked env.search table.entries ip = .ok none
  plain : ∀ cache, resolve env table.entries ip cache = (s!"0x{hex ip}", cache)

theorem selects (env : Machine) (hm : m ∈ table.entries) (h : m.Contains ip) :
    Selects env table ip m (ip - m.start + m.offset) := by
  obtain ⟨hrelease, hchecked⟩ := findMapping_of_contains env.search hm h
  obtain ⟨hoff, hexact⟩ := fileOffChecked_eq hm h
  refine ⟨?_, ?_, hexact⟩
  · rw [lookupMappingChecked, hchecked]
    show (do return some (← fileOffChecked m ip, m.path)) = _
    rw [hoff]
    rfl
  · rw [lookupMapping, hrelease]
    rfl

theorem selectsNone (env : Machine) (h : ∀ m ∈ table.entries, ¬ m.Contains ip) : SelectsNone env table ip := by
  obtain ⟨hrelease, hchecked⟩ := findMapping_of_not_contains env.search h
  constructor
  · rw [lookupMappingChecked, hchecked]
    rfl
  · intro cache
    rw [resolve, lookupMapping, hrelease]
    rfl

theorem mapping_lookup (env : Machine) (table : MappingTable) (ip : UInt64) :
    (∀ m ∈ table.entries, m.Contains ip → (∀ m' ∈ table.entries, m'.Contains ip → m' = m) ∧
      ∃ fileOff, Selects env table ip m fileOff) ∧
    ((∀ m ∈ table.entries, ¬ m.Contains ip) → SelectsNone env table ip) :=
  ⟨fun _ hm h => ⟨fun _ hm' h' => MappingTable.eq_of_contains hm hm' h h', _, selects env hm h⟩,
    selectsNone env⟩

/-- Two segments of one file with a gap between them. -/
def twoSegments : MappingTable where
  entries := [⟨16, 32, 0, "/bin/server"⟩, ⟨48, 64, 32, "/bin/server"⟩]
  sorted := List.pairwise_pair.2 (by decide)
  nonempty m hm := by
    rcases List.mem_pair.1 hm with rfl | rfl
    · decide
    · decide
  disjoint := List.pairwise_pair.2 fun _ h => by
    have hlt := UInt64.lt_of_le_of_lt h.2.1 h.1.2
    revert hlt
    decide
  fits m hm := by
    rcases List.mem_pair.1 hm with rfl | rfl
    · decide
    · decide

theorem mapping_lookup_two_segments :
    (∃ fileOff, Selects bareMachine twoSegments 50 ⟨48, 64, 32, "/bin/server"⟩ fileOff) ∧
      SelectsNone bareMachine twoSegments 40 := by
  refine ⟨((mapping_lookup bareMachine twoSegments 50).1 _ (by decide) (by decide)).2,
    (mapping_lookup bareMachine twoSegments 40).2 fun m hm => ?_⟩
  rcases List.mem_pair.1 hm with rfl | rfl
  · decide
  · decide

end RedisTracer
