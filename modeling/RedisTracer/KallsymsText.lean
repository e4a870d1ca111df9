import RedisTracer.MapsText
import RedisTracer.Nearest

/-!
# Reading `/proc/kallsyms`

The lines as the kernel writes them: a symbol of a module names the module in brackets after a tab, which
stays in its name. The sort is stable, so of several symbols at one address a lookup above it names the
last one listed.
-/

namespace RedisTracer

open Ascii Text Utf8 BinarySearch

/-- A line of `/proc/kallsyms`. -/
structure Ksym where
  addr : UInt64
  type : Char
  name : List Char
  owner : Option (List Char)
  type_word : isWhitespace type = false
  name_ne : name ≠ []
  name_word : ∀ c ∈ name, isWhitespace c = false
  owner_word : ∀ m ∈ owner, ∀ c ∈ m, isWhitespace c = false

namespace Ksym

def tag (s : Ksym) : List Char :=
  match s.owner with
  | none => []
  | some m => '\t' :: '[' :: (m ++ [']'])

/-- What `load_kallsyms` takes for the name. -/
def label (s : Ksym) : String := String.ofList (s.name ++ s.tag)

def line (s : Ksym) : List Char := padded 16 16 s.addr.toNat ++ ' ' :: s.type :: ' ' :: (s.name ++ s.tag)

def entry (s : Ksym) : UInt64 × String := (s.addr, s.label)

end Ksym

def kallsymsText (syms : List Ksym) : List UInt8 := encode ((syms.map Ksym.line).flatMap fun l => l ++ ['\n'])

abbrev ksymAddr (s : Ksym) : Nat := s.addr.toNat

/-- The name of the kernel address `ip`: the symbol at it or, between two addresses, the last one listed at
the greatest address below. -/
structure KernelNamed (syms : List Ksym) (ip : UInt64) (name : String) : Prop where
  hit : ∀ s ∈ syms, s.addr = ip → syms.countP (fun t => t.addr = ip) = 1 → name = s!"[k] {s.label}"
  below : (∃ s ∈ syms, s.addr < ip) → (∀ s ∈ syms, s.addr ≠ ip) →
    ∃ s, IsLastFloor ksymAddr syms ip.toNat s ∧ name = s!"[k] {s.label}"
  unnamed : (∀ s ∈ syms, ip < s.addr) → name = s!"[k] 0x{hex ip}"

variable {s : Ksym} {syms : List Ksym} {env : Machine} {ip : UInt64}

/-! ### One line -/

theorem label_facts (s : Ksym) : ∀ c ∈ s.name ++ s.tag, c ≠ ' ' ∧ c ≠ '\n' ∧ c ≠ '\r' := by
  have hword : ∀ c, isWhitespace c = false → c ≠ ' ' ∧ c ≠ '\n' ∧ c ≠ '\r' := by
    intro c hc
    refine ⟨?_, ?_, ?_⟩
    · rintro rfl
      cases hc
    · rintro rfl
      cases hc
    · rintro rfl
      cases hc
  intro c hc
  rcases List.mem_append.1 hc with hc | hc
  · exact hword c (s.name_word c hc)
  · unfold Ksym.tag at hc
    split at hc
    · cases hc
    · rename_i m hm
      rcases List.mem_cons.1 hc with rfl | hc
      · decide
      · rcases List.mem_cons.1 hc with rfl | hc
        · decide
        · rcases List.mem_append.1 hc with hc | hc
          · exact hword c (s.owner_word m hm c hc)
          · rw [List.mem_singleton.1 hc]
            decide

theorem addr_facts (n : Nat) : ∀ c ∈ padded 16 16 n, c ≠ ' ' ∧ c ≠ '\n' := by
  intro c hc
  have halnum : c.isAlphanum = true := isAlphanum_of_mem_padded (by omega) (by omega) hc
  constructor
  · rintro rfl
    cases halnum
  · rintro rfl
    cases halnum

theorem kallsymsLine_line (s : Ksym) : kallsymsLine s.line = some s.entry := by
  have haddr : ' ' ∉ padded 16 16 s.addr.toNat := fun h => (addr_facts _ _ h).1 rfl
  have htype : ' ' ∉ [s.type] := by
    intro h
    have hword := s.type_word
    rw [← List.mem_singleton.1 h] at hword
    cases hword
  have hlabel : ' ' ∉ s.name ++ s.tag := fun h => (label_facts s _ h).1 rfl
  have hne : s.name ++ s.tag ≠ [] := by simp [s.name_ne]
  have hsplit : s.line.splitOn ' ' = [padded 16 16 s.addr.toNat, [s.type], s.name ++ s.tag] := by
    rw [Ksym.line, List.splitOn_append_cons_self_of_not_mem haddr]
    show _ :: ([s.type] ++ ' ' :: (s.name ++ s.tag)).splitOn ' ' = _
    rw [List.splitOn_append_cons_self_of_not_mem htype, List.splitOn_eq_singleton hlabel]
  have hhex : parseHex (padded 16 16 s.addr.toNat) = some s.addr := by
    rw [parseHex, fromStrRadix_padded (by omega) (by omega)]
    simp [s.addr.toNat_lt]
  unfold kallsymsLine
  rw [hsplit]
  dsimp only
  rw [if_neg (by simpa using hne), hhex]
  rfl

theorem stripCr_line (s : Ksym) : stripCr s.line = s.line := by
  refine if_neg fun hlast => ?_
  have hne : s.name ++ s.tag ≠ [] := by simp [s.name_ne]
  have hmem : '\r' ∈ s.name ++ s.tag := by
    rw [Ksym.line, List.getLast?_append_cons, List.getLast?_cons_cons,
      List.getLast?_cons_of_ne_nil (by simp), List.getLast?_cons_of_ne_nil hne] at hlast
    exact List.mem_of_getLast? hlast
  exact (label_facts s _ hmem).2.2 rfl

theorem newline_not_mem_line (s : Ksym) : '\n' ∉ s.line := by
  intro hmem
  rcases List.mem_append.1 hmem with hmem | hmem
  · exact (addr_facts _ _ hmem).2 rfl
  · rcases List.mem_cons.1 hmem with h | hmem
    · cases h
    · rcases List.mem_cons.1 hmem with h | hmem
      · have hword := s.type_word
        rw [← h] at hword
        cases hword
      · rcases List.mem_cons.1 hmem with h | hmem
        · cases h
        · exact (label_facts s _ hmem).2.1 rfl

/-! ### The table -/

theorem loadKallsyms_eq (hread : env.read (components "/proc/kallsyms") = some (kallsymsText syms)) :
    loadKallsyms env = (syms.map Ksym.entry).mergeSort fun a b => a.1 ≤ b.1 := by
  have htext : readToString env "/proc/kallsyms" =
      some (String.ofList ((syms.map Ksym.line).flatMap fun l => l ++ ['\n'])) := by
    rw [readToString, hread, Option.bind_some, utf8?_eq_some_iff, String.toList_ofList]
    rfl
  have hlines : ∀ l ∈ syms.map Ksym.line, '\n' ∉ l := by
    intro l hl
    obtain ⟨s, -, rfl⟩ := List.mem_map.1 hl
    exact newline_not_mem_line s
  rw [loadKallsyms, htext, Option.getD_some, String.toList_ofList, lines_flatMap _ hlines, List.map_map,
    List.filterMap_map]
  congr 1
  rw [← List.filterMap_eq_map]
  refine List.filterMap_congr fun s _ => ?_
  show kallsymsLine (stripCr s.line) = _
  rw [stripCr_line, kallsymsLine_line]
  rfl

theorem filter_addr_mergeSort (table : SymTable) (a : Nat) :
    (table.mergeSort fun s t => s.1 ≤ t.1).filter (fun s => addrOf s = a) =
      table.filter fun s => addrOf s = a := by
  refine filter_mergeSort (fun s t u hst htu => ?_) (fun s t => ?_) (fun s t hs ht => ?_) table
  · exact decide_eq_true (UInt64.le_trans (of_decide_eq_true hst) (of_decide_eq_true htu))
  · simpa using UInt64.le_total s.1 t.1
  · have haddr : s.1 = t.1 := UInt64.toNat_inj.1 ((of_decide_eq_true hs).trans (of_decide_eq_true ht).symm)
    exact decide_eq_true (UInt64.le_of_eq haddr)

/-! ### The name -/

section
variable (hread : env.read (components "/proc/kallsyms") = some (kallsymsText syms)) (hip : ip < u64Max)
include hread

theorem mem_loadKallsyms {e : UInt64 × String} : e ∈ loadKallsyms env ↔ ∃ s ∈ syms, s.entry = e := by
  rw [loadKallsyms_eq hread, List.mem_mergeSort, List.mem_map]

include hip

theorem nearest_last_listed (hbelow : ∃ s ∈ syms, s.addr < ip) (hne : ∀ s ∈ syms, s.addr ≠ ip) :
    ∃ s, IsLastFloor ksymAddr syms ip.toNat s ∧
      nearestSymbol env.search (loadKallsyms env) ip = some s.label := by
  have hsorted := loadKallsyms_sorted env
  rcases hsearch : env.search.byKey addrOf (loadKallsyms env) ip.toNat with i | i
  · cases i with
    | zero =>
      obtain ⟨s, hs, hlt⟩ := hbelow
      have hgt := lt_of_error_zero hsorted hsearch s.entry ((mem_loadKallsyms hread).2 ⟨s, hs, rfl⟩)
      exact absurd (UInt64.lt_iff_toNat_lt.1 hlt) (Nat.lt_asymm hgt)
    | succ i =>
      have hstable : ∀ a, (loadKallsyms env).filter (fun s => addrOf s = a) =
          (syms.map Ksym.entry).filter fun s => addrOf s = a := by
        intro a
        rw [loadKallsyms_eq hread, filter_addr_mergeSort]
      obtain ⟨e, hget, hlt, hentry, hnext⟩ := lastFloor_of_error_succ hsorted hstable hsearch
      obtain ⟨s, rfl, hlast⟩ := hentry.of_map
      refine ⟨s, hlast, ?_⟩
      have hgap : ip < ((loadKallsyms env)[i + 1]?.map Prod.fst).getD u64Max := by
        cases ht : (loadKallsyms env)[i + 1]? with
        | none => exact hip
        | some t => exact UInt64.lt_iff_toNat_lt.2 (hnext t ht)
      rw [nearestSymbol_of_succ hsearch, hget]
      exact if_pos ⟨UInt64.le_iff_toNat_le.2 (Nat.le_of_lt hlt), hgap⟩
  · obtain ⟨e, hget, hkey, -⟩ := floor_of_ok hsorted hsearch
    obtain ⟨s, hs, rfl⟩ := (mem_loadKallsyms hread).1 (List.mem_of_getElem? hget)
    exact absurd (UInt64.toNat_inj.1 hkey) (hne s hs)

theorem nearest_only (hs : s ∈ syms) (haddr : s.addr = ip) (honly : syms.countP (fun t => t.addr = ip) = 1) :
    nearestSymbol env.search (loadKallsyms env) ip = some s.label := by
  have hmem : s.entry ∈ loadKallsyms env := (mem_loadKallsyms hread).2 ⟨s, hs, rfl⟩
  rcases nearestSymbol_cases env.search (loadKallsyms_sorted env) hip with
    ⟨e, hfloor, hname⟩ | ⟨-, hgt⟩ | ⟨-, i, e, e', he, he', hex, hex'⟩
  · obtain ⟨t, ht, rfl⟩ := (mem_loadKallsyms hread).1 hfloor.1
    have htaddr : t.addr = ip := by
      have hge : ip.toNat ≤ t.addr.toNat := haddr ▸ hfloor.2.2 _ hmem (Nat.le_of_eq (congrArg _ haddr))
      exact UInt64.toNat_inj.1 (Nat.le_antisymm hfloor.2.1 hge)
    rw [hname]
    -- the only element of the symbols at `ip`
    rw [List.countP_eq_length_filter] at honly
    obtain ⟨u, hu⟩ := List.length_eq_one_iff.1 honly
    have hmemu : ∀ v ∈ syms, v.addr = ip → v = u := by
      intro v hv hvaddr
      refine List.mem_singleton.1 (hu ▸ List.mem_filter.2 ⟨hv, decide_eq_true hvaddr⟩)
    rw [hmemu t ht htaddr, hmemu s hs haddr]
    rfl
  · exact absurd (hgt _ hmem) (by rw [← haddr]; exact UInt64.lt_irrefl _)
  · refine absurd ?_ (count_of_adjacent he he' hex hex')
    rw [loadKallsyms_eq hread, ((List.mergeSort_perm _ _).map Prod.fst).count_eq, List.map_map, List.count,
      List.countP_map]
    refine Nat.le_of_eq (Eq.trans ?_ honly)
    exact List.countP_congr fun t _ => by simp [Ksym.entry]

theorem kernelNamed : KernelNamed syms ip (resolveKernel env.search (loadKallsyms env) ip) := by
  rw [resolveKernel_eq]
  refine ⟨fun s hs haddr honly => ?_, fun hbelow hne => ?_, fun hgt => ?_⟩
  · rw [nearest_only hread hip hs haddr honly]
    rfl
  · obtain ⟨s, hlast, hname⟩ := nearest_last_listed hread hip hbelow hne
    refine ⟨s, hlast, ?_⟩
    rw [hname]
    rfl
  · have hnone : nearestSymbol env.search (loadKallsyms env) ip = none := by
      rcases nearestSymbol_cases env.search (loadKallsyms_sorted env) hip with
        ⟨e, hfloor, -⟩ | ⟨hnone, -⟩ | ⟨hnone, -⟩
      · obtain ⟨t, ht, rfl⟩ := (mem_loadKallsyms hread).1 hfloor.1
        exact absurd (UInt64.lt_iff_toNat_lt.1 (hgt t ht)) (Nat.not_lt_of_le hfloor.2.1)
      · exact hnone
      · exact hnone
    rw [hnone]
    rfl

end

/-- Where all the addresses are hidden, the last symbol names every frame. -/
theorem KernelNamed.hidden {name : String} (h : KernelNamed syms ip name) (hzero : ∀ t ∈ syms, t.addr = 0)
    (hlast : syms.getLast? = some s) (hne : ip ≠ 0) : name = s!"[k] {s.label}" := by
  have hpos : (0 : UInt64) < ip := UInt64.pos_iff_ne_zero.2 hne
  have hmem : s ∈ syms := List.mem_of_getLast? hlast
  obtain ⟨s', ⟨before, after, hsplit, -, -, hafter⟩, hname⟩ := h.below
    ⟨s, hmem, by rw [hzero s hmem]; exact hpos⟩ fun t ht => by rw [hzero t ht]; exact hne.symm
  cases after with
  | nil =>
    rw [hsplit, List.getLast?_concat] at hlast
    rw [hname, Option.some.inj hlast]
  | cons t after =>
    -- nothing after the last of the greatest address has an address as great
    have ht : t ∈ syms := by
      rw [hsplit]
      simp
    have hs' : s' ∈ syms := by
      rw [hsplit]
      simp
    have hlt := hafter t List.mem_cons_self (by rw [ksymAddr, hzero t ht]; exact Nat.zero_le _)
    rw [ksymAddr, ksymAddr, hzero t ht, hzero s' hs'] at hlt
    exact absurd hlt (Nat.lt_irrefl _)

/-- Through the text, the sort and the search, a kernel address gets its symbol. Where the kernel hides
its addresses, every one gets the last symbol of the file. -/
theorem kernel_addresses_named (env : Machine) (syms : List Ksym) (ip : UInt64)
    (hread : env.read (components "/proc/kallsyms") = some (kallsymsText syms)) (hip : ip < u64Max) :
    KernelNamed syms ip (resolveKernel env.search (loadKallsyms env) ip) ∧
      ∀ s, (∀ t ∈ syms, t.addr = 0) → syms.getLast? = some s → ip ≠ 0 →
        resolveKernel env.search (loadKallsyms env) ip = s!"[k] {s.label}" := by
  exact ⟨kernelNamed hread hip, fun s hzero hlast hne => (kernelNamed hread hip).hidden hzero hlast hne⟩

/-- Two symbols of a kernel that hides its addresses, the second of a module. -/
def hiddenKsyms : List Ksym :=
  [⟨0, 'T', ['a'], none, rfl, by decide, List.forall_mem_singleton.2 rfl, nofun⟩,
    ⟨0, 't', ['b'], some ['m'], rfl, by decide, List.forall_mem_singleton.2 rfl, by
      rintro _ ⟨⟩
      exact List.forall_mem_singleton.2 rfl⟩]

theorem kernel_addresses_named_hidden :
    resolveKernel .first (loadKallsyms (machineWith (kallsymsText hiddenKsyms))) 0xffffffff81000010 =
      "[k] b\t[m]" :=
  (kernel_addresses_named (machineWith (kallsymsText hiddenKsyms)) hiddenKsyms 0xffffffff81000010 rfl
    (by decide)).2 _ (by decide) rfl (by decide)

end RedisTracer
