import RedisTracer.MappingLookup
import RedisTracer.Nearest
import RedisTracer.Folding

/-!
# File offsets and link-time addresses

`resolve` looks up the offset into the file among the symbols' link-time addresses, whatever their
type. The two agree for a segment with `p_vaddr = p_offset`; an executable linked at a fixed base has
none.
-/

namespace RedisTracer

open BinarySearch

structure ProgramHeader where
  pType : UInt32
  pFlags : UInt32
  pOffset : UInt64
  pVaddr : UInt64
  pFilesz : UInt64

/-- `PT_LOAD` with `PF_X` -/
def ProgramHeader.Executable (ph : ProgramHeader) : Prop := ph.pType = 1 ∧ ph.pFlags &&& 1 = 1

/-- An ELF file with its segments, which the symbolizer does not read. -/
structure ElfImage extends Elf where
  programHeaders : List ProgramHeader
  distinct : ((keptSyms toElf).map Prod.fst).Nodup

/-- `STT_FUNC` -/
def Sym.isFunction (sym : Sym) : Prop := sym.stInfo &&& 0xf = 2

/-- A named function that the file defines. -/
structure IsFunction (elf : Elf) (sym : Sym) (name : String) : Prop where
  mem : sym ∈ elf.symtab
  func : sym.isFunction
  defined : sym.stShndx ≠ 0
  named : elf.nameOf sym = some name
  nonempty : name ≠ ""

/-- The function symbol with the greatest address at most `vaddr`. -/
def IsNearestFunction (elf : Elf) (vaddr : Nat) (sym : Sym) (name : String) : Prop :=
  (IsFunction elf sym name ∧ sym.stValue.toNat ≤ vaddr) ∧
    ∀ sym' name', IsFunction elf sym' name' → sym'.stValue.toNat ≤ vaddr →
      sym'.stValue.toNat ≤ sym.stValue.toNat

/-- An address in an executable segment of a mapped ELF file, at or above the segment's first function. -/
structure CodeAddress (env : Machine) where
  table : MappingTable
  mapping : MemMapping
  mapped : mapping ∈ table.entries
  ip : UInt64
  contains : mapping.Contains ip
  image : ElfImage
  data : List UInt8
  read : env.read (components mapping.path) = some data
  parse : env.parse data = some image.toElf
  segment : ProgramHeader
  loaded : segment ∈ image.programHeaders
  executable : segment.Executable
  fileOff : Nat
  fileOff_eq : fileOff = ip.toNat - mapping.start.toNat + mapping.offset.toNat
  offset_le : segment.pOffset.toNat ≤ fileOff
  offset_lt : fileOff < segment.pOffset.toNat + segment.pFilesz.toNat
  vaddr : Nat
  vaddr_eq : vaddr = fileOff - segment.pOffset.toNat + segment.pVaddr.toNat
  first : ∃ sym name, IsFunction image.toElf sym name ∧
    segment.pVaddr.toNat ≤ sym.stValue.toNat ∧ sym.stValue.toNat ≤ vaddr

/-- The symbol kept with the greatest address at most the file offset, of any type, is called `name`; or
there is none, and `name` is what `resolve` writes instead. -/
def OffsetNames {env : Machine} (a : CodeAddress env) (name : String) : Prop :=
  (∃ s, IsFloor addrOf (keptSyms a.image.toElf) a.fileOff s ∧ s.2 = name) ∨
    (∀ s ∈ keptSyms a.image.toElf, a.fileOff < s.1.toNat) ∧
      name = s!"{fileName a.mapping.path}!+0x{hex (UInt64.ofNat a.fileOff)}"

variable {env : Machine} {a : CodeAddress env} {name : String} {sym : Sym}

/-! ### The table -/

theorem readSyms_perm (a : CodeAddress env) :
    (readSyms env (components a.mapping.path)).Perm (keptSyms a.image.toElf) := by
  rw [readSyms, a.read, Option.bind_some, a.parse]
  exact List.mergeSort_perm _ _

theorem isFloor_perm {syms syms' : SymTable} {k : Nat} {s : UInt64 × String} (hperm : syms.Perm syms') :
    IsFloor addrOf syms k s ↔ IsFloor addrOf syms' k s := by
  simp only [IsFloor, hperm.mem_iff]

theorem isFloor_unique (a : CodeAddress env) {k : Nat} {s s' : UInt64 × String}
    (h : IsFloor addrOf (keptSyms a.image.toElf) k s) (h' : IsFloor addrOf (keptSyms a.image.toElf) k s') :
    s = s' := by
  have haddr : s.1 = s'.1 := UInt64.toNat_inj.1 (Nat.le_antisymm (h'.2.2 s h.1 h.2.1) (h.2.2 s' h'.1 h'.2.1))
  exact List.inj_on_of_nodup_map a.image.distinct h.1 h'.1 haddr

theorem fileOff_lt (a : CodeAddress env) : a.fileOff + 1 < 2 ^ 64 := by
  have hfits := a.table.fits a.mapping a.mapped
  have hle := UInt64.le_iff_toNat_le.1 a.contains.1
  have hlt := UInt64.lt_iff_toNat_lt.1 a.contains.2
  have heq := a.fileOff_eq
  omega

/-! ### The result -/

theorem resolve_eq (a : CodeAddress env) {cache : SymbolCache} (hcache : Fresh env cache) :
    (resolve env a.table.entries a.ip cache).1 =
      symbolStep env.search (readSyms env (components a.mapping.path)) (UInt64.ofNat a.fileOff) a.mapping.path := by
  have hsel := selects env a.mapped a.contains
  have hoff : a.ip - a.mapping.start + a.mapping.offset = UInt64.ofNat a.fileOff := by
    rw [a.fileOff_eq, ← hsel.exact, UInt64.ofNat_toNat]
  rw [(resolve_answers env a.table.entries a.ip cache hcache).1, resolveFresh, hsel.release, hoff]

theorem resolve_names_iff (a : CodeAddress env) {cache : SymbolCache} (hcache : Fresh env cache)
    (name : String) : (resolve env a.table.entries a.ip cache).1 = name ↔ OffsetNames a name := by
  have hlt := fileOff_lt a
  have hnat : (UInt64.ofNat a.fileOff).toNat = a.fileOff := UInt64.toNat_ofNat_of_lt' (by rw [UInt64.size]; omega)
  have hmax : UInt64.ofNat a.fileOff < u64Max := by
    rw [UInt64.lt_iff_toNat_lt, hnat]
    show a.fileOff < 2 ^ 64 - 1
    omega
  have hperm := readSyms_perm a
  rw [resolve_eq a hcache, symbolStep, OffsetNames]
  rcases nearestSymbol_cases env.search (readSyms_sorted env _) hmax with
    ⟨s, hfloor, hs⟩ | ⟨hnone, hgt⟩ | ⟨-, i, s, t, h, h', hsx, htx⟩
  · rw [hnat, isFloor_perm hperm] at hfloor
    rw [hs, Option.getD_some]
    constructor
    · intro hname
      exact .inl ⟨s, hfloor, hname⟩
    · rintro (⟨s', hfloor', hname⟩ | ⟨hgt, -⟩)
      · rw [isFloor_unique a hfloor hfloor', hname]
      · exact absurd hfloor.2.1 (Nat.not_le_of_lt (hgt s hfloor.1))
  · have hgt : ∀ s ∈ keptSyms a.image.toElf, a.fileOff < s.1.toNat := by
      intro s hs
      have hlt := UInt64.lt_iff_toNat_lt.1 (hgt s (hperm.mem_iff.2 hs))
      rwa [hnat] at hlt
    rw [hnone, Option.getD_none]
    constructor
    · intro hname
      exact .inr ⟨hgt, hname.symm⟩
    · rintro (⟨s', hfloor', -⟩ | ⟨-, hname⟩)
      · exact absurd hfloor'.2.1 (Nat.not_le_of_lt (hgt s' hfloor'.1))
      · exact hname.symm
  · -- no two kept symbols share an address
    refine absurd ?_ (count_of_adjacent h h' hsx htx)
    exact List.nodup_iff_count_le_one.1 ((hperm.map _).nodup_iff.2 a.image.distinct) _

/-! ### Layouts -/

theorem IsFunction.mem_keptSyms (h : IsFunction a.image.toElf sym name) (hne : sym.stValue ≠ 0) :
    (sym.stValue, name) ∈ keptSyms a.image.toElf := by
  refine List.mem_filterMap.2 ⟨sym, List.mem_filter.2 ⟨h.mem, by simp [hne, h.defined]⟩, ?_⟩
  rw [h.named, Option.filter_some_pos (by simpa using h.nonempty)]
  rfl

/-- Where the offsets are the addresses and no symbol of another type comes in between, the function is
named. -/
theorem OffsetNames.of_aligned (halign : a.segment.pVaddr = a.segment.pOffset)
    (h : IsNearestFunction a.image.toElf a.vaddr sym name) (hne : sym.stValue ≠ 0)
    (hbetween : ∀ s ∈ keptSyms a.image.toElf, s.1.toNat ≤ a.vaddr → s.1.toNat ≤ sym.stValue.toNat) :
    OffsetNames a name := by
  have hoff : a.fileOff = a.vaddr := by
    have hle := a.offset_le
    have heq := a.vaddr_eq
    rw [halign] at heq
    omega
  refine .inl ⟨(sym.stValue, name), ⟨h.1.1.mem_keptSyms hne, ?_, ?_⟩, rfl⟩
  · rw [hoff]
    exact h.1.2
  · rw [hoff]
    exact hbetween

/-- There is a function to name. -/
theorem exists_nearestFunction (a : CodeAddress env) :
    ∃ sym name, IsNearestFunction a.image.toElf a.vaddr sym name := by
  classical
  let P (n : Nat) : Prop := ∃ sym name, IsFunction a.image.toElf sym name ∧ sym.stValue.toNat = n
  obtain ⟨sym₀, name₀, h₀, -, hle₀⟩ := a.first
  obtain ⟨sym, name, h, hvalue⟩ : P (Nat.findGreatest P a.vaddr) :=
    Nat.findGreatest_spec hle₀ ⟨sym₀, name₀, h₀, rfl⟩
  refine ⟨sym, name, ⟨h, hvalue ▸ Nat.findGreatest_le _⟩, fun sym' name' h' hle' => ?_⟩
  rw [hvalue]
  exact Nat.le_findGreatest hle' ⟨sym', name', h', rfl⟩

/-- The property claimed of an address. -/
def NamesFunction (a : CodeAddress env) (cache : SymbolCache) : Prop :=
  ∀ sym name, IsNearestFunction a.image.toElf a.vaddr sym name →
    (resolve env a.table.entries a.ip cache).1 = name

theorem resolve_function_iff (a : CodeAddress env) {cache : SymbolCache} (hcache : Fresh env cache) :
    (∃ sym name, IsNearestFunction a.image.toElf a.vaddr sym name) ∧
      (NamesFunction a cache ↔
        ∀ sym name, IsNearestFunction a.image.toElf a.vaddr sym name → OffsetNames a name) := by
  refine ⟨exists_nearestFunction a, ?_⟩
  refine forall₂_congr fun sym name => imp_congr_right fun _ => ?_
  exact resolve_names_iff a hcache name

/-! ### A fixed base -/

/-- `main` alone, in a text segment at offset `0x1000` that is linked at `0x401000`. -/
def fixedBase : ElfImage where
  syms := [⟨1, 0x12, 1, 0x401000⟩]
  dynsyms := []
  strtab i := if i = 1 then some "main" else none
  dynstrtab _ := none
  programHeaders := [⟨1, 5, 0x1000, 0x401000, 0x1000⟩]
  distinct := List.nodup_singleton _

def fixedBaseMachine : Machine := ⟨fun _ => some [], fun _ => some fixedBase.toElf, .first⟩

theorem fixedBase_main : IsFunction fixedBase.toElf ⟨1, 0x12, 1, 0x401000⟩ "main" where
  mem := List.mem_singleton_self _
  func := rfl
  defined := by decide
  named := rfl
  nonempty := by decide

/-- The address `0x401010`, in `main`. -/
def inMain : CodeAddress fixedBaseMachine where
  table :=
    { entries := [⟨0x401000, 0x402000, 0x1000, "/bin/server"⟩]
      sorted := List.pairwise_singleton _ _
      nonempty := by decide
      disjoint := List.pairwise_singleton _ _
      fits := by decide }
  mapping := ⟨0x401000, 0x402000, 0x1000, "/bin/server"⟩
  mapped := List.mem_singleton_self _
  ip := 0x401010
  contains := by decide
  image := fixedBase
  data := []
  read := rfl
  parse := rfl
  segment := ⟨1, 5, 0x1000, 0x401000, 0x1000⟩
  loaded := List.mem_singleton_self _
  executable := ⟨rfl, rfl⟩
  fileOff := 0x1010
  fileOff_eq := rfl
  offset_le := by decide
  offset_lt := by decide
  vaddr := 0x401010
  vaddr_eq := rfl
  first := ⟨_, _, fixedBase_main, by decide, by decide⟩

theorem resolve_function_iff_fixed_base : NamesFunction inMain ∅ ↔
    ∀ sym name, IsNearestFunction fixedBase.toElf 0x401010 sym name → OffsetNames inMain name :=
  (resolve_function_iff inMain (Fresh.empty _)).2

theorem fixedBase_nearest : IsNearestFunction fixedBase.toElf 0x401010 ⟨1, 0x12, 1, 0x401000⟩ "main" := by
  refine ⟨⟨fixedBase_main, by decide⟩, fun sym name h _ => ?_⟩
  rw [List.mem_singleton.1 h.mem]

theorem not_resolve_function : ¬ ∀ (env : Machine) (a : CodeAddress env) (cache : SymbolCache),
    Fresh env cache → NamesFunction a cache := by
  intro hall
  have hname := hall _ inMain ∅ (Fresh.empty _) _ _ fixedBase_nearest
  rw [resolve_names_iff inMain (Fresh.empty _)] at hname
  rcases hname with ⟨s, ⟨hs, hle, -⟩, -⟩ | ⟨-, hfallback⟩
  · have hkept : keptSyms inMain.image.toElf = [(0x401000, "main")] := rfl
    rw [hkept] at hs
    rw [List.mem_singleton.1 hs] at hle
    exact absurd hle (by decide)
  · revert hfallback
    decide

end RedisTracer
