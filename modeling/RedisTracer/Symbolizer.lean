import RedisTracer.Flamegraph
import RedisTracer.Startup
import RedisTracer.Lib.BinarySearch
import RedisTracer.Lib.Text

/-!
# Symbols

`aya-test/src/symbolizer.rs` names an address by the nearest symbol at or below it. The files it reads,
the ELF parser and the binary search of the standard library are a `Machine`.
-/

namespace RedisTracer

open Ascii Text

/-! ### Paths -/

/-- `std::path::Component` -/
inductive Component
  | rootDir
  | curDir
  | parentDir
  | normal (name : String)
deriving DecidableEq, Repr

def component? : List Char → Option Component
  | [] => none
  | ['.'] => none
  | ['.', '.'] => some .parentDir
  | name => some (.normal (String.ofList name))

/-- `Path::components`: two paths are equal when these are. -/
def components (path : String) : List Component :=
  let pieces := path.toList.splitOn '/'
  let rest := pieces.filterMap component?
  if path.toList.head? = some '/' then .rootDir :: rest
  else if pieces.head? = some ['.'] then .curDir :: rest
  else rest

/-- `path.file_name()`, empty when there is none. -/
def fileName (path : String) : String :=
  match (components path).getLast? with
  | some (.normal name) => name
  | _ => ""

/-! ### Tables -/

/-- A parsed line from `/proc/{pid}/maps`. -/
structure MemMapping where
  start : UInt64
  endAddr : UInt64
  offset : UInt64
  path : String
deriving DecidableEq, Repr

/-- An entry of an ELF symbol table. -/
structure Sym where
  stName : Nat
  stInfo : UInt8
  stShndx : Nat
  stValue : UInt64

/-- What the parser finds in an ELF file; a string table is read at an offset. -/
structure Elf where
  syms : List Sym
  dynsyms : List Sym
  strtab : Nat → Option String
  dynstrtab : Nat → Option String

structure Machine where
  /-- `std::fs::read` -/
  read : List Component → Option (List UInt8)
  /-- `goblin::elf::Elf::parse` -/
  parse : List UInt8 → Option Elf
  /-- `binary_search_by_key` -/
  search : BinarySearch Nat

/-- `(address, name)` pairs, sorted by address. -/
abbrev SymTable := List (UInt64 × String)

abbrev SymbolCache := AList fun _ : List Component => SymTable

def readToString (env : Machine) (path : String) : Option String := (env.read (components path)).bind utf8?

/-- `u64::from_str_radix(s, 16)` -/
def parseHex (cs : List Char) : Option UInt64 := (fromStrRadix 16 (2 ^ 64) cs).map UInt64.ofNat

/-- `{:x}` -/
def hex (x : UInt64) : String := String.ofList (Nat.toDigits 16 x.toNat)

def u64Max : UInt64 := 0xffffffffffffffff

def kallsymsLine (line : List Char) : Option (UInt64 × String) :=
  match line.splitOn ' ' with
  | addr :: _ :: name :: _ =>
    if name.isEmpty then none else (parseHex addr).map fun a => (a, String.ofList name)
  | _ => none

def loadKallsyms (env : Machine) : SymTable :=
  ((lines ((readToString env "/proc/kallsyms").getD "").toList).filterMap kallsymsLine).mergeSort
    fun a b => a.1 ≤ b.1

def mapsLine (line : List Char) : Option MemMapping :=
  match words isWhitespace line with
  | addrs :: _ :: offset :: _ :: _ :: pathName :: _ =>
    match addrs.splitOn '-' with
    | [startStr, endStr] => do
      let start ← parseHex startStr
      let endAddr ← parseHex endStr
      let offset ← parseHex offset
      if start = 0 ∨ pathName.head? = some '[' then none
      else return { start, endAddr, offset, path := String.ofList pathName }
    | _ => none
  | _ => none

def parseMaps (env : Machine) (pid : UInt32) : List MemMapping :=
  ((lines ((readToString env s!"/proc/{pid}/maps").getD "").toList).filterMap mapsLine).mergeSort
    fun a b => a.start ≤ b.start

/-- `.symtab`, or `.dynsym` in a stripped binary. -/
def Elf.symtab (elf : Elf) : List Sym := if elf.syms.isEmpty then elf.dynsyms else elf.syms

def Elf.nameOf (elf : Elf) (sym : Sym) : Option String :=
  (if elf.syms.isEmpty then elf.dynstrtab else elf.strtab) sym.stName

/-- The symbols `load_syms` collects. -/
def keptSyms (elf : Elf) : SymTable :=
  (elf.symtab.filter fun sym => sym.stValue ≠ 0 ∧ sym.stShndx ≠ 0).filterMap fun sym =>
    ((elf.nameOf sym).filter (· ≠ "")).map fun name => (sym.stValue, name)

/-- What `load_syms` puts into the cache. -/
def readSyms (env : Machine) (path : List Component) : SymTable :=
  let syms := match (env.read path).bind env.parse with
    | none => []
    | some elf => keptSyms elf
  syms.mergeSort fun a b => a.1 ≤ b.1

def loadSyms (env : Machine) (path : String) : StateM SymbolCache SymTable := do
  modify fun cache =>
    if components path ∈ cache then cache
    else cache.insert (components path) (readSyms env (components path))
  return ((← get).lookup (components path)).getD []

/-! ### Lookups -/

def findMapping (search : BinarySearch Nat) (mappings : List MemMapping) (ip : UInt64) : Option MemMapping :=
  match search.byKey (fun m => m.start.toNat) mappings ip.toNat with
  | .ok i => mappings[i]?
  | .error i => if i > 0 then mappings[i - 1]?.filter fun m => ip ≥ m.start ∧ ip < m.endAddr else none

/-- The offset of an address in its file, and the file. -/
def lookupMapping (search : BinarySearch Nat) (mappings : List MemMapping) (ip : UInt64) :
    Option (UInt64 × String) :=
  (findMapping search mappings ip).map fun m => (ip - m.start + m.offset, m.path)

/-- The lookup in a sorted table that `resolve` and `resolve_kernel` share. -/
def nearestSymbol (search : BinarySearch Nat) (syms : SymTable) (x : UInt64) : Option String := do
  let idx ← match search.byKey (fun s => s.1.toNat) syms x.toNat with
    | .ok i => some i
    | .error i => if i > 0 then some (i - 1) else none
  let (symAddr, name) ← syms[idx]?
  let nextAddr := (syms[idx + 1]?.map Prod.fst).getD u64Max
  if x ≥ symAddr ∧ x < nextAddr then some name else none

/-- What `resolve` does once it has the symbols of the file. -/
def symbolStep (search : BinarySearch Nat) (syms : SymTable) (fileOff : UInt64) (path : String) : String :=
  (nearestSymbol search syms fileOff).getD s!"{fileName path}!+0x{hex fileOff}"

def resolve (env : Machine) (mappings : List MemMapping) (ip : UInt64) : StateM SymbolCache String :=
  match lookupMapping env.search mappings ip with
  | none => return s!"0x{hex ip}"
  | some (fileOff, path) => do
    let syms ← loadSyms env path
    return symbolStep env.search syms fileOff path

def resolveKernel (search : BinarySearch Nat) (ksyms : SymTable) (ip : UInt64) : String :=
  match nearestSymbol search ksyms ip with
  | some name => s!"[k] {name}"
  | none => s!"[k] 0x{hex ip}"

/-- The symbolizer of a process; its cache starts empty. -/
def Symbolizer.new (env : Machine) (pid : UInt32) : Symbolizer SymbolCache where
  resolve := RedisTracer.resolve env (parseMaps env pid)
  resolveKernel ip := return RedisTracer.resolveKernel env.search (loadKallsyms env) ip

/-- A machine without files. -/
def bareMachine : Machine := ⟨fun _ => none, fun _ => none, .first⟩

/-! ### Sorted tables -/

theorem sorted_mergeSort {α : Type} (f : α → UInt64) (as : List α) :
    BinarySearch.SortedBy (fun a => (f a).toNat) (as.mergeSort fun a b => f a ≤ f b) := by
  let le (a b : α) : Bool := decide (f a ≤ f b)
  have htrans : ∀ a b c, le a b → le b c → le a c := by
    intro a b c hab hbc
    exact decide_eq_true (UInt64.le_trans (of_decide_eq_true hab) (of_decide_eq_true hbc))
  have htotal : ∀ a b, le a b || le b a := by
    intro a b
    simpa [le] using UInt64.le_total (f a) (f b)
  exact (List.pairwise_mergeSort htrans htotal as).imp fun h =>
    UInt64.le_iff_toNat_le.1 (of_decide_eq_true h)

theorem parseMaps_sorted (env : Machine) (pid : UInt32) :
    BinarySearch.SortedBy (fun m => m.start.toNat) (parseMaps env pid) := sorted_mergeSort _ _

theorem loadKallsyms_sorted (env : Machine) :
    BinarySearch.SortedBy (fun s => s.1.toNat) (loadKallsyms env) := sorted_mergeSort _ _

theorem readSyms_sorted (env : Machine) (path : List Component) :
    BinarySearch.SortedBy (fun s => s.1.toNat) (readSyms env path) := sorted_mergeSort _ _

end RedisTracer
