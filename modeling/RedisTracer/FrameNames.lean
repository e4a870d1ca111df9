import RedisTracer.ElfAddresses
import RedisTracer.KallsymsText

/-!
# The names in a line

From the texts of `/proc` and the symbols of the files to the folded lines: each frame is named by the
nearest symbol of its mapping's file, each kernel frame by the kernel's symbols, whatever is cached.
-/

namespace RedisTracer

open GroupFold BinarySearch

def MapsEntry.Contains (e : MapsEntry) (x : UInt64) : Prop := e.start ≤ x ∧ x < e.endAddr

/-- The address space of a process. Its file mappings have plain paths and do not overlap. -/
structure ProcessImage extends RenderedMaps where
  oneWord : ∀ e ∈ entries, ∀ path, e.name.path? = some path → OneWord path
  nonempty : ∀ e ∈ entries, e.name.path?.isSome → e.start < e.endAddr
  disjoint : entries.Pairwise fun e e' => e.name.path?.isSome → e'.name.path?.isSome →
    ∀ x, ¬ (e.Contains x ∧ e'.Contains x)
  fits : ∀ e ∈ entries, e.name.path?.isSome → e.offset.toNat + (e.endAddr.toNat - e.start.toNat) < 2 ^ 64

/-- The symbols of the file at `path`, none when it cannot be read. -/
def fileSyms (env : Machine) (path : String) : SymTable :=
  match (env.read (components path)).bind env.parse with
  | none => []
  | some elf => keptSyms elf

/-- The name of the user address `ip`: the nearest symbol of the mapped file at its offset there. -/
structure UserNamed (env : Machine) (image : ProcessImage) (ip : UInt64) (name : String) : Prop where
  mapped : ∀ e ∈ image.entries, ∀ path, e.name.path? = some (Ascii.bytes path) → e.Contains ip →
    ∀ fileOff : UInt64, fileOff.toNat = ip.toNat - e.start.toNat + e.offset.toNat →
      Unaliased (fileSyms env path) fileOff s!"{fileName path}!+0x{hex fileOff}" →
        NamesNearest (fileSyms env path) fileOff id s!"{fileName path}!+0x{hex fileOff}" name
  unmapped : (∀ e ∈ image.entries, e.name.path?.isSome → ¬ e.Contains ip) → name = s!"0x{hex ip}"

/-- The frames of `ev` by their names, joined in the order in which they are pushed. -/
def NamedLine (env : Machine) (image : ProcessImage) (syms : List Ksym) (ev : StackEvent) (line : String) : Prop :=
  ∃ kernel user,
    List.Forall₂ (fun ip name => ip < u64Max → KernelNamed syms ip name) (kernelIps ev).reverse kernel ∧
    List.Forall₂ (UserNamed env image) (userIps ev).reverse user ∧ line = ";".intercalate (kernel ++ user)

variable {env : Machine} {image : ProcessImage} {pid : UInt32} {ip x : UInt64} {e : MapsEntry} {path : String}
  {syms syms' : SymTable}

/-! ### Tables as sets -/

theorem NamesNearest.perm {named : String → String} {fallback r : String} (hperm : syms.Perm syms')
    (h : NamesNearest syms x named fallback r) : NamesNearest syms' x named fallback r := by
  constructor
  · rintro ⟨s, hs, hle⟩
    obtain ⟨t, hfloor, hname⟩ := h.1 ⟨s, hperm.mem_iff.2 hs, hle⟩
    exact ⟨t, (isFloor_perm hperm).1 hfloor, hname⟩
  · exact fun hgt => h.2 fun s hs => hgt s (hperm.mem_iff.1 hs)

theorem Unaliased.perm {unnamed : String} (hperm : syms.Perm syms') (h : Unaliased syms x unnamed) :
    Unaliased syms' x unnamed := by
  refine h.imp (fun hcount => ?_) fun hmem => hperm.mem_iff.1 hmem
  rwa [← (hperm.map Prod.fst).count_eq]

theorem readSyms_perm_fileSyms (env : Machine) (path : String) :
    (readSyms env (components path)).Perm (fileSyms env path) := List.mergeSort_perm _ _

/-! ### The mappings -/

theorem ProcessImage.decodable (image : ProcessImage) : image.Decodable := by
  intro e he path hpath
  obtain ⟨s, hs, -⟩ := image.oneWord e he path hpath
  exact Option.isSome_iff_exists.2 ⟨s, hs⟩

theorem ProcessImage.parsed_eq (he : e ∈ image.entries) (hpath : e.name.path? = some (Ascii.bytes path)) :
    e.parsed = some ⟨e.start, e.endAddr, e.offset, path⟩ := by
  obtain ⟨m, hm, -, hfields⟩ := parsed_fields image.decodable he hpath
  have heq := hfields.2 (image.oneWord e he _ hpath)
  rw [hm]
  obtain ⟨start, endAddr, offset, path'⟩ := m
  simp only [fields, Prod.mk.injEq] at heq
  obtain ⟨rfl, rfl, rfl, hbytes⟩ := heq
  have hsame : some path' = some path := by rw [← Ascii.utf8?_bytes path', hbytes, Ascii.utf8?_bytes]
  rw [Option.some.inj hsame]

theorem ProcessImage.exists_path (he : e ∈ image.entries) (hfile : e.name.path?.isSome) :
    ∃ path, e.name.path? = some (Ascii.bytes path) := by
  obtain ⟨bs, hbs⟩ := Option.isSome_iff_exists.1 hfile
  obtain ⟨s, hs, -⟩ := image.oneWord e he bs hbs
  refine ⟨s, ?_⟩
  rw [hbs, ← Utf8.utf8?_eq_some_iff.1 hs, ← Utf8.bytes_ofList, String.ofList_toList]

section
variable (hmaps : env.read (components s!"/proc/{pid}/maps") = some image.text)
include hmaps

theorem mem_parseMaps_iff {m : MemMapping} : m ∈ parseMaps env pid ↔ ∃ e ∈ image.entries, ∃ path,
    e.name.path? = some (Ascii.bytes path) ∧ m = ⟨e.start, e.endAddr, e.offset, path⟩ := by
  rw [(parseMaps_perm hmaps image.decodable).mem_iff, List.mem_filterMap]
  constructor
  · rintro ⟨e, he, hm⟩
    have hfile : e.name.path?.isSome := by
      obtain ⟨_, hpath, -⟩ := Option.map_eq_some_iff.1 hm
      rw [hpath]
      rfl
    obtain ⟨path, hpath⟩ := image.exists_path he hfile
    rw [image.parsed_eq he hpath] at hm
    exact ⟨e, he, path, hpath, (Option.some.inj hm).symm⟩
  · rintro ⟨e, he, path, hpath, rfl⟩
    exact ⟨e, he, image.parsed_eq he hpath⟩

theorem parseMaps_disjoint :
    (parseMaps env pid).Pairwise fun m m' => ∀ x, ¬ (m.Contains x ∧ m'.Contains x) := by
  have hsymm : ∀ m m' : MemMapping, (∀ x, ¬ (m.Contains x ∧ m'.Contains x)) →
      ∀ x, ¬ (m'.Contains x ∧ m.Contains x) := fun _ _ h x hx => h x hx.symm
  rw [(parseMaps_perm hmaps image.decodable).pairwise_iff fun h => hsymm _ _ h, List.pairwise_filterMap]
  refine image.disjoint.imp_of_mem fun he he' h m hm m' hm' => ?_
  have hfile : ∀ {e : MapsEntry} {m}, e.parsed = some m → e.name.path?.isSome := by
    intro e m hm
    obtain ⟨_, hpath, -⟩ := Option.map_eq_some_iff.1 hm
    rw [hpath]
    rfl
  obtain ⟨path, hpath⟩ := image.exists_path he (hfile hm)
  obtain ⟨path', hpath'⟩ := image.exists_path he' (hfile hm')
  rw [image.parsed_eq he hpath] at hm
  rw [image.parsed_eq he' hpath'] at hm'
  cases hm
  cases hm'
  exact h (by rw [hpath]; rfl) (by rw [hpath']; rfl)

/-- What `parse_maps` makes of the text is a table to look up. -/
theorem exists_table : ∃ table : MappingTable, table.entries = parseMaps env pid := by
  refine ⟨⟨parseMaps env pid, parseMaps_sorted env pid, fun m hm => ?_, parseMaps_disjoint hmaps,
    fun m hm => ?_⟩, rfl⟩
  · obtain ⟨e, he, path, hpath, rfl⟩ := (mem_parseMaps_iff hmaps).1 hm
    exact image.nonempty e he (by rw [hpath]; rfl)
  · obtain ⟨e, he, path, hpath, rfl⟩ := (mem_parseMaps_iff hmaps).1 hm
    exact image.fits e he (by rw [hpath]; rfl)

/-! ### One frame -/

theorem lookupMapping_of_contains (he : e ∈ image.entries) (hpath : e.name.path? = some (Ascii.bytes path))
    (h : e.Contains ip) : ∃ fileOff : UInt64,
      fileOff.toNat = ip.toNat - e.start.toNat + e.offset.toNat ∧ fileOff < u64Max ∧
      lookupMapping env.search (parseMaps env pid) ip = some (fileOff, path) := by
  obtain ⟨table, htable⟩ := exists_table hmaps
  have hm : (⟨e.start, e.endAddr, e.offset, path⟩ : MemMapping) ∈ table.entries :=
    htable ▸ (mem_parseMaps_iff hmaps).2 ⟨e, he, path, hpath, rfl⟩
  have hsel := selects env hm h
  have hexact : (ip - e.start + e.offset).toNat = ip.toNat - e.start.toNat + e.offset.toNat := hsel.exact
  refine ⟨_, hexact, UInt64.lt_iff_toNat_lt.2 ?_, htable ▸ hsel.release⟩
  have hfits := image.fits e he (by rw [hpath]; rfl)
  have hle := UInt64.le_iff_toNat_le.1 h.1
  have hlt := UInt64.lt_iff_toNat_lt.1 h.2
  rw [hexact]
  show _ < 2 ^ 64 - 1
  omega

theorem lookupMapping_of_unmapped (h : ∀ e ∈ image.entries, e.name.path?.isSome → ¬ e.Contains ip) :
    lookupMapping env.search (parseMaps env pid) ip = none := by
  obtain ⟨table, htable⟩ := exists_table hmaps
  have hnone : ∀ m ∈ table.entries, ¬ m.Contains ip := by
    intro m hm
    rw [htable] at hm
    obtain ⟨e, he, path, hpath, rfl⟩ := (mem_parseMaps_iff hmaps).1 hm
    exact h e he (by rw [hpath]; rfl)
  rw [lookupMapping, ← htable, (findMapping_of_not_contains env.search hnone).1]
  rfl

theorem userNamed (ip : UInt64) : UserNamed env image ip (resolveFresh env (parseMaps env pid) ip) := by
  constructor
  · intro e he path hpath hip fileOff hoff hun
    obtain ⟨fileOff', hoff', hmax, hlookup⟩ := lookupMapping_of_contains hmaps he hpath hip
    cases UInt64.toNat_inj.1 (hoff.trans hoff'.symm)
    rw [resolveFresh, hlookup]
    have hperm := readSyms_perm_fileSyms env path
    have hnamed := (namesNearest_iff Function.injective_id s!"{fileName path}!+0x{hex fileOff}"
      (readSyms_sorted env (components path)) hmax).2 (hun.perm hperm.symm) env.search
    exact hnamed.perm hperm
  · intro h
    rw [resolveFresh, lookupMapping_of_unmapped hmaps h]

/-! ### The lines -/

theorem namedLine {syms : List Ksym}
    (hksyms : env.read (components "/proc/kallsyms") = some (kallsymsText syms)) (ev : StackEvent) :
    NamedLine env image syms ev (lineOf env pid ev) := by
  refine ⟨_, _, ?_, ?_, rfl⟩
  · rw [List.forall₂_map_right_iff, List.forall₂_same]
    exact fun ip _ hip => kernelNamed hksyms hip
  · rw [List.forall₂_map_right_iff, List.forall₂_same]
    exact fun ip _ => userNamed hmaps ip

end

theorem flamegraph_names (env : Machine) (samples : Samples) (image : ProcessImage) (syms : List Ksym)
    (hmaps : env.read (components s!"/proc/{samplePid samples.events}/maps") = some image.text)
    (hksyms : env.read (components "/proc/kallsyms") = some (kallsymsText syms)) :
    ∃ line : StackEvent → String, (∀ ev, NamedLine env image syms ev (line ev)) ∧
      ∀ key, (((generateFolded env samples.events).lookup key).getD 0).toNat =
        (samples.events.filter fun ev => Sampled ev ∧ line ev = key).length :=
  ⟨lineOf env (samplePid samples.events), namedLine hmaps hksyms, (generateFolded_conserves env samples).count⟩

def plainEntry : MapsEntry := textEntry 0x4000 (.file (Utf8.encode "/lib".toList) rfl (by decide))

theorem plainEntry_oneWord : OneWord (Utf8.encode "/lib".toList) := by
  have hword : ("/lib".toList.all fun c => !isWhitespace c) = true := by decide
  exact ⟨"/lib", Utf8.utf8?_eq_some_iff.2 rfl, fun c hc => by simpa using List.all_eq_true.1 hword c hc⟩

/-- One mapped file. -/
def plainImage : ProcessImage where
  entries := [plainEntry]
  nonzero := List.forall_mem_singleton.2 fun _ => by decide
  distinct := List.nodup_singleton _
  oneWord := List.forall_mem_singleton.2 fun _ hpath => Option.some.inj hpath ▸ plainEntry_oneWord
  nonempty := List.forall_mem_singleton.2 fun _ => by decide
  disjoint := List.pairwise_singleton _ _
  fits := List.forall_mem_singleton.2 fun _ => by decide

/-- The file has two functions and a symbol it does not define. -/
def plainElf : Elf where
  syms := [⟨1, 0x12, 1, 0x10⟩, ⟨2, 0x12, 1, 0x100⟩, ⟨3, 0x12, 0, 0x120⟩]
  dynsyms := []
  strtab i := ["", "init", "loop", "read"][i]?
  dynstrtab _ := none

def plainMachine : Machine where
  read path :=
    if path = components "/proc/kallsyms" then some (kallsymsText hiddenKsyms)
    else if path = components "/proc/1/maps" then some plainImage.text
    else if path = components "/lib" then some []
    else none
  parse _ := some plainElf
  search := .first

/-- A kernel frame, and a user frame in `loop`. -/
def mappedSample : StackEvent := { mixedSample with ustackIps := Vector.replicate 20 0x4123 }

theorem plainEntry_named {name : String} (h : UserNamed plainMachine plainImage 0x4123 name) : name = "loop" := by
  have hkept : fileSyms plainMachine "/lib" = [(0x10, "init"), (0x100, "loop")] := by decide
  have hnear := h.mapped plainEntry List.mem_cons_self "/lib" rfl ⟨by decide, by decide⟩ 0x123 rfl
  rw [hkept] at hnear
  obtain ⟨s, ⟨hs, -, hmax⟩, rfl⟩ := (hnear (.inl (by decide))).1 ⟨(0x10, "init"), List.mem_cons_self, by decide⟩
  rcases List.mem_pair.1 hs with rfl | rfl
  · exact absurd (hmax (0x100, "loop") (by simp) (by decide)) (by decide)
  · rfl

theorem flamegraph_names_mapped : ∃ line : StackEvent → String, line mappedSample = "[k] b\t[m];loop" ∧
    ∀ key, (((generateFolded plainMachine [mappedSample]).lookup key).getD 0).toNat =
      ([mappedSample].filter fun ev => Sampled ev ∧ line ev = key).length := by
  have hpid : components s!"/proc/{samplePid [mappedSample]}/maps" = components "/proc/1/maps" := by decide
  have hmaps : plainMachine.read (components s!"/proc/{samplePid [mappedSample]}/maps") = some plainImage.text := by
    have hother : components "/proc/1/maps" ≠ components "/proc/kallsyms" := by decide
    rw [hpid, plainMachine]
    dsimp only
    rw [if_neg hother, if_pos rfl]
  have hksyms : plainMachine.read (components "/proc/kallsyms") = some (kallsymsText hiddenKsyms) := by
    rw [plainMachine]
    dsimp only
    rw [if_pos rfl]
  obtain ⟨line, hnamed, hcount⟩ := flamegraph_names plainMachine ⟨[mappedSample], by decide⟩ plainImage hiddenKsyms
    hmaps hksyms
  refine ⟨line, ?_, hcount⟩
  obtain ⟨kernel, user, hkernel, huser, hline⟩ := hnamed mappedSample
  have hk : (kernelIps mappedSample).reverse = [1] := by decide
  have hu : (userIps mappedSample).reverse = [0x4123] := by decide
  rw [hk] at hkernel
  rw [hu] at huser
  obtain _ | ⟨hkname, _ | _⟩ := hkernel
  obtain _ | ⟨huname, _ | _⟩ := huser
  have hzero : ∀ t ∈ hiddenKsyms, t.addr = 0 := by simp [hiddenKsyms]
  rw [hline, (hkname (by decide)).hidden hzero rfl (by decide), plainEntry_named huname]
  decide

end RedisTracer
