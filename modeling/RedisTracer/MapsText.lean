import RedisTracer.Symbolizer
import RedisTracer.Lib.Utf8

/-!
# Reading `/proc/{pid}/maps`

The lines as the kernel writes them. The name of a mapping is the rest of its line, of which `parse_maps`
takes the first word.
-/

namespace RedisTracer

open Ascii Text Utf8 BinarySearch

/-! ### The kernel's rendering -/

/-- What stands after the inode: nothing, a pseudo-mapping such as `[heap]`, or the path of a file. -/
inductive MapsName
  | anonymous
  | pseudo (text : List Char) (bracket : text.head? = some '[') (line : '\n' ∉ text)
  | file (path : List UInt8) (absolute : path.head? = some 47) (line : 10 ∉ path)

structure MapsEntry where
  start : UInt64
  endAddr : UInt64
  readable : Bool
  writable : Bool
  executable : Bool
  shared : Bool
  offset : UInt64
  major : Nat
  minor : Nat
  inode : Nat
  /-- The spaces before the name, less one. -/
  pad : Nat
  name : MapsName

def MapsName.path? : MapsName → Option (List UInt8)
  | file path _ _ => some path
  | _ => none

def MapsName.bytes : MapsName → List UInt8
  | anonymous => []
  | pseudo text _ _ => encode text
  | file path _ _ => path

namespace MapsEntry

def addrs (e : MapsEntry) : List Char := padded 16 8 e.start.toNat ++ '-' :: padded 16 8 e.endAddr.toNat

def perms (e : MapsEntry) : List Char :=
  [if e.readable then 'r' else '-', if e.writable then 'w' else '-', if e.executable then 'x' else '-',
    if e.shared then 's' else 'p']

def dev (e : MapsEntry) : List Char := padded 16 2 e.major ++ ':' :: padded 16 2 e.minor

/-- The line up to the name. -/
def columns (e : MapsEntry) : List Char :=
  e.addrs ++ ' ' :: (e.perms ++ ' ' :: (padded 16 8 e.offset.toNat ++ ' ' :: (e.dev ++ ' ' ::
    (Nat.toDigits 10 e.inode ++ List.replicate (e.pad + 1) ' '))))

def render (e : MapsEntry) : List UInt8 := encode e.columns ++ (e.name.bytes ++ [10])

/-- The start, end, offset and path of a file mapping. -/
def fileOf (e : MapsEntry) : Option (UInt64 × UInt64 × UInt64 × List UInt8) :=
  e.name.path?.map fun path => (e.start, e.endAddr, e.offset, path)

end MapsEntry

/-- The address space of a process, in the order of the lines. -/
structure RenderedMaps where
  entries : List MapsEntry
  nonzero : ∀ e ∈ entries, e.name.path?.isSome → e.start ≠ 0
  distinct : ((entries.filterMap MapsEntry.fileOf).map Prod.fst).Nodup

def RenderedMaps.text (maps : RenderedMaps) : List UInt8 := maps.entries.flatMap MapsEntry.render

def fields (m : MemMapping) : UInt64 × UInt64 × UInt64 × List UInt8 := (m.start, m.endAddr, m.offset, bytes m.path)

/-- The file mappings come back, all fields equal, sorted by start. -/
structure RoundTrips (env : Machine) (pid : UInt32) (maps : RenderedMaps) : Prop where
  sorted : SortedBy (fun m => m.start.toNat) (parseMaps env pid)
  files : ((parseMaps env pid).map fields).Perm (maps.entries.filterMap MapsEntry.fileOf)

/-- UTF-8 without white space. -/
def OneWord (path : List UInt8) : Prop := ∃ s, utf8? path = some s ∧ ∀ c ∈ s.toList, isWhitespace c = false

variable {e : MapsEntry} {l : List Char} {env : Machine} {pid : UInt32} {maps : RenderedMaps}
  {path : List UInt8}

/-! ### The columns -/

theorem words_stripCr (l : List Char) : words isWhitespace (stripCr l) = words isWhitespace l := by
  unfold stripCr
  split
  · rename_i hlast
    obtain ⟨as, rfl⟩ := List.getLast?_eq_some_iff.1 hlast
    have hcr : isWhitespace '\r' = true := rfl
    rw [List.dropLast_concat, words_append_cons hcr, words_nil, List.append_nil]
  · rfl

theorem mapsLine_stripCr (l : List Char) : mapsLine (stripCr l) = mapsLine l := by
  unfold mapsLine
  rw [words_stripCr]

theorem padded_word (width n : Nat) : ∀ c ∈ padded 16 width n, isWhitespace c = false := fun _ hc =>
  isWhitespace_of_isAlphanum (isAlphanum_of_mem_padded (by omega) (by omega) hc)

theorem perms_word (e : MapsEntry) : ∀ c ∈ e.perms, isWhitespace c = false := by
  intro c hc
  simp only [MapsEntry.perms, List.mem_cons, List.not_mem_nil, or_false] at hc
  rcases hc with rfl | rfl | rfl | rfl
  · cases e.readable <;> rfl
  · cases e.writable <;> rfl
  · cases e.executable <;> rfl
  · cases e.shared <;> rfl

theorem joined_word {c : Char} (hc : isWhitespace c = false) {width n n' : Nat} :
    ∀ d ∈ padded 16 width n ++ c :: padded 16 width n', isWhitespace d = false := by
  intro d hd
  rcases List.mem_append.1 hd with hd | hd
  · exact padded_word _ _ d hd
  · rcases List.mem_cons.1 hd with rfl | hd
    · exact hc
    · exact padded_word _ _ d hd

theorem addrs_word (e : MapsEntry) : ∀ c ∈ e.addrs, isWhitespace c = false := joined_word rfl

theorem dev_word (e : MapsEntry) : ∀ c ∈ e.dev, isWhitespace c = false := joined_word rfl

theorem inode_word (e : MapsEntry) : ∀ c ∈ Nat.toDigits 10 e.inode, isWhitespace c = false := fun _ hc =>
  isWhitespace_of_isAlphanum (isAlphanum_of_mem_toDigits (by omega) (by omega) hc)

theorem words_columns (e : MapsEntry) (name : List Char) : words isWhitespace (e.columns ++ name) =
    [e.addrs, e.perms, padded 16 8 e.offset.toNat, e.dev, Nat.toDigits 10 e.inode] ++
      words isWhitespace name := by
  have hspace : isWhitespace ' ' = true := rfl
  simp only [MapsEntry.columns, List.append_assoc, List.cons_append, List.replicate_succ]
  rw [words_word (by simp [MapsEntry.addrs]) (addrs_word e) hspace,
    words_word (by simp [MapsEntry.perms]) (perms_word e) hspace,
    words_word (padded_ne_nil _ _ _) (padded_word _ _) hspace,
    words_word (by simp [MapsEntry.dev]) (dev_word e) hspace,
    words_word Nat.toDigits_ne_nil (inode_word e) hspace, words_replicate hspace]
  rfl

/-- The only white space in the columns are blanks. -/
theorem columns_facts (e : MapsEntry) : ∀ c ∈ e.columns, c = ' ' ∨ isWhitespace c = false := by
  intro c hc
  simp only [MapsEntry.columns, List.mem_append, List.mem_cons, List.mem_replicate] at hc
  rcases hc with hc | hc | hc | hc | hc | hc | hc | hc | hc | hc
  · exact .inr (addrs_word e c hc)
  · exact .inl hc
  · exact .inr (perms_word e c hc)
  · exact .inl hc
  · exact .inr (padded_word _ _ c hc)
  · exact .inl hc
  · exact .inr (dev_word e c hc)
  · exact .inl hc
  · exact .inr (inode_word e c hc)
  · exact .inl hc.2

theorem parseHex_padded (x : UInt64) (width : Nat) : parseHex (padded 16 width x.toNat) = some x := by
  rw [parseHex, fromStrRadix_padded (by omega) (by omega),
    Option.filter_some_pos (by simpa using x.toNat_lt), Option.map_some, UInt64.ofNat_toNat]

theorem splitOn_addrs (e : MapsEntry) :
    e.addrs.splitOn '-' = [padded 16 8 e.start.toNat, padded 16 8 e.endAddr.toNat] := by
  have hdash : ∀ n, '-' ∉ padded 16 8 n := fun n h => by
    cases isAlphanum_of_mem_padded (by omega) (by omega) h
  rw [MapsEntry.addrs, List.splitOn_append_cons_self_of_not_mem (hdash _), List.splitOn_eq_singleton (hdash _)]

/-! ### One line -/

/-- The name as text; a path that is not UTF-8 has none. -/
def MapsName.chars : MapsName → List Char
  | anonymous => []
  | pseudo text _ _ => text
  | file path _ _ => ((utf8? path).getD "").toList

/-- What `parse_maps` makes of a line. -/
def MapsEntry.parsed (e : MapsEntry) : Option MemMapping :=
  e.name.path?.map fun _ =>
    ⟨e.start, e.endAddr, e.offset, String.ofList (e.name.chars.takeWhile fun c => !isWhitespace c)⟩

theorem chars_of_absolute {s : String} (hs : utf8? path = some s) (habs : path.head? = some 47) :
    ∃ rest, s.toList = '/' :: rest := by
  obtain ⟨rest, rfl⟩ := List.head?_eq_some_iff.1 habs
  have htext : encode s.toList = [] ++ 47 :: rest := utf8?_eq_some_iff.1 hs
  obtain ⟨cs₁, c, cs₂, hsplit, hnil, hc, -⟩ := encode_split htext (by decide)
  have hslash : [c] = ['/'] := encode_injective hc
  have hcs₁ : cs₁ = [] := encode_injective hnil
  refine ⟨cs₂, ?_⟩
  rw [hsplit, hcs₁, List.cons.inj hslash |>.1]
  rfl

theorem mapsLine_of_words (e : MapsEntry) (name : List Char) : mapsLine (e.columns ++ name) =
    (words isWhitespace name).head?.bind fun w =>
      if e.start = 0 ∨ w.head? = some '[' then none
      else some ⟨e.start, e.endAddr, e.offset, String.ofList w⟩ := by
  unfold mapsLine
  rw [words_columns]
  cases words isWhitespace name with
  | nil => rfl
  | cons w ws =>
    dsimp only [List.cons_append, List.nil_append]
    rw [splitOn_addrs]
    simp only [parseHex_padded]
    rfl

theorem mapsLine_render (hnz : e.name.path?.isSome → e.start ≠ 0)
    (hutf8 : ∀ path, e.name.path? = some path → (utf8? path).isSome) :
    mapsLine (e.columns ++ e.name.chars) = e.parsed := by
  rw [mapsLine_of_words, MapsEntry.parsed]
  cases hname : e.name with
  | anonymous => rfl
  | pseudo text bracket line =>
    obtain ⟨rest, rfl⟩ := List.head?_eq_some_iff.1 bracket
    have hbracket : isWhitespace '[' = false := rfl
    show (words isWhitespace ('[' :: rest)).head?.bind _ = _
    rw [words_cons_of_neg hbracket]
    simp [hbracket, MapsName.path?]
  | file path absolute line =>
    have hsome := hutf8 path (by rw [hname]; rfl)
    obtain ⟨s, hs⟩ := Option.isSome_iff_exists.1 hsome
    obtain ⟨rest, hrest⟩ := chars_of_absolute hs absolute
    have hslash : isWhitespace '/' = false := rfl
    have hchars : (MapsName.file path absolute line).chars = '/' :: rest := by
      rw [MapsName.chars, hs]
      exact hrest
    have hstart : e.start ≠ 0 := hnz (by rw [hname]; rfl)
    rw [hchars, words_cons_of_neg hslash]
    simp [hslash, hstart, MapsName.path?]

/-! ### The file -/

/-- Every path is UTF-8. -/
def RenderedMaps.Decodable (maps : RenderedMaps) : Prop :=
  ∀ e ∈ maps.entries, ∀ path, e.name.path? = some path → (utf8? path).isSome

theorem bytes_eq_encode_chars (hutf8 : ∀ path, e.name.path? = some path → (utf8? path).isSome) :
    e.name.bytes = encode e.name.chars := by
  cases hname : e.name with
  | anonymous => rfl
  | pseudo text bracket line => rfl
  | file path absolute line =>
    obtain ⟨s, hs⟩ := Option.isSome_iff_exists.1 (hutf8 path (by rw [hname]; rfl))
    rw [MapsName.bytes, MapsName.chars, hs]
    exact (utf8?_eq_some_iff.1 hs).symm

theorem newline_not_mem (hutf8 : ∀ path, e.name.path? = some path → (utf8? path).isSome) :
    '\n' ∉ e.columns ++ e.name.chars := by
  intro hmem
  rcases List.mem_append.1 hmem with hcol | hname
  · rcases columns_facts e _ hcol with h | h
    · revert h
      decide
    · revert h
      decide
  · cases hn : e.name with
    | anonymous => rw [hn] at hname; cases hname
    | pseudo text bracket line => rw [hn] at hname; exact line hname
    | file path absolute line =>
      rw [hn] at hname
      obtain ⟨s, hs⟩ := Option.isSome_iff_exists.1 (hutf8 path (by rw [hn]; rfl))
      rw [MapsName.chars, hs] at hname
      refine line (utf8?_eq_some_iff.1 hs ▸ mem_encode hname 10 ?_)
      decide

theorem text_eq_encode (h : maps.Decodable) : maps.text =
    encode ((maps.entries.map fun e => e.columns ++ e.name.chars).flatMap fun l => l ++ ['\n']) := by
  rw [RenderedMaps.text, encode, List.flatMap_map, List.flatMap_assoc]
  refine List.flatMap_congr fun e he => ?_
  rw [MapsEntry.render, bytes_eq_encode_chars (h e he)]
  show _ = encode (e.columns ++ e.name.chars ++ ['\n'])
  rw [encode_append, encode_append, List.append_assoc]
  rfl

section
variable (hread : env.read (components s!"/proc/{pid}/maps") = some maps.text)
include hread

theorem parseMaps_perm (h : maps.Decodable) :
    (parseMaps env pid).Perm (maps.entries.filterMap MapsEntry.parsed) := by
  have htext : readToString env s!"/proc/{pid}/maps" = some (String.ofList
      ((maps.entries.map fun e => e.columns ++ e.name.chars).flatMap fun l => l ++ ['\n'])) := by
    rw [readToString, hread, Option.bind_some, utf8?_eq_some_iff, String.toList_ofList, text_eq_encode h]
  have hlines : ∀ l ∈ maps.entries.map fun e => e.columns ++ e.name.chars, '\n' ∉ l := by
    intro l hl
    obtain ⟨e, he, rfl⟩ := List.mem_map.1 hl
    exact newline_not_mem (h e he)
  refine (List.mergeSort_perm _ _).trans (List.Perm.of_eq ?_)
  rw [htext, Option.getD_some, String.toList_ofList, lines_flatMap _ hlines, List.map_map,
    List.filterMap_map]
  refine List.filterMap_congr fun e he => ?_
  show mapsLine (stripCr (e.columns ++ e.name.chars)) = _
  rw [mapsLine_stripCr, mapsLine_render (maps.nonzero e he) (h e he)]

/-- Between its blank and its newline a path of decodable text is decodable. -/
theorem decodable_of_readToString {s : String} (hs : readToString env s!"/proc/{pid}/maps" = some s) :
    maps.Decodable := by
  intro e he path hpath
  rw [readToString, hread, Option.bind_some, utf8?_eq_some_iff] at hs
  obtain ⟨before, after, hentries⟩ := List.append_of_mem he
  have hbytes : e.name.bytes = path := by
    cases hname : e.name with
    | anonymous => rw [hname] at hpath; cases hpath
    | pseudo text bracket line => rw [hname] at hpath; cases hpath
    | file path' absolute line => rw [hname] at hpath; exact Option.some.inj hpath
  obtain ⟨front, hfront⟩ : ∃ front, e.columns = front ++ [' '] := by
    refine ⟨e.addrs ++ ' ' :: (e.perms ++ ' ' :: (padded 16 8 e.offset.toNat ++ ' ' :: (e.dev ++ ' ' ::
      (Nat.toDigits 10 e.inode ++ List.replicate e.pad ' ')))), ?_⟩
    simp [MapsEntry.columns, List.replicate_succ']
  have htext : encode s.toList = (before.flatMap MapsEntry.render ++ encode front) ++
      32 :: (path ++ 10 :: after.flatMap MapsEntry.render) := by
    rw [hs, RenderedMaps.text, hentries, List.flatMap_append, List.flatMap_cons, MapsEntry.render, hfront,
      hbytes, encode_append]
    simp [encode]
    rfl
  obtain ⟨_, _, rest, -, -, -, hrest⟩ := encode_split htext (by decide)
  obtain ⟨cs, _, _, -, hcs, -, -⟩ := encode_split hrest (by decide)
  rw [utf8?_eq_some_iff.2 (by rw [String.toList_ofList, hcs] : encode (String.ofList cs).toList = path)]
  rfl

end

/-! ### The round trip -/

theorem takeWhile_eq_self_iff {cs : List Char} :
    (cs.takeWhile fun c => !isWhitespace c) = cs ↔ ∀ c ∈ cs, isWhitespace c = false := by
  rw [List.takeWhile_eq_self_iff]
  simp

/-- The fields read of a file mapping are its own when its path is one word. -/
theorem parsed_fields (h : maps.Decodable) (he : e ∈ maps.entries) (hpath : e.name.path? = some path) :
    ∃ m, e.parsed = some m ∧ m.start = e.start ∧
      (fields m = (e.start, e.endAddr, e.offset, path) ↔ OneWord path) := by
  obtain ⟨s, hs⟩ := Option.isSome_iff_exists.1 (h e he path hpath)
  have hchars : e.name.chars = s.toList := by
    cases hname : e.name with
    | anonymous => rw [hname] at hpath; cases hpath
    | pseudo text bracket line => rw [hname] at hpath; cases hpath
    | file path' absolute line =>
      rw [hname] at hpath
      cases hpath
      rw [MapsName.chars, hs]
      rfl
  refine ⟨_, by rw [MapsEntry.parsed, hpath]; rfl, rfl, ?_⟩
  rw [fields, hchars, bytes_ofList, ← utf8?_eq_some_iff.1 hs]
  simp only [Prod.mk.injEq, true_and]
  rw [encode_injective.eq_iff, takeWhile_eq_self_iff, utf8?_eq_some_iff.1 hs]
  constructor
  · intro hword
    exact ⟨s, hs, hword⟩
  · rintro ⟨s', hs', hword⟩
    cases hs.symm.trans hs'
    exact hword

theorem fileOf_eq (hpath : e.name.path? = some path) : e.fileOf = some (e.start, e.endAddr, e.offset, path) := by
  rw [MapsEntry.fileOf, hpath]
  rfl

theorem roundTrips_of_oneWord (hread : env.read (components s!"/proc/{pid}/maps") = some maps.text)
    (hword : ∀ e ∈ maps.entries, ∀ path, e.name.path? = some path → OneWord path) :
    RoundTrips env pid maps := by
  have hdec : maps.Decodable := by
    intro e he path hpath
    obtain ⟨s, hs, -⟩ := hword e he path hpath
    exact Option.isSome_iff_exists.2 ⟨s, hs⟩
  refine ⟨parseMaps_sorted env pid, ((parseMaps_perm hread hdec).map fields).trans (List.Perm.of_eq ?_)⟩
  rw [List.map_filterMap]
  refine List.filterMap_congr fun e he => ?_
  cases hpath : e.name.path? with
  | none =>
    rw [MapsEntry.parsed, MapsEntry.fileOf, hpath]
    rfl
  | some path =>
    obtain ⟨m, hm, -, hfields⟩ := parsed_fields hdec he hpath
    rw [hm, Option.map_some, hfields.2 (hword e he path hpath), fileOf_eq hpath]

theorem oneWord_of_roundTrips (hread : env.read (components s!"/proc/{pid}/maps") = some maps.text)
    (h : RoundTrips env pid maps) (he : e ∈ maps.entries) (hpath : e.name.path? = some path) :
    OneWord path := by
  have hmem : (e.start, e.endAddr, e.offset, path) ∈ maps.entries.filterMap MapsEntry.fileOf :=
    List.mem_filterMap.2 ⟨e, he, fileOf_eq hpath⟩
  by_cases hdec : maps.Decodable
  · have hfields := h.files.mem_iff.2 hmem
    rw [((parseMaps_perm hread hdec).map fields).mem_iff] at hfields
    obtain ⟨m, hm, hfields⟩ := List.mem_map.1 hfields
    obtain ⟨e', he', hparsed⟩ := List.mem_filterMap.1 hm
    obtain ⟨path', hpath', -⟩ := Option.map_eq_some_iff.1 hparsed
    obtain ⟨m', hm', hstart, hword⟩ := parsed_fields hdec he' hpath'
    cases hparsed.symm.trans hm'
    -- the two entries start at one address
    have hmem' : (e'.start, e'.endAddr, e'.offset, path') ∈ maps.entries.filterMap MapsEntry.fileOf :=
      List.mem_filterMap.2 ⟨e', he', fileOf_eq hpath'⟩
    have hsame : e'.start = e.start := by
      rw [← hstart]
      exact congrArg Prod.fst hfields
    have heq := List.inj_on_of_nodup_map maps.distinct hmem' hmem hsame
    rw [← heq] at hfields
    have hpaths : path' = path := congrArg (fun f => f.2.2.2) heq
    exact hpaths ▸ hword.1 hfields
  · have hnone : readToString env s!"/proc/{pid}/maps" = none := by
      refine Option.eq_none_iff_forall_ne_some.2 fun s hs => hdec (decodable_of_readToString hread hs)
    have hempty : parseMaps env pid = [] := by
      rw [parseMaps, hnone]
      exact List.mergeSort_nil
    have hfiles := h.files.mem_iff.2 hmem
    rw [hempty] at hfiles
    cases hfiles

theorem maps_round_trip_iff (env : Machine) (pid : UInt32) (maps : RenderedMaps)
    (hread : env.read (components s!"/proc/{pid}/maps") = some maps.text) :
    RoundTrips env pid maps ↔ ∀ e ∈ maps.entries, ∀ path, e.name.path? = some path → OneWord path :=
  ⟨fun h _ he _ hpath => oneWord_of_roundTrips hread h he hpath, roundTrips_of_oneWord hread⟩

/-! ### A path with a blank -/

/-- Every file of the machine holds `data`. -/
def machineWith (data : List UInt8) : Machine := ⟨fun _ => some data, fun _ => none, .first⟩

def textEntry (start : UInt64) (name : MapsName) : MapsEntry :=
  { start, endAddr := start + 4096, readable := true, writable := false, executable := true, shared := false,
    offset := 0, major := 8, minor := 1, inode := 77, pad := 20, name }

/-- A file between a pseudo-mapping and an anonymous one. -/
def plainMaps : RenderedMaps where
  entries := [textEntry 0x9000 (.pseudo "[heap]".toList rfl (by decide)),
    textEntry 0x4000 (.file (encode "/srv".toList) rfl (by decide)), textEntry 0x7000 .anonymous]
  nonzero := by decide
  distinct := by decide

theorem maps_round_trip_iff_plain : RoundTrips (machineWith plainMaps.text) 1 plainMaps := by
  refine (maps_round_trip_iff (machineWith plainMaps.text) 1 plainMaps rfl).2 fun e he path hpath => ?_
  simp only [plainMaps, List.mem_cons, List.not_mem_nil, or_false] at he
  rcases he with rfl | rfl | rfl
  · cases hpath
  · cases hpath
    have hword : ("/srv".toList.all fun c => !isWhitespace c) = true := by decide
    exact ⟨"/srv", utf8?_eq_some_iff.2 rfl, fun c hc => by simpa using List.all_eq_true.1 hword c hc⟩
  · cases hpath

def spacedMaps : RenderedMaps where
  entries := [textEntry 0x4000 (.file (encode "/opt/my server".toList) rfl (by decide))]
  nonzero := by decide
  distinct := by decide

theorem not_maps_round_trip : ¬ ∀ (env : Machine) (pid : UInt32) (maps : RenderedMaps),
    env.read (components s!"/proc/{pid}/maps") = some maps.text → RoundTrips env pid maps := by
  intro hall
  obtain ⟨s, hs, hword⟩ := (maps_round_trip_iff (machineWith spacedMaps.text) 1 spacedMaps rfl).1
    (hall _ 1 spacedMaps rfl) _ List.mem_cons_self _ rfl
  have hchars : s.toList = "/opt/my server".toList := encode_injective (utf8?_eq_some_iff.1 hs)
  have hblank := hword ' ' (by rw [hchars]; decide)
  revert hblank
  decide

end RedisTracer
