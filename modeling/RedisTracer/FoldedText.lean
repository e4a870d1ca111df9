import RedisTracer.Folding

/-!
# The folded text

One line for each entry of the folded map, the frames joined by `;` and the count after a space. Nothing
is escaped: the text decodes to the stacks as long as no name holds a `;` or a newline.
-/

namespace RedisTracer

open GroupFold Text

/-- `format!("{} {}\n", stack, count)` for each entry. -/
def serialise (entries : List (Σ _ : String, UInt64)) : String :=
  String.join (entries.map fun e => s!"{e.1} {e.2}\n")

/-- The count stands after the last space. -/
def decodeLine (line : List Char) : Option (List String × Nat) :=
  if ' ' ∈ line then
    (magnitude 10 (line.rtakeWhile (· ≠ ' '))).map fun count =>
      (((line.rdropWhile (· ≠ ' ')).dropLast.splitOn ';').map String.ofList, count)
  else none

/-- The folded format as its reader takes it. -/
def decodeFolded (buf : String) : Option (List (List String × Nat)) := (lines buf.toList).mapM decodeLine

/-- The different stacks, each with the number of its samples. -/
def stackCounts (env : Machine) (samples : List StackEvent) : List (List String × Nat) :=
  (frameLists env samples).dedup.map fun fs => (fs, (frameLists env samples).count fs)

/-- In whatever order the map is serialised, the text decodes to the stacks. -/
def DecodesBack (env : Machine) (samples : List StackEvent) : Prop :=
  ∀ entries, entries.Perm (generateFolded env samples).entries →
    ∃ decoded, decodeFolded (serialise entries) = some decoded ∧ decoded.Perm (stackCounts env samples)

/-- No separator of the format. -/
def Clean (fs : List String) : Prop := ∀ name ∈ fs, ';' ∉ name.toList ∧ '\n' ∉ name.toList

variable {env : Machine} {samples : Samples} {fs gs : List String} {lists : List (List String)}
  {keys : List String}

/-! ### One line -/

def entryLine (e : Σ _ : String, UInt64) : List Char := e.1.toList ++ ' ' :: Nat.toDigits 10 e.2.toNat

def decodeEntry (e : Σ _ : String, UInt64) : List String × Nat :=
  ((e.1.toList.splitOn ';').map String.ofList, e.2.toNat)

theorem digit_ne {n : Nat} {c d : Char} (hc : c ∈ Nat.toDigits 10 n) (hd : d.isDigit = false) : c ≠ d := by
  rintro rfl
  rw [Nat.isDigit_of_mem_toDigits (by omega) (by omega) hc] at hd
  cases hd

theorem decodeLine_entryLine (e : Σ _ : String, UInt64) : decodeLine (entryLine e) = some (decodeEntry e) := by
  have hdigits : ∀ c ∈ Nat.toDigits 10 e.2.toNat, decide (c ≠ ' ') = true := by
    intro c hc
    simpa using digit_ne hc rfl
  have hspace : decide (' ' ≠ ' ') = false := by simp
  rw [decodeLine, if_pos (by simp [entryLine]), entryLine, rtakeWhile_append_cons hdigits hspace,
    rdropWhile_append_cons hdigits hspace, magnitude_toDigits (by omega) (by omega),
    List.dropLast_concat]
  rfl

theorem stripCr_entryLine (e : Σ _ : String, UInt64) : stripCr (entryLine e) = entryLine e := by
  refine if_neg fun hlast => ?_
  have hmem : '\r' ∈ Nat.toDigits 10 e.2.toNat := by
    rw [entryLine, List.getLast?_append_cons] at hlast
    rw [List.getLast?_cons_of_ne_nil Nat.toDigits_ne_nil] at hlast
    exact List.mem_of_getLast? hlast
  exact digit_ne hmem rfl rfl

/-! ### The text -/

theorem toList_serialise (entries : List (Σ _ : String, UInt64)) :
    (serialise entries).toList = (entries.map entryLine).flatMap fun l => l ++ ['\n'] := by
  rw [serialise, String.toList_join, List.flatMap_map, List.flatMap_map]
  congr 1
  funext e
  have hcount : (toString e.2).toList = Nat.toDigits 10 e.2.toNat := Nat.toList_repr
  show (e.1 ++ " " ++ toString e.2 ++ "\n").toList = _
  simp [hcount, entryLine]

theorem decodeFolded_serialise {entries : List (Σ _ : String, UInt64)}
    (h : ∀ e ∈ entries, '\n' ∉ e.1.toList) :
    decodeFolded (serialise entries) = some (entries.map decodeEntry) := by
  have hlines : ∀ l ∈ entries.map entryLine, '\n' ∉ l := by
    intro l hl
    obtain ⟨e, he, rfl⟩ := List.mem_map.1 hl
    rw [entryLine, List.mem_append, List.mem_cons, not_or, not_or]
    exact ⟨h e he, by decide, fun hmem => digit_ne hmem rfl rfl⟩
  rw [decodeFolded, toList_serialise, lines_flatMap _ hlines, List.map_map, List.mapM_map]
  have hline : (fun e => decodeLine (stripCr (entryLine e))) = fun e => pure (decodeEntry e) := by
    funext e
    rw [stripCr_entryLine, decodeLine_entryLine]
    rfl
  show entries.mapM (fun e => decodeLine (stripCr (entryLine e))) = _
  rw [hline, List.mapM_pure]
  rfl

/-! ### Joined names -/

theorem split_join (hne : fs ≠ []) (hclean : Clean fs) :
    ((";".intercalate fs).toList.splitOn ';').map String.ofList = fs := by
  have hsep : ∀ l ∈ fs.map String.toList, ';' ∉ l := by
    intro l hl
    obtain ⟨name, hname, rfl⟩ := List.mem_map.1 hl
    exact (hclean name hname).1
  have htext : (";".intercalate fs).toList = [';'].intercalate (fs.map String.toList) :=
    String.toList_intercalate
  rw [htext, List.splitOn_intercalate ';' hsep (by simpa using hne), List.map_map]
  have hid : String.ofList ∘ String.toList = id := by
    funext s
    exact String.ofList_toList
  rw [hid, List.map_id]

theorem newline_not_mem_join (hclean : Clean fs) : '\n' ∉ (";".intercalate fs).toList := by
  induction fs with
  | nil => simp
  | cons name fs ih =>
    have ih := ih fun name' h => hclean name' (List.mem_cons_of_mem _ h)
    have hname := (hclean name List.mem_cons_self).2
    cases fs with
    | nil => simpa using hname
    | cons name' fs =>
      rw [String.intercalate_cons_cons]
      simpa [hname] using ih

theorem join_injOn (hne : fs ≠ []) (hne' : gs ≠ []) (hclean : Clean fs) (hclean' : Clean gs)
    (h : ";".intercalate fs = ";".intercalate gs) : fs = gs := by
  rw [← split_join hne hclean, h, split_join hne' hclean']

/-! ### The stacks read back -/

section
variable (hne : ∀ fs ∈ lists, fs ≠ []) (hclean : ∀ fs ∈ lists, Clean fs)
include hne hclean

theorem keys_perm (hkeys : ∀ k, k ∈ keys ↔ k ∈ lists.map fun fs => ";".intercalate fs)
    (hnodup : keys.Nodup) : keys.Perm (lists.dedup.map fun fs => ";".intercalate fs) := by
  refine (List.perm_ext_iff_of_nodup hnodup ?_).2 fun k => ?_
  · refine (List.nodup_dedup lists).map_on fun fs hfs gs hgs h => ?_
    rw [List.mem_dedup] at hfs hgs
    exact join_injOn (hne fs hfs) (hne gs hgs) (hclean fs hfs) (hclean gs hgs) h
  · rw [hkeys]
    simp only [List.mem_map, List.mem_dedup]

theorem length_ofKey_join (hfs : fs ∈ lists) :
    (ofKey (fun fs => ";".intercalate fs) (";".intercalate fs) lists).length = lists.count fs := by
  rw [ofKey, List.count_eq_length_filter]
  congr 1
  refine List.filter_congr fun gs hgs => ?_
  rw [Bool.eq_iff_iff, decide_eq_true_iff, beq_iff_eq]
  constructor
  · exact join_injOn (hne gs hgs) (hne fs hfs) (hclean gs hgs) (hclean fs hfs)
  · exact congrArg _

end

theorem ne_nil_of_mem_frameLists {samples : List StackEvent} (h : fs ∈ frameLists env samples) : fs ≠ [] := by
  simpa using (List.mem_filter.1 h).2

theorem decodesBack_of_clean (env : Machine) (samples : Samples)
    (hclean : ∀ fs ∈ frameLists env samples.events, Clean fs) : DecodesBack env samples.events := by
  intro entries hperm
  have hne : ∀ fs ∈ frameLists env samples.events, fs ≠ [] := fun _ => ne_nil_of_mem_frameLists
  have hkey : ∀ k, k ∈ (generateFolded env samples.events).keys ↔
      k ∈ (frameLists env samples.events).map fun fs => ";".intercalate fs := by
    intro k
    rw [generateFolded_eq, mem_keys_group]
  refine ⟨entries.map decodeEntry, decodeFolded_serialise fun e he => ?_, ?_⟩
  · have hmem : e.1 ∈ (generateFolded env samples.events).keys := List.mem_map_of_mem (hperm.mem_iff.1 he)
    obtain ⟨fs, hfs, hjoin⟩ := List.mem_map.1 ((hkey e.1).1 hmem)
    rw [← hjoin]
    exact newline_not_mem_join (hclean fs hfs)
  · -- an entry is read back from its key alone
    let read (k : String) : List String × Nat := ((k.toList.splitOn ';').map String.ofList,
      (ofKey (fun fs => ";".intercalate fs) k (frameLists env samples.events)).length)
    have hread : ∀ e ∈ (generateFolded env samples.events).entries, decodeEntry e = read e.1 := by
      intro e he
      rw [decodeEntry, toNat_lookup env samples (AList.mem_lookup_iff.2 he)]
    have hstack : ∀ fs ∈ (frameLists env samples.events).dedup,
        read (";".intercalate fs) = (fs, (frameLists env samples.events).count fs) := by
      intro fs hfs
      rw [List.mem_dedup] at hfs
      exact Prod.ext (split_join (hne fs hfs) (hclean fs hfs)) (length_ofKey_join hne hclean hfs)
    calc (entries.map decodeEntry).Perm ((generateFolded env samples.events).entries.map decodeEntry) :=
          hperm.map _
      _ = (generateFolded env samples.events).keys.map read := by
          rw [List.map_congr_left hread, AList.keys, List.keys, List.map_map]
          rfl
      List.Perm _ (((frameLists env samples.events).dedup.map fun fs => ";".intercalate fs).map read) :=
          (keys_perm hne hclean hkey (AList.keys_nodup _)).map _
      _ = stackCounts env samples.events := by
          rw [List.map_map, stackCounts]
          exact List.map_congr_left hstack

theorem exists_of_mem_mapM {α β : Type} {f : α → Option β} {as : List α} {bs : List β} {b : β}
    (h : as.mapM f = some bs) (hb : b ∈ bs) : ∃ a ∈ as, f a = some b := by
  induction as generalizing bs with
  | nil =>
    cases h
    cases hb
  | cons a as ih =>
    rw [List.mapM_cons] at h
    obtain ⟨b', hb', h⟩ := Option.bind_eq_some_iff.1 h
    obtain ⟨bs', hbs', h⟩ := Option.bind_eq_some_iff.1 h
    cases h
    rcases List.mem_cons.1 hb with rfl | hb
    · exact ⟨a, List.mem_cons_self, hb'⟩
    · obtain ⟨a', ha', hf⟩ := ih hbs' hb
      exact ⟨a', List.mem_cons_of_mem _ ha', hf⟩

/-- A decoded name holds no separator. -/
theorem clean_of_decodeLine {line : List Char} {n : Nat} (hline : '\n' ∉ line)
    (h : decodeLine line = some (fs, n)) : Clean fs := by
  unfold decodeLine at h
  split at h
  · obtain ⟨count, -, heq⟩ := Option.map_eq_some_iff.1 h
    cases heq
    intro name hname
    obtain ⟨l, hl, rfl⟩ := List.mem_map.1 hname
    rw [String.toList_ofList]
    obtain ⟨hnot, hsub⟩ := mem_splitOn hl
    exact ⟨hnot, fun hmem => hline ((List.rdropWhile_prefix _ _).subset (List.mem_of_mem_dropLast (hsub _ hmem)))⟩
  · cases h

theorem clean_of_decodeFolded {buf : String} {decoded : List (List String × Nat)} {n : Nat}
    (h : decodeFolded buf = some decoded) (hmem : (fs, n) ∈ decoded) : Clean fs := by
  unfold decodeFolded at h
  obtain ⟨line, hline, hdecode⟩ := exists_of_mem_mapM h hmem
  exact clean_of_decodeLine (not_mem_of_mem_lines hline) hdecode

theorem folded_text_decodes_iff (env : Machine) (samples : Samples) :
    DecodesBack env samples.events ↔ ∀ fs ∈ frameLists env samples.events, Clean fs := by
  refine ⟨fun hback fs hfs => ?_, decodesBack_of_clean env samples⟩
  obtain ⟨decoded, hdecoded, hperm⟩ := hback _ (List.Perm.refl _)
  refine clean_of_decodeFolded hdecoded (hperm.mem_iff.2 (List.mem_map.2 ⟨fs, ?_, rfl⟩))
  exact List.mem_dedup.2 hfs

/-! ### A name with a separator -/

def separatorMaps : String := "1-3 r-xp 00000010 08:01 7 /bin/server\n"

/-- A process whose only mapping is a file with the one symbol `operator;`. -/
def separatorMachine : Machine where
  read path := some (if path = components "/proc/1/maps" then Ascii.bytes separatorMaps else [])
  parse _ := some ⟨[⟨1, 0x12, 1, 0x10⟩], [], fun _ => some "operator;", fun _ => none⟩
  search := .first

theorem separatorMachine_maps : parseMaps separatorMachine 1 = [⟨1, 3, 0x10, "/bin/server"⟩] := by
  have htext : readToString separatorMachine "/proc/1/maps" = some separatorMaps := by
    have hread : separatorMachine.read (components "/proc/1/maps") = some (Ascii.bytes separatorMaps) := by
      simp [separatorMachine]
    rw [readToString, hread, Option.bind_some, Ascii.utf8?_bytes]
  have hpid : s!"/proc/{(1 : UInt32)}/maps" = "/proc/1/maps" := by decide
  have hline : (lines separatorMaps.toList).filterMap mapsLine = [⟨1, 3, 0x10, "/bin/server"⟩] := by decide
  rw [parseMaps, hpid, htext, Option.getD_some, hline, List.mergeSort_singleton]

theorem separatorMachine_name :
    resolveFresh separatorMachine (parseMaps separatorMachine 1) 2 = "operator;" := by
  have hsyms : readSyms separatorMachine (components "/bin/server") = [(0x10, "operator;")] :=
    List.mergeSort_singleton _
  rw [separatorMachine_maps, resolveFresh]
  show symbolStep .first (readSyms separatorMachine (components "/bin/server")) 0x11 "/bin/server" = _
  rw [hsyms]
  decide

theorem not_folded_text_decodes : ¬ ∀ (env : Machine) (samples : Samples), DecodesBack env samples.events := by
  intro hall
  let samples : Samples := ⟨[userSample], by decide⟩
  have hmem : resolvedFrames separatorMachine 1 userSample ∈ frameLists separatorMachine samples.events := by
    refine List.mem_filter.2 ⟨List.mem_cons_self, ?_⟩
    rw [not_isEmpty]
    decide
  have hname : "operator;" ∈ resolvedFrames separatorMachine 1 userSample := by
    refine List.mem_append.2 (.inr (List.mem_map.2 ⟨2, ?_, separatorMachine_name⟩))
    decide
  obtain ⟨hclean, -⟩ := (folded_text_decodes_iff separatorMachine samples).1 (hall _ _) _ hmem _ hname
  exact hclean (by decide)

end RedisTracer
