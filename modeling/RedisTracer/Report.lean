import RedisTracer.Ledger

/-!
# The command report

`truncate_cmd` cuts a name after 14 bytes. Every label the scan finds is ASCII, so only a label the
decoder produced can be cut inside a character.
-/

namespace RedisTracer

open Ascii RespFormat GroupFold

variable {H : Type} [HdrHistogram H] {dec : RespDecoder} {up : UpperTable}
  {evs : List LatencyEvent} {ev : LatencyEvent}

def recordAll (H : Type) [HdrHistogram H] (dec : RespDecoder) (up : UpperTable)
    (evs : List LatencyEvent) : CommandStats H :=
  evs.foldl (CommandStats.recordEvent dec up) .new

/-- The capture comes to the decoder and is an array whose first text, in upper case, has byte 14
inside a character. -/
def CutInside (dec : RespDecoder) (up : UpperTable) (reqData : Vector UInt8 32) : Prop :=
  4 ≤ (payload reqData).length ∧ scanRespCommand (payload reqData) = none ∧
    ∃ text rest, dec (payload reqData) = some (.array (.bulk text :: rest)) ∧
      14 < (up.toUppercase text).utf8ByteSize ∧
      ¬ (⟨14⟩ : String.Pos.Raw).IsValid (up.toUppercase text)

/-! ### Labels -/

theorem truncateCmd_eq_none {name : String} {max : Nat} : truncateCmd name max = none ↔
    max < name.utf8ByteSize ∧ ¬ (⟨max⟩ : String.Pos.Raw).IsValid name := by
  rw [← String.Pos.Raw.isValid_eq_true_iff, truncateCmd]
  split
  · simp; omega
  · split <;> simp_all

theorem truncateCmd_str {bs : List UInt8} (h : ∀ b ∈ bs, b.toNat < 128) (max : Nat) :
    truncateCmd (str bs) max ≠ none := by
  rw [Ne, truncateCmd_eq_none]
  rintro ⟨hlt, hnot⟩
  exact hnot (isValid_str h (Nat.le_of_lt hlt))

theorem truncateCmd_label (reqData : Vector UInt8 32) :
    truncateCmd (classifyCommand dec up reqData).asRef 14 = none ↔ CutInside dec up reqData := by
  have hother : truncateCmd "OTHER" 14 ≠ none := by decide
  unfold classifyCommand CutInside
  dsimp only
  split
  · rename_i hlen
    exact ⟨fun h => absurd h hother, fun h => absurd h.1 (by omega)⟩
  · rename_i hlen
    cases hscan : scanRespCommand (payload reqData) with
    | some c =>
      obtain ⟨w, hw, href⟩ := scanRespCommand_some hscan
      have hsafe := truncateCmd_str (map_toUpper_lt (lt_of_all_alphabetic hw)) 14
      exact ⟨fun h => absurd (href ▸ h) hsafe, fun h => absurd h.2.1 (by simp)⟩
    | none =>
      dsimp only
      unfold decodeFallback
      split
      · rename_i text rest hdec
        rw [Cow.asRef, truncateCmd_eq_none]
        refine ⟨fun h => ⟨by omega, rfl, text, rest, hdec, h⟩, ?_⟩
        rintro ⟨-, -, text', rest', hdec', h⟩
        cases hdec.symm.trans hdec'
        exact h
      · rename_i hno
        refine ⟨fun h => absurd h hother, ?_⟩
        rintro ⟨-, -, text, rest, hdec, -⟩
        exact absurd hdec (hno text rest)

/-! ### Reports -/

theorem mapM_isSome {α β : Type} {f : α → Option β} {l : List α} :
    (l.mapM f).isSome ↔ ∀ a ∈ l, (f a).isSome := by
  induction l with
  | nil => simp
  | cons a l ih =>
    rw [List.mapM_cons, List.forall_mem_cons, ← ih]
    cases f a <;> cases l.mapM f <;> simp

omit [HdrHistogram H] in
theorem CommandStats.report_isSome {cs : CommandStats H} :
    cs.report.isSome ↔ ∀ c s, cs.commands.lookup c = some s → s.total > 0 → truncateCmd c 14 ≠ none := by
  unfold CommandStats.report
  rw [mapM_isSome]
  simp only [List.mem_mergeSort, List.mem_filter, decide_eq_true_eq, Option.isSome_map,
    Option.isSome_iff_ne_none]
  constructor
  · exact fun h c s hs hpos => h ⟨c, s⟩ ⟨AList.mem_lookup_iff.1 hs, hpos⟩
  · exact fun h e he => h e.1 e.2 (AList.mem_lookup_iff.2 he.1) he.2

theorem recordAll_eq (evs : List LatencyEvent) : (recordAll H dec up evs).commands =
    group .new LatencyStats.recordEvent (labelOf dec up) evs := CommandStats.commands_foldl ..

/-- The report after the first event with a label that cannot be cut panics. -/
theorem exists_report_none (hev : ev ∈ evs) (hcut : CutInside dec up ev.reqData) :
    ∃ seen, seen <+: evs ∧ (recordAll H dec up seen).report = none := by
  have hsome : (evs.find? fun a => labelOf dec up a = labelOf dec up ev).isSome :=
    List.find?_isSome.2 ⟨ev, hev, decide_eq_true rfl⟩
  obtain ⟨first, hfind⟩ := Option.isSome_iff_exists.1 hsome
  obtain ⟨hlabel, pre, post, rfl, hpre⟩ := List.find?_eq_some_iff_append.1 hfind
  refine ⟨pre ++ [first], ⟨post, by simp⟩, ?_⟩
  have hkey : ofKey (labelOf dec up) (labelOf dec up ev) (pre ++ [first]) = [first] := by
    rw [ofKey, List.filter_append, List.filter_eq_nil_iff.2 fun a ha => by simpa using hpre a ha]
    simp [of_decide_eq_true hlabel]
  have hlookup : (recordAll H dec up (pre ++ [first])).commands.lookup (labelOf dec up ev) =
      some (LatencyStats.recordEvent .new first) := by
    rw [recordAll_eq, lookup_group, hkey]; rfl
  rw [← Option.not_isSome_iff_eq_none, CommandStats.report_isSome]
  exact fun h => h _ _ hlookup (by decide : (0 : UInt64) + 1 > 0) ((truncateCmd_label _).2 hcut)

/-- The report panics at some point of a run exactly when some capture is cut inside a character. -/
theorem report_safe_iff (H : Type) [HdrHistogram H] (dec : RespDecoder) (up : UpperTable)
    (evs : List LatencyEvent) :
    (∀ seen, seen <+: evs → (recordAll H dec up seen).report.isSome) ↔
      ∀ ev ∈ evs, ¬ CutInside dec up ev.reqData := by
  constructor
  · intro h ev hev hcut
    obtain ⟨seen, hseen, hnone⟩ := exists_report_none (H := H) hev hcut
    have := h seen hseen
    rw [hnone] at this; cases this
  · intro h seen hseen
    rw [CommandStats.report_isSome]
    intro c s hs _ hnone
    rw [recordAll_eq] at hs
    obtain ⟨ev, hev, rfl⟩ := exists_lookup_group.1 ⟨s, hs⟩
    exact h ev (hseen.subset hev) ((truncateCmd_label _).1 hnone)

def wideName : List UInt8 := [97, 98, 99, 100, 101, 102, 103, 104, 105, 106, 107, 108, 109, 228, 184, 173]

theorem cutInside_wideName : CutInside bulkDecoder asciiUpper (capture (encode [wideName])) := by
  refine ⟨by decide, by decide, "abcdefghijklm中", [], ?_, by decide, ?_⟩
  · have hwhole : payload (capture (encode [wideName])) = encode [wideName] := by decide
    rw [hwhole]
    exact bulkDecoder_lawful.complete _ ["abcdefghijklm中"] (by decide)
  · rw [← String.Pos.Raw.isValid_eq_true_iff]; decide

/-- One such request, and the report panics. -/
theorem report_panics : ¬ ∀ evs seen, seen <+: evs →
    (recordAll CountingHistogram bulkDecoder asciiUpper seen).report.isSome := by
  intro h
  let ev : LatencyEvent := ⟨100, 100, 5000, 5, 16777343, 40000, 0, 0, capture (encode [wideName])⟩
  obtain ⟨seen, hseen, hnone⟩ := exists_report_none (H := CountingHistogram)
    (List.mem_singleton_self ev) cutInside_wideName
  have hsome := h [ev] seen hseen
  rw [hnone] at hsome; cases hsome

end RedisTracer
