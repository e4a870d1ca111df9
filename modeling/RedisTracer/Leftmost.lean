import RedisTracer.RespScan
import RedisTracer.Lib.FirstHit

/-!
# The scan against its specification

What the scan of `aya-test/src/resp.rs` is for: the word at the leftmost valid `$`, whatever invalid or
oversized lengths come before it. The scan meets this exactly when no length up to that `$` is
`2 ^ 64` or more and the end of its own word does not overflow.
-/

namespace RedisTracer

open Ascii RespFormat FirstHit

/-- A `&[u8]`: a slice has less than `2 ^ 63` bytes. -/
abbrev ByteSlice := { data : List UInt8 // data.length < 2 ^ 63 }

variable {data ds rest w : List UInt8} {i j : Nat} {c : Cow}

/-- A `$`, the numeral `ds` and CRLF start at `i`; `rest` is what follows. -/
def HeaderAt (data : List UInt8) (i : Nat) (ds rest : List UInt8) : Prop :=
  IsNumeral ds ∧ data.drop i = header dollar ds ++ rest

/-- The length at `i` is `2 ^ 64` or more. -/
def OversizedAt (data : List UInt8) (i : Nat) : Prop :=
  ∃ ds rest, HeaderAt data i ds rest ∧ 2 ^ 64 ≤ value ds

/-- The length at `i` is a `usize`, the end of the word is not. -/
def OverflowsAt (data : List UInt8) (i : Nat) : Prop :=
  ∃ ds rest, HeaderAt data i ds rest ∧ value ds < 2 ^ 64 ∧ 2 ^ 64 ≤ i + ds.length + 3 + value ds

/-- The bytes named at `i`, as far as they are there, are the word `w`. -/
def ValidAt (data : List UInt8) (i : Nat) (w : List UInt8) : Prop :=
  ∃ ds rest, HeaderAt data i ds rest ∧ w = rest.take (value ds) ∧ w ≠ [] ∧ w.all isAlphabetic = true

def LeftmostAt (data : List UInt8) (i : Nat) (w : List UInt8) : Prop :=
  ValidAt data i w ∧ ∀ j < i, ∀ w', ¬ ValidAt data j w'

/-! ### One `$` -/

theorem HeaderAt.unique {ds' rest' : List UInt8} (h : HeaderAt data i ds rest)
    (h' : HeaderAt data i ds' rest') : ds = ds' ∧ rest = rest' :=
  header_append_inj h.1 h'.1 (h.2.symm.trans h'.2)

theorem HeaderAt.mem_positions (h : HeaderAt data i ds rest) : i ∈ positions (· == dollar) data := by
  refine FirstHit.mem_positions.2 ⟨dollar, ?_, by simp⟩
  have hget : (data.drop i)[0]? = some dollar := by rw [h.2]; rfl
  simpa using hget

theorem no_header_at (hi : i ∈ positions (· == dollar) data) (h : ¬ ∃ ds rest, HeaderAt data i ds rest) :
    ∃ p, data.drop i = dollar :: p ∧ parseHeader dollar (dollar :: p) = none := by
  obtain ⟨b, hb, hdollar⟩ := FirstHit.mem_positions.1 hi
  obtain rfl : b = dollar := by simpa using hdollar
  have hdrop : data.drop i = dollar :: data.drop (i + 1) := by
    obtain ⟨hlt, hget⟩ := List.getElem?_eq_some_iff.1 hb
    rw [List.drop_eq_getElem_cons hlt, hget]
  refine ⟨_, hdrop, ?_⟩
  cases hp : parseHeader dollar (dollar :: data.drop (i + 1)) with
  | none => rfl
  | some q =>
    obtain ⟨_, rest⟩ := q
    obtain ⟨ds, hds, -, heq⟩ := parseHeader_inv hp
    exact absurd ⟨ds, rest, hds, hdrop.trans heq⟩ h

theorem scanAt_of_no_headerAt (hi : i ∈ positions (· == dollar) data)
    (h : ¬ ∃ ds rest, HeaderAt data i ds rest) : scanAt data i = none := by
  obtain ⟨p, hp, hparse⟩ := no_header_at hi h
  exact scanAt_of_no_header hp hparse

theorem validAt_iff_wordOf (h : HeaderAt data i ds rest) :
    ValidAt data i w ↔ wordOf (value ds) rest = some w := by
  constructor
  · rintro ⟨ds', rest', h', rfl, hw⟩
    obtain ⟨rfl, rfl⟩ := h.unique h'
    exact if_pos hw
  · intro hw
    refine ⟨ds, rest, h, ?_⟩
    unfold wordOf at hw
    split at hw
    · rename_i hword
      cases hw
      exact ⟨rfl, hword⟩
    · cases hw

theorem HeaderAt.not_oversizedAt (h : HeaderAt data i ds rest) :
    ¬ OversizedAt data i ↔ value ds < 2 ^ 64 := by
  constructor
  · intro hno
    exact Nat.lt_of_not_le fun hle => hno ⟨ds, rest, h, hle⟩
  · rintro hlt ⟨ds', rest', h', hle⟩
    obtain ⟨rfl, -⟩ := h.unique h'
    omega

theorem HeaderAt.not_overflowsAt (h : HeaderAt data i ds rest) (hlt : value ds < 2 ^ 64) :
    ¬ OverflowsAt data i ↔ i + ds.length + 3 + value ds < 2 ^ 64 := by
  constructor
  · intro hno
    exact Nat.lt_of_not_le fun hle => hno ⟨ds, rest, h, hlt, hle⟩
  · rintro hfit ⟨ds', rest', h', -, hle⟩
    obtain ⟨rfl, -⟩ := h.unique h'
    omega

/-- What the scan does at a `$`: it gives up on an oversized length, takes a valid word whose end does
not overflow, and otherwise goes on. -/
theorem scanAt_iff (hlen : data.length < 2 ^ 64) (hi : i ∈ positions (· == dollar) data)
    (r : Option Cow) : scanAt data i = some r ↔
      (r = none ∧ OversizedAt data i) ∨
        ∃ w, ValidAt data i w ∧ ¬ OversizedAt data i ∧ ¬ OverflowsAt data i ∧ r = commandName w := by
  by_cases hhead : ∃ ds rest, HeaderAt data i ds rest
  · obtain ⟨ds, rest, h⟩ := hhead
    have hdata := lt_of_header h.2
    by_cases hbig : OversizedAt data i
    · have hle : ¬ value ds < 2 ^ 64 := fun hlt => h.not_oversizedAt.2 hlt hbig
      rw [scanAt_of_big h.2 h.1 (by omega) (by omega), if_neg hle]
      simp [hbig, eq_comm]
    · have hlt := h.not_oversizedAt.1 hbig
      by_cases hover : OverflowsAt data i
      · have hle : ¬ i + ds.length + 3 + value ds < 2 ^ 64 := fun hfit =>
          (h.not_overflowsAt hlt).2 hfit hover
        rw [scanAt_of_big h.2 h.1 (by omega) (by omega), if_pos hlt]
        simp [hbig, hover]
      · rw [scanAt_of_header h.2 h.1 ((h.not_overflowsAt hlt).1 hover), Option.map_eq_some_iff]
        simp [hbig, hover, validAt_iff_wordOf h, eq_comm]
  · rw [scanAt_of_no_headerAt hi hhead]
    constructor
    · intro h
      cases h
    · rintro (⟨-, ds, rest, h, -⟩ | ⟨w, ⟨ds, rest, h, -⟩, -⟩)
      · exact absurd ⟨ds, rest, h⟩ hhead
      · exact absurd ⟨ds, rest, h⟩ hhead

theorem scanRespCommand_positions (data : List UInt8) :
    scanRespCommand data = ((positions (· == dollar) data).findSome? (scanAt data)).join := by
  rw [positions, List.findSome?_map]; rfl

/-! ### The leftmost word -/

/-- After a valid word whose end overflows there is no `$`: it takes all the rest. -/
theorem not_mem_after (hlen : data.length < 2 ^ 63) (hvalid : ValidAt data i w)
    (hover : OverflowsAt data i) (hij : i < j) : j ∉ positions (· == dollar) data := by
  obtain ⟨ds, rest, h, hlt, hbig⟩ := hover
  obtain ⟨ds', rest', h', rfl, -, hall⟩ := hvalid
  obtain ⟨rfl, rfl⟩ := h.unique h'
  have hdata := lt_of_header h.2
  rw [List.take_of_length_le (by omega)] at hall
  intro hj
  obtain ⟨b, hb, hdollar⟩ := FirstHit.mem_positions.1 hj
  obtain rfl : b = dollar := by simpa using hdollar
  have hmem : dollar ∈ ds ++ cr :: lf :: rest := by
    rw [← drop_digits h.2]
    refine List.mem_of_getElem? (i := j - (i + 1)) ?_
    rw [List.getElem?_drop, Nat.add_sub_cancel' hij]; exact hb
  simp only [List.mem_append, List.mem_cons] at hmem
  rcases hmem with hmem | hmem | hmem | hmem
  · exact not_mem_numeral h.1 rfl hmem
  · exact absurd hmem (by decide)
  · exact absurd hmem (by decide)
  · exact absurd (List.all_eq_true.1 hall _ hmem) (by decide)

/-- The scan returns the leftmost valid word in upper case, and nothing when there is none. -/
structure FindsLeftmost (data : List UInt8) : Prop where
  found : ∀ i w, LeftmostAt data i w →
    (scanRespCommand data).map Cow.asRef = some (str (w.map toUpper))
  missed : (∀ i w, ¬ ValidAt data i w) → scanRespCommand data = none

/-- No length up to the leftmost valid word is oversized, and its own end does not overflow. -/
def LengthsFit (data : List UInt8) : Prop :=
  ∀ i w, LeftmostAt data i w → (∀ j ≤ i, ¬ OversizedAt data j) ∧ ¬ OverflowsAt data i

theorem LeftmostAt.scan (hlen : data.length < 2 ^ 64) (h : LeftmostAt data i w)
    (hsize : ∀ j ≤ i, ¬ OversizedAt data j) (hover : ¬ OverflowsAt data i) :
    scanRespCommand data = commandName w := by
  have hi : i ∈ positions (· == dollar) data := by
    obtain ⟨ds, rest, hhead, -⟩ := h.1
    exact hhead.mem_positions
  rw [scanRespCommand_positions]
  have hfirst : (positions (· == dollar) data).findSome? (scanAt data) = some (commandName w) := by
    refine (findSome?_eq_some (positions_sorted _ _)).2 ⟨i, hi, ?_, fun j hj hji => ?_⟩
    · exact (scanAt_iff hlen hi _).2 (.inr ⟨w, h.1, hsize i (Nat.le_refl i), hover, rfl⟩)
    · rw [← Option.not_isSome_iff_eq_none, Option.isSome_iff_exists]
      rintro ⟨r, hr⟩
      rcases (scanAt_iff hlen hj r).1 hr with ⟨-, hbig⟩ | ⟨w', hw', -⟩
      · exact hsize j (Nat.le_of_lt hji) hbig
      · exact h.2 j hji w' hw'
  rw [hfirst]; rfl

theorem scanRespCommand_first (hlen : data.length < 2 ^ 64) (h : scanRespCommand data = some c) :
    ∃ i w, ValidAt data i w ∧ ¬ OverflowsAt data i ∧ commandName w = some c ∧
      (∀ j ≤ i, ¬ OversizedAt data j) ∧ ∀ j < i, ∀ w', ValidAt data j w' → OverflowsAt data j := by
  rw [scanRespCommand_positions, Option.join_eq_some_iff] at h
  obtain ⟨i, hi, hat, hno⟩ := (findSome?_eq_some (positions_sorted _ _)).1 h
  have hsize : ∀ j < i, ¬ OversizedAt data j := by
    rintro j hji ⟨ds, rest, hhead, hbig⟩
    have hj := hhead.mem_positions
    have hsome := (scanAt_iff hlen hj none).2 (.inl ⟨rfl, ds, rest, hhead, hbig⟩)
    rw [hno j hj hji] at hsome; cases hsome
  rcases (scanAt_iff hlen hi _).1 hat with ⟨hc, -⟩ | ⟨w, hw, hbig, hover, hc⟩
  · cases hc
  · refine ⟨i, w, hw, hover, hc.symm, fun j hji => ?_, fun j hji w' hw' => ?_⟩
    · rcases Nat.lt_or_eq_of_le hji with hlt | rfl
      exacts [hsize j hlt, hbig]
    · by_contra hfit
      obtain ⟨ds, rest, hhead, -⟩ := id hw'
      have hj := hhead.mem_positions
      have hsome := (scanAt_iff hlen hj _).2 (.inr ⟨w', hw', hsize j hji, hfit, rfl⟩)
      rw [hno j hj hji] at hsome; cases hsome

theorem leftmost_scan_iff (data : ByteSlice) : FindsLeftmost data.1 ↔ LengthsFit data.1 := by
  obtain ⟨data, hlen⟩ := data
  have hlen' : data.length < 2 ^ 64 := Nat.lt_trans hlen (by omega)
  constructor
  · intro hfinds i w h
    obtain ⟨c, hc, -⟩ := Option.map_eq_some_iff.1 (hfinds.found i w h)
    obtain ⟨k, w', hw', hfit, -, hsize, hbefore⟩ := scanRespCommand_first hlen' hc
    rcases Nat.lt_trichotomy k i with hlt | rfl | hlt
    · exact absurd hw' (h.2 k hlt w')
    · exact ⟨hsize, hfit⟩
    · -- the leftmost word would overflow and take all the rest
      obtain ⟨ds, rest, hhead, -⟩ := hw'
      exact absurd hhead.mem_positions (not_mem_after hlen h.1 (hbefore i hlt w h.1) hlt)
  · intro hfit
    refine ⟨fun i w h => ?_, fun hno => ?_⟩
    · obtain ⟨hsize, hover⟩ := hfit i w h
      obtain ⟨_, _, _, -, -, hall⟩ := h.1
      obtain ⟨c, hc, href⟩ := commandName_asRef hall
      rw [h.scan hlen' hsize hover, hc, Option.map_some, href]
    · rw [← Option.not_isSome_iff_eq_none, Option.isSome_iff_exists]
      rintro ⟨c, hc⟩
      obtain ⟨i, w, hw, -⟩ := scanRespCommand_first hlen' hc
      exact hno i w hw

/-- `$18446744073709551616 CRLF`, and then a bulk `PING`. -/
def hiddenPing : ByteSlice :=
  ⟨header dollar [49, 56, 52, 52, 54, 55, 52, 52, 48, 55, 51, 55, 48, 57, 53, 53, 49, 54, 49, 54] ++
    (header dollar [52] ++ [80, 73, 78, 71]), by simp [header]⟩

theorem not_leftmost_scan : ¬ ∀ data : ByteSlice, FindsLeftmost data.1 := by
  intro hall
  have hhead : HeaderAt hiddenPing.1 0 [49, 56, 52, 52, 54, 55, 52, 52, 48, 55, 51, 55, 48, 57, 53, 53,
      49, 54, 49, 54] (header dollar [52] ++ [80, 73, 78, 71]) :=
    ⟨⟨by simp, List.all_eq_true.1 rfl⟩, rfl⟩
  have hping : HeaderAt hiddenPing.1 23 [52] [80, 73, 78, 71] :=
    ⟨⟨by simp, List.all_eq_true.1 rfl⟩, rfl⟩
  have hpos : positions (· == dollar) hiddenPing.1 = [0, 23] := by rfl
  have hfirst : LeftmostAt hiddenPing.1 23 [80, 73, 78, 71] := by
    refine ⟨(validAt_iff_wordOf hping).2 rfl, fun j hj w hw => ?_⟩
    obtain ⟨ds, rest, hjhead, -⟩ := id hw
    have hmem := hjhead.mem_positions
    rw [hpos, List.mem_cons, List.mem_singleton] at hmem
    rcases hmem with rfl | rfl
    · -- the oversized length takes the second `$` too
      obtain ⟨_, _, h', rfl, -, hletters⟩ := hw
      obtain ⟨rfl, rfl⟩ := hhead.unique h'
      rw [List.take_of_length_le (by
        simp [header, value, Nat.ofDigits_cons])] at hletters
      cases hletters
    · omega
  have hsome := (hall hiddenPing).found 23 _ hfirst
  have hnone : scanRespCommand hiddenPing.1 = none := by rfl
  rw [hnone] at hsome; cases hsome

end RedisTracer
