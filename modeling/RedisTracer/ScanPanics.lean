import RedisTracer.Leftmost
import RedisTracer.Classify

/-!
# Panics

The classifier of `aya-test/src/resp.rs` as a build with overflow checks runs it: every `+` on a
`usize`, every index and every slice can panic. Only one of them does, the sum `cmd_start + len`,
which is formed before it is clamped. Without a panic this is the classifier of `RedisTracer.Resp`.
-/

namespace RedisTracer

open Ascii RespFormat FirstHit

inductive Panic
  | addOverflow
  | indexOutOfBounds
  | sliceOutOfRange
deriving DecidableEq, Repr

def checkedAdd (a b : Nat) : Except Panic Nat :=
  if a + b < 2 ^ 64 then .ok (a + b) else .error .addOverflow

def checkedIndex (data : List UInt8) (i : Nat) : Except Panic UInt8 :=
  match data[i]? with
  | some b => .ok b
  | none => .error .indexOutOfBounds

/-- `&data[lo..hi]` -/
def checkedSlice (data : List UInt8) (lo hi : Nat) : Except Panic (List UInt8) :=
  if lo ≤ hi ∧ hi ≤ data.length then .ok (data.extract lo hi) else .error .sliceOutOfRange

def digitEndChecked (data : List UInt8) (start : Nat) : Except Panic Nat := do
  let digits ← checkedSlice data start data.length
  match digits.findIdx? fun b => !isDigit b with
  | some p => checkedAdd start p
  | none => pure data.length

/-- The condition of the `if`; an operand of `&&` is computed when those before it hold. -/
def crlfChecked (data : List UInt8) (start digitEnd : Nat) : Except Panic Bool := do
  if digitEnd > start then
    if (← checkedAdd digitEnd 1) < data.length then
      if (← checkedIndex data digitEnd) = cr then
        return (← checkedIndex data (← checkedAdd digitEnd 1)) = lf
      else return false
    else return false
  else return false

def scanAtChecked (data : List UInt8) (i : Nat) : Except Panic (Option (Option Cow)) := do
  let start ← checkedAdd i 1
  let digitEnd ← digitEndChecked data start
  if ← crlfChecked data start digitEnd then
    match (utf8? (← checkedSlice data start digitEnd)).bind parseUsize with
    | none => return some none
    | some len =>
      let cmdStart ← checkedAdd digitEnd 2
      let cmdEnd := min (← checkedAdd cmdStart len) data.length
      if cmdEnd > cmdStart then
        let bs ← checkedSlice data cmdStart cmdEnd
        return if !bs.all isAlphabetic then none else some (commandName bs)
      else return none
  else return none

def scanRespCommandChecked (data : List UInt8) : Except Panic (Option Cow) := do
  return (← (positions (· == dollar) data).findSomeM? (scanAtChecked data)).join

def classifyCommandChecked (dec : RespDecoder) (up : UpperTable) (reqData : Vector UInt8 32) :
    Except Panic Cow := do
  let data ← checkedSlice reqData.toList 0 ((reqData.toList.findIdx? (· == 0)).getD 32)
  if data.length < 4 then return .borrowed "OTHER" else
    match ← scanRespCommandChecked data with
    | some cmd => return cmd
    | none => return decodeFallback dec up data

variable {data ds rest w : List UInt8} {i n a b lo hi : Nat}

/-! ### Operations in range -/

@[simp] theorem ok_bind {α β : Type} (x : α) (f : α → Except Panic β) :
    ((Except.ok x : Except Panic α) >>= f) = f x := rfl

@[simp] theorem pure_eq_ok {α : Type} (x : α) : (pure x : Except Panic α) = .ok x := rfl

@[simp] theorem error_bind {α β : Type} (e : Panic) (f : α → Except Panic β) :
    ((Except.error e : Except Panic α) >>= f) = .error e := rfl

theorem checkedAdd_ok (h : a + b < 2 ^ 64) : checkedAdd a b = .ok (a + b) := if_pos h

theorem checkedSlice_ok (hle : lo ≤ hi) (hhi : hi ≤ data.length) :
    checkedSlice data lo hi = .ok (data.extract lo hi) := if_pos ⟨hle, hhi⟩

theorem checkedIndex_ok {x : UInt8} (h : data[i]? = some x) : checkedIndex data i = .ok x := by
  rw [checkedIndex, h]

theorem checkedIndex_eq (h : i < data.length) : checkedIndex data i = .ok data[i] :=
  checkedIndex_ok (List.getElem?_eq_getElem h)

section
variable (hlen : data.length < 2 ^ 63)
include hlen

theorem digitEndChecked_eq (h : n ≤ data.length) : digitEndChecked data n = .ok (digitEnd data n) := by
  have hslice : data.extract n data.length = data.drop n := by simp
  rw [digitEndChecked, checkedSlice_ok h (Nat.le_refl _), digitEnd, hslice]
  rw [ok_bind]
  cases hp : (data.drop n).findIdx? fun b => !isDigit b with
  | none => rfl
  | some p =>
    have hlt := (List.findIdx?_eq_some_iff_getElem.1 hp).1
    rw [List.length_drop] at hlt
    exact checkedAdd_ok (by omega)

theorem crlfChecked_eq (h : n ≤ data.length) : crlfChecked data i n =
    .ok (decide (n > i ∧ n + 1 < data.length ∧ data[n]? = some cr ∧ data[n + 1]? = some lf)) := by
  have hnext : checkedAdd n 1 = .ok (n + 1) := checkedAdd_ok (by omega)
  unfold crlfChecked
  by_cases hgt : n > i
  · rw [if_pos hgt, hnext]
    by_cases hlt : n + 1 < data.length
    · have hn : n < data.length := by omega
      by_cases hcr : data[n] = cr
      · simp [hgt, hlt, hn, checkedIndex_eq, hcr]
      · simp [hgt, hlt, hn, checkedIndex_eq, hcr]
    · simp [hlt]
  · simp [hgt]

/-! ### One `$` -/

theorem HeaderAt.scanAtChecked_eq (h : HeaderAt data i ds rest) : scanAtChecked data i =
    if value ds < 2 ^ 64 ∧ 2 ^ 64 ≤ i + ds.length + 3 + value ds then .error .addOverflow
      else .ok (scanAt data i) := by
  have hdata := lt_of_header h.2
  have hslice : checkedSlice data (i + 1) (i + 1 + ds.length) = .ok ds := by
    rw [checkedSlice_ok (by omega) (by omega), extract_digits h.2]
  rw [scanAt_header h.2 h.1, scanAtChecked, checkedAdd_ok (by omega), ok_bind,
    digitEndChecked_eq hlen (by omega), ok_bind, digitEnd_header h.2 h.1,
    crlfChecked_eq hlen (by omega), ok_bind, decide_eq_true (crlf_header h.2 h.1), if_pos rfl,
    hslice, ok_bind, parseUsize_str h.1]
  by_cases hbig : value ds < 2 ^ 64
  · simp only [hbig, true_and, if_true]
    rw [checkedAdd_ok (by omega), ok_bind]
    by_cases hsum : 2 ^ 64 ≤ i + ds.length + 3 + value ds
    · rw [if_pos hsum, checkedAdd, if_neg (by omega), error_bind]
    · rw [if_neg hsum, checkedAdd_ok (by omega), ok_bind, Nat.mod_eq_of_lt (by omega)]
      split
      · rename_i hgt
        rw [checkedSlice_ok (by omega) (by omega), ok_bind, List.extract_eq_take_drop, drop_word h.2]
        rfl
      · rfl
  · simp only [hbig, false_and, if_false]
    rfl

theorem scanAtChecked_of_no_header (hi : i ∈ positions (· == dollar) data)
    (h : ¬ ∃ ds rest, HeaderAt data i ds rest) : scanAtChecked data i = .ok none := by
  obtain ⟨p, hp, hparse⟩ := no_header_at hi h
  have hdata : i < data.length := by
    by_contra hle
    rw [List.drop_of_length_le (Nat.le_of_not_lt hle)] at hp; cases hp
  have hend := digitEnd_le (show i + 1 ≤ data.length by omega)
  rw [scanAtChecked, checkedAdd_ok (by omega), ok_bind, digitEndChecked_eq hlen (by omega), ok_bind,
    crlfChecked_eq hlen hend, ok_bind, decide_eq_false (no_crlf_of_no_header hp hparse)]
  rfl

theorem scanAtChecked_eq (hi : i ∈ positions (· == dollar) data) (h : ¬ OverflowsAt data i) :
    scanAtChecked data i = .ok (scanAt data i) := by
  by_cases hhead : ∃ ds rest, HeaderAt data i ds rest
  · obtain ⟨ds, rest, hhead⟩ := hhead
    rw [hhead.scanAtChecked_eq hlen, if_neg]
    rintro ⟨hlt, hle⟩
    exact h ⟨ds, rest, hhead, hlt, hle⟩
  · rw [scanAtChecked_of_no_header hlen hi hhead, scanAt_of_no_headerAt hi hhead]

theorem OverflowsAt.scanAtChecked (h : OverflowsAt data i) :
    scanAtChecked data i = .error .addOverflow := by
  obtain ⟨ds, rest, hhead, hlt, hle⟩ := h
  rw [hhead.scanAtChecked_eq hlen, if_pos ⟨hlt, hle⟩]

/-! ### The loop -/

theorem scanAtChecked_error {e : Panic} (hi : i ∈ positions (· == dollar) data)
    (h : scanAtChecked data i = .error e) : OverflowsAt data i ∧ e = .addOverflow := by
  by_cases hover : OverflowsAt data i
  · rw [hover.scanAtChecked hlen] at h
    cases h
    exact ⟨hover, rfl⟩
  · rw [scanAtChecked_eq hlen hi hover] at h; cases h

theorem scanAtChecked_ok {o : Option (Option Cow)} (hi : i ∈ positions (· == dollar) data)
    (h : scanAtChecked data i = .ok o) : ¬ OverflowsAt data i ∧ o = scanAt data i := by
  have hover : ¬ OverflowsAt data i := by
    intro hover
    rw [hover.scanAtChecked hlen] at h; cases h
  rw [scanAtChecked_eq hlen hi hover] at h
  cases h
  exact ⟨hover, rfl⟩

end

/-- Before every `$` whose word's end overflows there is one at which the scan returns: an oversized
length or a word. -/
def SumsFit (data : List UInt8) : Prop :=
  ∀ i, OverflowsAt data i → ∃ j < i, OversizedAt data j ∨ ∃ w, ValidAt data j w

theorem scanRespCommandChecked_eq_error {e : Panic} : scanRespCommandChecked data = .error e ↔
    (positions (· == dollar) data).findSomeM? (scanAtChecked data) = .error e := by
  rw [scanRespCommandChecked]
  cases (positions (· == dollar) data).findSomeM? (scanAtChecked data) <;> simp

section
variable (hlen : data.length < 2 ^ 63)
include hlen

theorem not_sumsFit_of_error {e : Panic} (h : scanRespCommandChecked data = .error e) :
    ¬ SumsFit data ∧ e = .addOverflow := by
  have hsorted := positions_sorted (· == dollar) data
  obtain ⟨i, hi, herr, hbefore⟩ :=
    (findSomeM?_eq_error hsorted).1 (scanRespCommandChecked_eq_error.1 h)
  obtain ⟨hover, rfl⟩ := scanAtChecked_error hlen hi herr
  refine ⟨fun hfit => ?_, rfl⟩
  obtain ⟨j, hji, hj⟩ := hfit i hover
  have hmem : j ∈ positions (· == dollar) data := by
    rcases hj with ⟨ds, rest, hhead, -⟩ | ⟨w, ds, rest, hhead, -⟩
    · exact hhead.mem_positions
    · exact hhead.mem_positions
  obtain ⟨hfits, hnone⟩ := scanAtChecked_ok hlen hmem (hbefore j hmem hji)
  have hgoes : ∀ r, scanAt data j ≠ some r := by simp [← hnone]
  by_cases hbig : OversizedAt data j
  · exact hgoes none ((scanAt_iff (by omega) hmem none).2 (.inl ⟨rfl, hbig⟩))
  · obtain ⟨w, hw⟩ := hj.resolve_left hbig
    exact hgoes _ ((scanAt_iff (by omega) hmem _).2 (.inr ⟨w, hw, hbig, hfits, rfl⟩))

/-- The scan panics at the first sum that overflows. -/
theorem error_of_not_sumsFit (h : ¬ SumsFit data) :
    scanRespCommandChecked data = .error .addOverflow := by
  classical
  have hex : ∃ i, OverflowsAt data i ∧ ∀ j < i, ¬ OversizedAt data j ∧ ∀ w, ¬ ValidAt data j w := by
    simpa [SumsFit] using h
  obtain ⟨i, hover, hstop⟩ := hex
  have hfirst : ∃ k, OverflowsAt data k := ⟨i, hover⟩
  have hki : Nat.find hfirst ≤ i := Nat.find_min' hfirst hover
  have hk := Nat.find_spec hfirst
  have hpos : Nat.find hfirst ∈ positions (· == dollar) data := by
    obtain ⟨ds, rest, hhead, -⟩ := hk
    exact hhead.mem_positions
  refine scanRespCommandChecked_eq_error.2 ((findSomeM?_eq_error (positions_sorted _ _)).2
    ⟨Nat.find hfirst, hpos, hk.scanAtChecked hlen, fun j hj hlt => ?_⟩)
  obtain ⟨hsize, hword⟩ := hstop j (Nat.lt_of_lt_of_le hlt hki)
  rw [scanAtChecked_eq hlen hj (Nat.find_min hfirst hlt)]
  cases hat : scanAt data j with
  | none => rfl
  | some r =>
    rcases (scanAt_iff (by omega) hj r).1 hat with ⟨-, hbig⟩ | ⟨w, hw, -⟩
    · exact absurd hbig hsize
    · exact absurd hw (hword w)

/-- Without a panic the scan is the one of a release build. -/
theorem scanRespCommandChecked_eq (h : SumsFit data) :
    scanRespCommandChecked data = .ok (scanRespCommand data) := by
  have hno : ∀ e, (positions (· == dollar) data).findSomeM? (scanAtChecked data) ≠ .error e := by
    intro e he
    exact (not_sumsFit_of_error hlen (scanRespCommandChecked_eq_error.2 he)).1 h
  have hok := findSomeM?_eq_ok (fun i hi o ho => (scanAtChecked_ok hlen hi ho).2) hno
  rw [scanRespCommandChecked, hok, scanRespCommand_positions]; rfl

end

/-! ### The classifier -/

variable (dec : RespDecoder) (up : UpperTable) (reqData : Vector UInt8 32)

theorem checkedSlice_payload :
    checkedSlice reqData.toList 0 ((reqData.toList.findIdx? (· == 0)).getD 32) = .ok (payload reqData) := by
  have hend : (reqData.toList.findIdx? (· == 0)).getD 32 ≤ reqData.toList.length := by
    rw [Vector.length_toList]
    cases hidx : reqData.toList.findIdx? (· == 0) with
    | none => exact Nat.le_refl 32
    | some k =>
      have hlt := (List.findIdx?_eq_some_iff_getElem.1 hidx).1
      rw [Vector.length_toList] at hlt
      exact Nat.le_of_lt hlt
  rw [checkedSlice_ok (Nat.zero_le _) hend, List.extract_eq_take_drop]; rfl

theorem classifyCommandChecked_short (h : (payload reqData).length < 4) :
    classifyCommandChecked dec up reqData = .ok (.borrowed "OTHER") := by
  rw [classifyCommandChecked, checkedSlice_payload, ok_bind, if_pos h]; rfl

theorem classifyCommandChecked_error (e : Panic) : classifyCommandChecked dec up reqData = .error e ↔
    4 ≤ (payload reqData).length ∧ scanRespCommandChecked (payload reqData) = .error e := by
  by_cases hshort : (payload reqData).length < 4
  · rw [classifyCommandChecked_short dec up reqData hshort]
    simp [hshort]
  · rw [classifyCommandChecked, checkedSlice_payload, ok_bind, if_neg hshort]
    have hlong := Nat.le_of_not_lt hshort
    cases scanRespCommandChecked (payload reqData) with
    | error e' => simp [hlong]
    | ok r => cases r <;> simp

theorem four_le_of_not_sumsFit (h : ¬ SumsFit data) : 4 ≤ data.length := by
  by_contra hshort
  apply h
  rintro i ⟨ds, rest, hhead, -⟩
  have hdata := lt_of_header hhead.2
  have hpos := List.length_pos_iff.2 hhead.1.1
  omega

/-- Without a panic the classifier is the one of a release build. -/
theorem classifyCommandChecked_eq (h : SumsFit (payload reqData)) :
    classifyCommandChecked dec up reqData = .ok (classifyCommand dec up reqData) := by
  have hlen := length_payload reqData
  by_cases hshort : (payload reqData).length < 4
  · rw [classifyCommandChecked_short dec up reqData hshort, classifyCommand, if_pos hshort]
  · rw [classifyCommandChecked, checkedSlice_payload, ok_bind, if_neg hshort,
      scanRespCommandChecked_eq (by omega) h, ok_bind, classifyCommand, if_neg hshort]
    cases scanRespCommand (payload reqData) <;> rfl

theorem classify_panics_iff :
    ((∃ c, classifyCommandChecked dec up reqData = .ok c) ↔ SumsFit (payload reqData)) ∧
      ∀ e, classifyCommandChecked dec up reqData = .error e → e = .addOverflow := by
  have hlen : (payload reqData).length < 2 ^ 63 := Nat.lt_of_le_of_lt (length_payload reqData) (by omega)
  refine ⟨⟨?_, fun h => ⟨_, classifyCommandChecked_eq dec up reqData h⟩⟩, fun e he => ?_⟩
  · rintro ⟨c, hc⟩
    by_contra hfit
    have herr := (classifyCommandChecked_error dec up reqData _).2
      ⟨four_le_of_not_sumsFit hfit, error_of_not_sumsFit hlen hfit⟩
    rw [hc] at herr; cases herr
  · exact (not_sumsFit_of_error hlen ((classifyCommandChecked_error dec up reqData e).1 he).2).2

/-- `$18446744073709551615 CRLF` -/
theorem not_classify_total : ¬ ∀ (dec : RespDecoder) (up : UpperTable) (reqData : Vector UInt8 32),
    ∃ c, classifyCommandChecked dec up reqData = .ok c := by
  intro hall
  obtain ⟨c, hc⟩ := hall bulkDecoder asciiUpper (capture (header dollar
    [49, 56, 52, 52, 54, 55, 52, 52, 48, 55, 51, 55, 48, 57, 53, 53, 49, 54, 49, 53]))
  have herr : classifyCommandChecked bulkDecoder asciiUpper (capture (header dollar
    [49, 56, 52, 52, 54, 55, 52, 52, 48, 55, 51, 55, 48, 57, 53, 53, 49, 54, 49, 53])) =
      .error .addOverflow := rfl
  rw [herr] at hc; cases hc

end RedisTracer
