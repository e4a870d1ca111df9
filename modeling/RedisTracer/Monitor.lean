import RedisTracer.ScanPanics
import RedisTracer.Startup
import RedisTracer.Lib.Text
import RedisTracer.Lib.Utf8

/-!
# Self-monitoring

`aya-test/src/monitor.rs` reads `/proc/self/stat`. The name of the process stands in parentheses, and the
fields are looked for after the first closing one, which may be part of the name.
-/

namespace RedisTracer

open Text Utf8

/-- `str::parse::<u64>` -/
def parseU64 (cs : List Char) : Option UInt64 := (fromStrRadix 10 (2 ^ 64) cs).map UInt64.ofNat

/-- `str::parse::<i64>` -/
def parseI64 (cs : List Char) : Option Int64 :=
  match cs with
  | '-' :: ds => ((magnitude 10 ds).filter (· ≤ 2 ^ 63)).map fun n : Nat => Int64.ofInt (-(n : Int))
  | cs => (fromStrRadix 10 (2 ^ 63) cs).map fun n : Nat => Int64.ofInt (n : Int)

structure StatFields where
  utime : UInt64
  stime : UInt64
  threads : Int64
  vsize : UInt64
  rssPg : Int64
deriving DecidableEq, Repr

def statFields (f : List (List Char)) : Option StatFields := do
  let utime ← parseU64 (← f[11]?)
  let stime ← parseU64 (← f[12]?)
  let threads ← parseI64 (← f[17]?)
  let vsize ← parseU64 (← f[20]?)
  let rssPg ← parseI64 (← f[21]?)
  return { utime, stime, threads, vsize, rssPg }

/-- `read_stat` up to the page size. -/
def parseStat (raw : List Char) : Except Panic (Option StatFields) :=
  match findByte ')' raw with
  | none => .ok none
  | some after =>
    -- skips the parenthesis and the blank after it
    match dropBytes raw (after + 2) with
    | none => .error .sliceOutOfRange
    | some rest => .ok (statFields (words isWhitespace rest))

/-- The last component is in bytes; the multiplication wraps. -/
def readStat (raw : Option String) (pageSz : UInt64) :
    Except Panic (Option (UInt64 × UInt64 × Int64 × UInt64 × UInt64)) := do
  match raw with
  | none => return none
  | some raw =>
    return (← parseStat raw.toList).map fun s =>
      (s.utime, s.stime, s.threads, s.vsize, s.rssPg.toUInt64 * pageSz)

/-! ### The line -/

def renderInt : Int → List Char
  | .ofNat n => Nat.toDigits 10 n
  | .negSucc n => '-' :: Nat.toDigits 10 (n + 1)

/-- A line of `/proc/self/stat`; `nums` are its fields from the fourth. -/
structure StatLine where
  pid : Nat
  comm : List Char
  state : Char
  nums : List Int
  comm_le : byteLen comm ≤ 15
  state_word : isWhitespace state = false
  fields : StatFields
  utime_eq : nums[10]? = some (fields.utime.toNat : Int)
  stime_eq : nums[11]? = some (fields.stime.toNat : Int)
  threads_eq : nums[16]? = some fields.threads.toInt
  vsize_eq : nums[19]? = some (fields.vsize.toNat : Int)
  rss_eq : nums[20]? = some fields.rssPg.toInt

namespace StatLine

/-- The line after the name and its blank. -/
def tail (line : StatLine) : List Char :=
  [line.state] ++ ((line.nums.map renderInt).flatMap (fun w => ' ' :: w) ++ ['\n'])

def text (line : StatLine) : List Char :=
  (Nat.toDigits 10 line.pid ++ [' ', '(']) ++ (line.comm ++ ')' :: ' ' :: line.tail)

/-- By how many words the fields are read too early: those of the name behind its first `)` and the
character after it. A character of several bytes there is cut apart. -/
def shift (line : StatLine) : Option Nat :=
  match (line.comm.dropWhile (· ≠ ')')).drop 1 with
  | [] => some 0
  | c :: rest => if c.utf8Size = 1 then some (words isWhitespace (rest ++ [')'])).length else none

/-- The fields read are the fields meant, or equal to them. -/
def ReadsRight (line : StatLine) : Prop :=
  ∃ k, line.shift = some k ∧ line.nums[10 - k]? = line.nums[10]? ∧ line.nums[11 - k]? = line.nums[11]? ∧
    line.nums[16 - k]? = line.nums[16]? ∧ line.nums[19 - k]? = line.nums[19]? ∧
    line.nums[20 - k]? = line.nums[20]?

end StatLine

variable {line : StatLine} {n : Int} {cs : List Char}

/-! ### Numbers -/

theorem digits_word (n : Nat) : ∀ c ∈ Nat.toDigits 10 n, isWhitespace c = false ∧ c ≠ ')' ∧ c ≠ '-' := by
  intro c hc
  have halnum : c.isAlphanum = true := isAlphanum_of_mem_toDigits (by omega) (by omega) hc
  refine ⟨isWhitespace_of_isAlphanum halnum, ?_, ?_⟩
  · rintro rfl
    cases halnum
  · rintro rfl
    cases halnum

theorem renderInt_word (n : Int) : renderInt n ≠ [] ∧ ∀ c ∈ renderInt n, isWhitespace c = false := by
  cases n with
  | ofNat n => exact ⟨Nat.toDigits_ne_nil, fun c hc => (digits_word n c hc).1⟩
  | negSucc n =>
    refine ⟨List.cons_ne_nil _ _, fun c hc => ?_⟩
    rcases List.mem_cons.1 hc with rfl | hc
    · decide
    · exact (digits_word _ c hc).1

theorem parseU64_renderInt {u : UInt64} : parseU64 (renderInt n) = some u ↔ n = u.toNat := by
  cases n with
  | ofNat n =>
    rw [parseU64, renderInt, fromStrRadix_toDigits (by omega) (by omega)]
    simp only [Option.map_eq_some_iff, Option.filter_eq_some_iff, Option.some.injEq, decide_eq_true_iff]
    constructor
    · rintro ⟨_, ⟨rfl, hlt⟩, rfl⟩
      rw [UInt64.toNat_ofNat_of_lt' hlt]
      rfl
    · intro h
      have hn : n = u.toNat := Int.ofNat.inj h
      exact ⟨n, ⟨rfl, hn ▸ u.toNat_lt⟩, by rw [hn, UInt64.ofNat_toNat]⟩
  | negSucc n =>
    have hnone : parseU64 (renderInt (.negSucc n)) = none := by
      simp [parseU64, renderInt, fromStrRadix, magnitude, toDigit]
    rw [hnone]
    constructor
    · intro h
      cases h
    · intro h
      cases h

theorem parseI64_eq (h : cs.head? ≠ some '-') :
    parseI64 cs = (fromStrRadix 10 (2 ^ 63) cs).map fun n : Nat => Int64.ofInt (n : Int) := by
  unfold parseI64
  split
  · exact absurd rfl h
  · rfl

theorem ofInt_eq_iff {i : Int64} (hle : -2 ^ 63 ≤ n) (hlt : n < 2 ^ 63) : Int64.ofInt n = i ↔ n = i.toInt := by
  rw [← Int64.toInt_inj, Int64.toInt_ofInt_of_le hle hlt]

theorem parseI64_renderInt {i : Int64} : parseI64 (renderInt n) = some i ↔ n = i.toInt := by
  have hle := i.le_toInt
  have hlt := i.toInt_lt
  cases n with
  | ofNat n =>
    have hhead : (Nat.toDigits 10 n).head? ≠ some '-' := by
      intro h
      exact (digits_word n _ (List.mem_of_head? h)).2.2 rfl
    rw [renderInt, parseI64_eq hhead, fromStrRadix_toDigits (by omega) (by omega)]
    simp only [Option.map_eq_some_iff, Option.filter_eq_some_iff, Option.some.injEq, decide_eq_true_iff]
    constructor
    · rintro ⟨m, ⟨rfl, hm⟩, h⟩
      have hn : (n : Int) = i.toInt := (ofInt_eq_iff (by omega) (by omega)).1 h
      exact hn
    · intro h
      have hn : (n : Int) = i.toInt := h
      exact ⟨n, ⟨rfl, by omega⟩, (ofInt_eq_iff (by omega) (by omega)).2 hn⟩
  | negSucc n =>
    rw [renderInt]
    show (((magnitude 10 (Nat.toDigits 10 (n + 1))).filter (· ≤ 2 ^ 63)).map fun m : Nat =>
      Int64.ofInt (-(m : Int))) = some i ↔ _
    rw [magnitude_toDigits (by omega) (by omega)]
    simp only [Option.map_eq_some_iff, Option.filter_eq_some_iff, Option.some.injEq, decide_eq_true_iff]
    constructor
    · rintro ⟨_, ⟨rfl, hn⟩, h⟩
      have := (ofInt_eq_iff (by omega) (by omega)).1 h
      omega
    · intro h
      exact ⟨n + 1, ⟨rfl, by omega⟩, (ofInt_eq_iff (by omega) (by omega)).2 (by omega)⟩

/-! ### The words -/

theorem words_tail (line : StatLine) : words isWhitespace line.tail = [line.state] :: line.nums.map renderInt := by
  refine words_flatMap rfl rfl ⟨List.cons_ne_nil _ _, ?_⟩ fun w hw => ?_
  · intro c hc
    rw [List.mem_singleton.1 hc]
    exact line.state_word
  · obtain ⟨n, -, rfl⟩ := List.mem_map.1 hw
    exact renderInt_word n

theorem statFields_eq_some_iff {f : List (List Char)} {s : StatFields} : statFields f = some s ↔
    f[11]?.bind parseU64 = some s.utime ∧ f[12]?.bind parseU64 = some s.stime ∧
      f[17]?.bind parseI64 = some s.threads ∧ f[20]?.bind parseU64 = some s.vsize ∧
      f[21]?.bind parseI64 = some s.rssPg := by
  have hrun : statFields f = (f[11]?.bind parseU64).bind fun utime => (f[12]?.bind parseU64).bind fun stime =>
      (f[17]?.bind parseI64).bind fun threads => (f[20]?.bind parseU64).bind fun vsize =>
      (f[21]?.bind parseI64).bind fun rssPg => some ⟨utime, stime, threads, vsize, rssPg⟩ := by
    simp only [Option.bind_assoc]
    rfl
  rw [hrun]
  constructor
  · intro h
    obtain ⟨utime, h₁, h⟩ := Option.bind_eq_some_iff.1 h
    obtain ⟨stime, h₂, h⟩ := Option.bind_eq_some_iff.1 h
    obtain ⟨threads, h₃, h⟩ := Option.bind_eq_some_iff.1 h
    obtain ⟨vsize, h₄, h⟩ := Option.bind_eq_some_iff.1 h
    obtain ⟨rssPg, h₅, h⟩ := Option.bind_eq_some_iff.1 h
    cases h
    exact ⟨h₁, h₂, h₃, h₄, h₅⟩
  · rintro ⟨h₁, h₂, h₃, h₄, h₅⟩
    rw [h₁, h₂, h₃, h₄, h₅]
    rfl

theorem bind_parse_iff {τ : Type} {parse : List Char → Option τ} {u : τ} {v : Int}
    (hparse : ∀ n, parse (renderInt n) = some u ↔ n = v) (o : Option Int) :
    (o.map renderInt).bind parse = some u ↔ o = some v := by
  cases o with
  | none => simp
  | some n =>
    rw [Option.map_some, Option.bind_some, hparse, Option.some.injEq]

/-- With `k` words before the state the fields are those `k` places back. -/
theorem statFields_iff {ws : List (List Char)} {k : Nat} (hk : ws.length = k) (hk' : k ≤ 7) :
    statFields (ws ++ [line.state] :: line.nums.map renderInt) = some line.fields ↔
      line.nums[10 - k]? = line.nums[10]? ∧ line.nums[11 - k]? = line.nums[11]? ∧
        line.nums[16 - k]? = line.nums[16]? ∧ line.nums[19 - k]? = line.nums[19]? ∧
        line.nums[20 - k]? = line.nums[20]? := by
  have hget : ∀ i, 10 ≤ i → (ws ++ [line.state] :: line.nums.map renderInt)[i + 1]? =
      (line.nums[i - k]?).map renderInt := by
    intro i hi
    have hidx : i + 1 - ws.length = i - k + 1 := by omega
    rw [List.getElem?_append_right (by omega), hidx, List.getElem?_cons_succ, List.getElem?_map]
  rw [statFields_eq_some_iff, hget 10 (by omega), hget 11 (by omega), hget 16 (by omega),
    hget 19 (by omega), hget 20 (by omega), line.utime_eq, line.stime_eq, line.threads_eq, line.vsize_eq,
    line.rss_eq]
  exact and_congr (bind_parse_iff (fun _ => parseU64_renderInt) _) <|
    and_congr (bind_parse_iff (fun _ => parseU64_renderInt) _) <|
    and_congr (bind_parse_iff (fun _ => parseI64_renderInt) _) <|
    and_congr (bind_parse_iff (fun _ => parseU64_renderInt) _) (bind_parse_iff (fun _ => parseI64_renderInt) _)

/-! ### The slice -/

theorem parseStat_append {pre : List Char} (hpre : ')' ∉ pre) (d : Char) (rest : List Char) :
    parseStat (pre ++ ')' :: d :: rest) =
      if d.utf8Size = 1 then .ok (statFields (words isWhitespace rest)) else .error .sliceOutOfRange := by
  have hparen : Char.utf8Size ')' = 1 := rfl
  have hpos := d.utf8Size_pos
  have hdrop : dropBytes (pre ++ ')' :: d :: rest) (byteLen pre + 2) =
      if d.utf8Size = 1 then some rest else none := by
    rw [dropBytes_append, dropBytes_cons _ _ (by decide), hparen, if_pos (by decide),
      dropBytes_cons _ _ (by decide)]
    by_cases hd : d.utf8Size = 1
    · rw [if_pos (by omega), if_pos hd, hd]
      exact dropBytes_zero rest
    · rw [if_neg (by omega), if_neg hd]
  rw [parseStat, findByte_append hpre]
  dsimp only
  rw [hdrop]
  by_cases hd : d.utf8Size = 1
  · rw [if_pos hd, if_pos hd]
  · rw [if_neg hd, if_neg hd]

/-! ### The name -/

theorem opening_no_paren (pid : Nat) : ')' ∉ Nat.toDigits 10 pid ++ [' ', '('] := by
  intro h
  rcases List.mem_append.1 h with h | h
  · exact (digits_word pid _ h).2.1 rfl
  · revert h
    decide

theorem dropWhile_paren (cs : List Char) : cs.dropWhile (· ≠ ')') = [] ∨
    ∃ rest, cs.dropWhile (· ≠ ')') = ')' :: rest := by
  induction cs with
  | nil => exact .inl rfl
  | cons c cs ih =>
    by_cases hc : c = ')'
    · subst hc
      exact .inr ⟨cs, rfl⟩
    · rwa [List.dropWhile_cons_of_pos (by simpa using hc)]

/-- The line up to the first `)` of the name, and what follows. -/
theorem text_eq (line : StatLine) : ∃ pre, ')' ∉ pre ∧
    line.text = pre ++ (line.comm.dropWhile (· ≠ ')') ++ ')' :: ' ' :: line.tail) := by
  refine ⟨(Nat.toDigits 10 line.pid ++ [' ', '(']) ++ line.comm.takeWhile (· ≠ ')'), ?_, ?_⟩
  · intro h
    rcases List.mem_append.1 h with h | h
    · exact opening_no_paren line.pid h
    · simpa using List.mem_takeWhile_imp h
  · have hname : line.comm.takeWhile (· ≠ ')') ++ line.comm.dropWhile (· ≠ ')') = line.comm :=
      List.takeWhile_append_dropWhile
    rw [StatLine.text]
    conv_lhs => rw [← hname]
    simp only [List.append_assoc]

/-- A name has room for at most seven words behind its first `)`. -/
theorem words_behind_le (line : StatLine) {c : Char} {rest : List Char}
    (hsuffix : line.comm.dropWhile (· ≠ ')') = ')' :: c :: rest) :
    (words isWhitespace (rest ++ [')'])).length ≤ 7 := by
  have hle := length_words_le (p := isWhitespace) (rest ++ [')'])
  have hcomm : line.comm.length ≤ 15 := Nat.le_trans (length_le_byteLen line.comm) line.comm_le
  have hdrop := (List.dropWhile_suffix (l := line.comm) (· ≠ ')')).length_le
  rw [hsuffix] at hdrop
  simp only [List.length_append, List.length_cons, List.length_nil] at hle hdrop
  omega

/-- What the slice leaves, case by case of what follows the first `)` of the name. -/
theorem parseStat_text (line : StatLine) : (line.shift = none ∧ parseStat line.text = .error .sliceOutOfRange) ∨
    ∃ k ws, line.shift = some k ∧ ws.length = k ∧ k ≤ 7 ∧
      parseStat line.text = .ok (statFields (ws ++ [line.state] :: line.nums.map renderInt)) := by
  have hblank : isWhitespace ' ' = true := rfl
  have hone : Char.utf8Size ' ' = 1 ∧ Char.utf8Size ')' = 1 := ⟨rfl, rfl⟩
  obtain ⟨pre, hpre, htext⟩ := text_eq line
  rw [htext, StatLine.shift]
  rcases dropWhile_paren line.comm with hsuffix | ⟨suffix, hsuffix⟩
  · refine .inr ⟨0, [], by rw [hsuffix]; rfl, rfl, Nat.zero_le _, ?_⟩
    rw [hsuffix, List.nil_append, parseStat_append hpre, if_pos hone.1, words_tail]
    rfl
  · cases suffix with
    | nil =>
      refine .inr ⟨0, [], by rw [hsuffix]; rfl, rfl, Nat.zero_le _, ?_⟩
      rw [hsuffix, List.singleton_append, parseStat_append hpre, if_pos hone.2, words_cons hblank, words_tail]
      rfl
    | cons c rest =>
      rw [hsuffix, List.cons_append, List.cons_append, parseStat_append hpre]
      simp only [List.drop_succ_cons, List.drop_zero]
      by_cases hc : c.utf8Size = 1
      · refine .inr ⟨_, words isWhitespace (rest ++ [')']), if_pos hc, rfl, words_behind_le line hsuffix, ?_⟩
        have hrest : rest ++ ')' :: ' ' :: line.tail = (rest ++ [')']) ++ ' ' :: line.tail := by simp
        rw [if_pos hc, hrest, words_append_cons hblank, words_tail]
      · exact .inl ⟨if_neg hc, if_neg hc⟩

theorem stat_fields_iff (line : StatLine) : parseStat line.text = .ok (some line.fields) ↔ line.ReadsRight := by
  rcases parseStat_text line with ⟨hshift, hparse⟩ | ⟨k, ws, hshift, hlen, hle, hparse⟩
  · rw [hparse]
    constructor
    · intro h
      cases h
    · rintro ⟨k, hk, -⟩
      rw [hshift] at hk
      cases hk
  · rw [hparse, Except.ok.injEq, statFields_iff hlen hle]
    constructor
    · intro h
      exact ⟨k, hshift, h⟩
    · rintro ⟨k', hk', h⟩
      rw [hshift] at hk'
      cases hk'
      exact h

/-- The 21 fields from the parent's pid to the resident pages, all different where it matters. -/
def sampleNums : List Int :=
  [1, 77, 77, 0, -1, 4194304, 500, 0, 0, 0, 31, 12, 0, 0, 20, 0, 4, 0, 9000, 734003200, 2560]

/-- A line for a process called `comm`. -/
def statLine (comm : List Char) (h : byteLen comm ≤ 15) : StatLine where
  pid := 77
  comm := comm
  state := 'S'
  nums := sampleNums
  comm_le := h
  state_word := rfl
  fields := ⟨31, 12, 4, 734003200, 2560⟩
  utime_eq := rfl
  stime_eq := rfl
  threads_eq := rfl
  vsize_eq := rfl
  rss_eq := rfl

theorem not_stat_fields : ¬ ∀ line : StatLine, parseStat line.text = .ok (some line.fields) := by
  intro hall
  have h := hall (statLine "x) y".toList (by decide))
  revert h
  decide

example : parseStat (statLine ")é".toList (by decide)).text = .error .sliceOutOfRange := by decide

end RedisTracer
