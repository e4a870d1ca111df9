import RedisTracer.CutCapture
import RedisTracer.Lib.Windows

/-!
# The table of known commands

`RedisCommand::detect` (`aya-test-common`) looks for its keywords anywhere in the request and takes the
first of the table that occurs. A request is told apart only when no earlier keyword occurs in its name
or its arguments: `GET` and `SET` stand before the four names that contain them.
-/

namespace RedisTracer

open Ascii RespFormat Windows

/-! ### Names that do not fit the capture -/

theorem capture_take (bs : List UInt8) : capture (bs.take 32) = capture bs := by
  have h : (bs.take 32 ++ List.replicate 32 0).take 32 = (bs ++ List.replicate 32 (0 : UInt8)).take 32 := by
    rcases Nat.le_total bs.length 32 with hle | hle
    · rw [List.take_of_length_le hle]
    · rw [List.take_append_of_le_length (by rw [List.length_take]; omega), List.take_take, Nat.min_self,
        List.take_append_of_le_length hle]
  simp only [capture, h]

section
variable {name : List UInt8} {args : List (List UInt8)} {dec : RespDecoder} {up : UpperTable}
  (hne : name ≠ []) (hall : ∀ b ∈ name, isAlphabetic b = true) (hname : name.length ≤ 32)
  (hother : str (name.map toUpper) ≠ "OTHER") (hdec : dec.Lawful)
include hne hall hname hother hdec

/-- Without room for the whole name the label is a part of it, or `OTHER`. -/
theorem commandLabel_of_long (hlong : 32 < (requestHeader name args ++ name).length) :
    commandLabel dec up name args ≠ str (name.map toUpper) := by
  have hcut : commandLabel dec up name args =
      captureLabel dec up ((requestHeader name args ++ name).take 32) := by
    rw [commandLabel, ← capture_take, encode_request, List.take_append_of_le_length (Nat.le_of_lt hlong),
      captureLabel]
  have hlen : ((requestHeader name args ++ name).take 32).length ≤ 32 := List.length_take_le ..
  have hzero : (0 : UInt8) ∉ (requestHeader name args ++ name).take 32 := by
    intro hmem
    cases hall 0 (zero_mem_request.1 (List.mem_of_mem_take hmem))
  rw [hcut]
  rcases Nat.lt_or_ge (requestHeader name args).length 32 with hroom | hroom
  · -- the capture ends in the name
    have hsplit : (requestHeader name args ++ name).take 32 =
        requestHeader name args ++ name.take (32 - (requestHeader name args).length) := by
      rw [List.take_append, List.take_of_length_le (Nat.le_of_lt hroom)]
    rw [List.length_append] at hlong
    have hpart : (name.take (32 - (requestHeader name args).length)).length < name.length := by
      rw [List.length_take]
      omega
    have hpos : name.take (32 - (requestHeader name args).length) ≠ [] := by
      rw [← List.length_pos_iff, List.length_take]
      omega
    rw [captureLabel_cut hlen hzero hall (List.take_prefix ..) hpos hname hsplit]
    exact captureLabel_cut_ne hall (List.take_prefix ..) hpart
  · -- it ends in the header
    rw [captureLabel_header hne hlen hzero hdec]
    · exact hother.symm
    · rw [List.take_append_of_le_length hroom]
      exact List.take_prefix ..

theorem commandLabel_eq_iff : commandLabel dec up name args = str (name.map toUpper) ↔
    (requestHeader name args ++ name).length ≤ 32 := by
  constructor
  · intro h
    by_contra hlong
    exact commandLabel_of_long hne hall hname hother hdec (Nat.lt_of_not_le hlong) h
  · intro hfit
    exact commandLabel_of_letters hne hfit hall

end

/-! ### Commands -/

inductive RedisCommand
  | unknown
  | get
  | set
  | del
  | incr
  | hget
  | hset
  | lpush
  | publish
  | ping
  | info
  | mget
  | mset
deriving DecidableEq, Repr

namespace RedisCommand

def name : RedisCommand → String
  | unknown => "UNKNOWN"
  | get => "GET"
  | set => "SET"
  | del => "DEL"
  | incr => "INCR"
  | hget => "HGET"
  | hset => "HSET"
  | lpush => "LPUSH"
  | publish => "PUBLISH"
  | ping => "PING"
  | info => "INFO"
  | mget => "MGET"
  | mset => "MSET"

def table : List (List UInt8 × RedisCommand) :=
  [(bytes "GET", get),
    (bytes "SET", set),
    (bytes "DEL", del),
    (bytes "INCR", incr),
    (bytes "HGET", hget),
    (bytes "HSET", hset),
    (bytes "LPUSH", lpush),
    (bytes "PUBLISH", publish),
    (bytes "PING", ping),
    (bytes "INFO", info),
    (bytes "MGET", mget),
    (bytes "MSET", mset)]

def detect (data : List UInt8) : RedisCommand :=
  if data.length < 3 ∨ data.head? ≠ some star then unknown
  else ((table.find? fun e => (windows e.1.length data).any (· == e.1)).map (·.2)).getD unknown

/-- The entries of the table before that of `c`. -/
def before (c : RedisCommand) : List (List UInt8 × RedisCommand) := table.takeWhile (·.2 ≠ c)

def request (c : RedisCommand) (args : List (List UInt8)) : List UInt8 := encode (bytes c.name :: args)

/-- No earlier keyword occurs in the name or in an argument. -/
def Unshadowed (c : RedisCommand) (args : List (List UInt8)) : Prop :=
  ∀ e ∈ before c, ∀ w ∈ bytes c.name :: args, ¬ e.1 <:+: w

instance (c : RedisCommand) (args : List (List UInt8)) : Decidable (c.Unshadowed args) :=
  inferInstanceAs (Decidable (∀ e ∈ before c, ∀ w ∈ bytes c.name :: args, ¬ e.1 <:+: w))

variable {c : RedisCommand} {data w : List UInt8} {args xs : List (List UInt8)} {dec : RespDecoder}
  {up : UpperTable}

/-! ### The table -/

theorem table_keyword : ∀ e ∈ table, e.1 = bytes e.2.name := by decide

theorem keyword_letters : ∀ e ∈ table, e.1 ≠ [] ∧ e.1.all isAlphabetic = true := by decide

theorem table_nodup : (table.map (·.2)).Nodup := by decide

theorem mem_table (hc : c ≠ unknown) : (bytes c.name, c) ∈ table := by
  cases c with
  | unknown => exact absurd rfl hc
  | _ => decide

theorem mem_before {e : List UInt8 × RedisCommand} (he : e ∈ before c) : e ∈ table :=
  (List.takeWhile_prefix _).subset he

/-- What a detected command says about the data. -/
theorem detect_eq_iff (hc : c ≠ unknown) : detect data = c ↔
    (3 ≤ data.length ∧ data.head? = some star) ∧ bytes c.name <:+: data ∧
      ∀ e ∈ before c, ¬ e.1 <:+: data := by
  have hfind := find?_eq_some_iff (f := Prod.snd)
    (p := fun e => (windows e.1.length data).any (· == e.1)) table_nodup (mem_table hc)
  simp only [any_windows, ← Bool.not_eq_true] at hfind
  rw [before, ← hfind, detect]
  by_cases hshort : data.length < 3 ∨ data.head? ≠ some star
  · rw [if_pos hshort]
    constructor
    · intro h
      exact absurd h.symm hc
    · rintro ⟨⟨hlen, hstar⟩, -⟩
      rcases hshort with hshort | hshort
      · omega
      · exact absurd hstar hshort
  · rw [if_neg hshort]
    have hfront : 3 ≤ data.length ∧ data.head? = some star := by
      simpa only [not_or, not_lt, not_not] using hshort
    rw [iff_true_intro hfront, true_and]
    constructor
    · intro h
      cases hhit : table.find? fun e => (windows e.1.length data).any (· == e.1) with
      | none =>
        rw [hhit] at h
        exact absurd h.symm hc
      | some e =>
        rw [hhit] at h
        obtain rfl : e.2 = c := h
        rw [← table_keyword e (List.mem_of_find?_eq_some hhit)]
    · intro h
      rw [h]
      rfl

/-- `GET` and `SET` hide four entries of the table: no data is classified as one of them. -/
theorem detect_ne_hidden (hc : c ∈ [hget, hset, mget, mset]) : detect data ≠ c := by
  have hhidden : ∀ c ∈ [hget, hset, mget, mset], c ≠ unknown ∧ ∃ e ∈ before c, e.1 <:+: bytes c.name := by
    decide
  obtain ⟨hne, e, he, hkey⟩ := hhidden c hc
  intro h
  obtain ⟨-, hname, hbefore⟩ := (detect_eq_iff hne).1 h
  exact hbefore e he (hkey.trans hname)

/-! ### Requests -/

theorem not_mem_header_of_letter {tag b : UInt8} {n : Nat} (htag : tag = star ∨ tag = dollar)
    (hb : isAlphabetic b = true) : b ∉ header tag (decimal n) := by
  have hdigit : ∀ n : Fin 256, isAlphabetic (UInt8.ofNat n) = true → isDigit (UInt8.ofNat n) = false := by
    decide +kernel
  refine not_mem_header (isNumeral_decimal n) ⟨?_, by simpa using hdigit ⟨b.toNat, b.toNat_lt⟩ (by simpa using hb), ?_, ?_⟩
  · rintro rfl
    rcases htag with rfl | rfl
    · cases hb
    · cases hb
  · rintro rfl
    cases hb
  · rintro rfl
    cases hb

section
variable (hne : w ≠ []) (hall : ∀ b ∈ w, isAlphabetic b = true)
include hne hall

theorem infix_header {tag : UInt8} {n : Nat} {rest : List UInt8} (htag : tag = star ∨ tag = dollar) :
    w <:+: header tag (decimal n) ++ rest ↔ w <:+: rest :=
  infix_append_of_disjoint hne fun b hb hmem => not_mem_header_of_letter htag (hall b hmem) hb

/-- A word of letters occurs in the bulk strings only inside one of them. -/
theorem infix_bulks : w <:+: xs.flatMap bulk ↔ ∃ x ∈ xs, w <:+: x := by
  induction xs with
  | nil => simpa using hne
  | cons x xs ih =>
    have hcr : cr ∉ w := fun hmem => by cases hall cr hmem
    have hlf : lf ∉ w := fun hmem => by cases hall lf hmem
    have hbulk : bulk x ++ xs.flatMap bulk =
        header dollar (decimal x.length) ++ (x ++ cr :: lf :: xs.flatMap bulk) := by
      simp [bulk, bulkWith]
    rw [List.flatMap_cons, hbulk, infix_header hne hall (.inr rfl), infix_append_cons hcr,
      infix_cons_of_not_mem hne hlf, ih]
    simp

theorem infix_encode : w <:+: encode xs ↔ ∃ x ∈ xs, w <:+: x := by
  rw [encode, infix_header hne hall (.inl rfl), infix_bulks hne hall]

end

theorem name_letters (hc : c ≠ unknown) : bytes c.name ≠ [] ∧ ∀ b ∈ bytes c.name, isAlphabetic b = true := by
  obtain ⟨hne, hall⟩ := keyword_letters _ (mem_table hc)
  exact ⟨hne, List.all_eq_true.1 hall⟩

theorem detect_request (hc : c ≠ unknown) : detect (request c args) = c ↔ c.Unshadowed args := by
  obtain ⟨hne, hall⟩ := name_letters hc
  have hfront : 3 ≤ (request c args).length ∧ (request c args).head? = some star := by
    refine ⟨?_, rfl⟩
    rw [request, encode, List.length_append, length_header]
    omega
  have hname : bytes c.name <:+: request c args :=
    (infix_encode hne hall).2 ⟨bytes c.name, List.mem_cons_self, List.infix_rfl⟩
  rw [detect_eq_iff hc, iff_true_intro hfront, iff_true_intro hname, true_and, true_and, Unshadowed]
  refine forall₂_congr fun e he => ?_
  obtain ⟨hkey, hletters⟩ := keyword_letters e (mem_before he)
  rw [request, infix_encode hkey (List.all_eq_true.1 hletters)]
  simp only [not_exists, not_and]

/-! ### The two classifiers -/

theorem upper_name (c : RedisCommand) : str ((bytes c.name).map toUpper) = c.name := by
  cases c <;> decide

theorem name_ne_other (c : RedisCommand) : c.name ≠ "OTHER" := by
  cases c <;> decide

theorem name_le (c : RedisCommand) : (bytes c.name).length ≤ 32 := by
  cases c <;> decide

/-- A request is filed under its name exactly when the capture has room for it. -/
theorem label_name_iff (hdec : dec.Lawful) (hc : c ≠ unknown) :
    commandLabel dec up (bytes c.name) args = c.name ↔
      (requestHeader (bytes c.name) args ++ bytes c.name).length ≤ 32 := by
  obtain ⟨hne, hall⟩ := name_letters hc
  have hother : str ((bytes c.name).map toUpper) ≠ "OTHER" := by
    rw [upper_name]
    exact name_ne_other c
  rw [← commandLabel_eq_iff hne hall (name_le c) hother hdec, upper_name]

/-- Both classifiers name the command. -/
def Identified (dec : RespDecoder) (up : UpperTable) (c : RedisCommand) (args : List (List UInt8)) : Prop :=
  detect (request c args) = c ∧
    (classifyCommand dec up (capture (request c args))).asRef = (detect (request c args)).name

theorem identified_iff (dec : RespDecoder) (hdec : dec.Lawful) (up : UpperTable) (c : RedisCommand)
    (hc : c ≠ unknown) (args : List (List UInt8)) :
    Identified dec up c args ↔
      c.Unshadowed args ∧ (requestHeader (bytes c.name) args ++ bytes c.name).length ≤ 32 := by
  rw [Identified, ← label_name_iff hdec hc, ← detect_request hc]
  refine and_congr_right fun h => ?_
  rw [h]
  rfl

/-- `DEL TARGET` -/
theorem identified_iff_del :
    Identified bulkDecoder asciiUpper del [[84, 65, 82, 71, 69, 84]] ↔
      del.Unshadowed [[84, 65, 82, 71, 69, 84]] ∧
        (requestHeader (bytes del.name) [[84, 65, 82, 71, 69, 84]] ++ bytes del.name).length ≤ 32 :=
  identified_iff bulkDecoder bulkDecoder_lawful asciiUpper del nofun [[84, 65, 82, 71, 69, 84]]

example : detect (request del [[84, 65, 82, 71, 69, 84]]) = get := by decide

/-- `HGET k f` is taken for `GET`. -/
theorem hget_not_identified :
    ¬ ∀ c args, c ≠ unknown → Identified bulkDecoder asciiUpper c args := by
  intro hall
  obtain ⟨hdetect, -⟩ := hall hget [[107], [102]] nofun
  exact detect_ne_hidden List.mem_cons_self hdetect

end RedisCommand

end RedisTracer
