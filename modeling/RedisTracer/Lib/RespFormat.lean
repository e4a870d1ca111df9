import RedisTracer.Lib.Ascii
import Mathlib

/-!
# RESP arrays of bulk strings

The wire format of a request, `*N CRLF` and then `$L CRLF bytes CRLF` for each element, with a
parser. `parse_encode` is the round trip; `parse_append` says that a parse does not look past what it
consumes. Together they make the format prefix-free: no proper prefix of an encoding parses.
-/

namespace RespFormat

open Ascii

def star : UInt8 := 42
def dollar : UInt8 := 36

def header (tag : UInt8) (ds : List UInt8) : List UInt8 := tag :: ds ++ [cr, lf]

/-- A bulk string whose length is written `ds`. -/
def bulkWith (ds bs : List UInt8) : List UInt8 := header dollar ds ++ bs ++ [cr, lf]

def bulk (bs : List UInt8) : List UInt8 := bulkWith (decimal bs.length) bs

def encode (xs : List (List UInt8)) : List UInt8 :=
  header star (decimal xs.length) ++ xs.flatMap bulk

def IsNumeral (ds : List UInt8) : Prop := ds ≠ [] ∧ ∀ b ∈ ds, isDigit b = true

instance (ds : List UInt8) : Decidable (IsNumeral ds) := inferInstanceAs (Decidable (_ ∧ _))

theorem isNumeral_decimal (n : Nat) : IsNumeral (decimal n) :=
  ⟨decimal_ne_nil n, fun _ => isDigit_of_mem_decimal⟩

theorem not_mem_numeral {ds : List UInt8} (h : IsNumeral ds) {b : UInt8} (hb : isDigit b = false) :
    b ∉ ds := fun hmem => by
  rw [h.2 b hmem] at hb; cases hb

@[simp] theorem length_header (tag : UInt8) (ds : List UInt8) : (header tag ds).length = ds.length + 3 := by
  simp [header]

theorem header_append (tag : UInt8) (ds rest : List UInt8) :
    header tag ds ++ rest = tag :: (ds ++ cr :: lf :: rest) := by simp [header]

theorem encode_cons (x : List UInt8) (xs : List (List UInt8)) :
    encode (x :: xs) = header star (decimal (xs.length + 1)) ++
      (header dollar (decimal x.length) ++ (x ++ cr :: lf :: xs.flatMap bulk)) := by
  simp [encode, bulk, bulkWith]

theorem eq_of_append_cr {as bs t u : List UInt8} (ha : cr ∉ as) (hb : cr ∉ bs)
    (h : as ++ cr :: t = bs ++ cr :: u) : as = bs ∧ t = u := by
  have htake : ∀ {l : List UInt8}, cr ∉ l → ∀ v, (l ++ cr :: v).takeWhile (· != cr) = l := by
    intro l hl v
    rw [List.takeWhile_append_of_pos fun b hb => by simpa using fun hcr : b = cr => hl (hcr ▸ hb)]
    simp
  obtain rfl : as = bs := by rw [← htake ha t, h, htake hb]
  exact ⟨rfl, by simpa using h⟩

theorem header_append_inj {tag : UInt8} {ds ds' rest rest' : List UInt8} (hds : IsNumeral ds)
    (hds' : IsNumeral ds') (h : header tag ds ++ rest = header tag ds' ++ rest') :
    ds = ds' ∧ rest = rest' := by
  rw [header_append, header_append] at h
  have htail : ds ++ cr :: lf :: rest = ds' ++ cr :: lf :: rest' := (List.cons.inj h).2
  obtain ⟨heq, hrest⟩ := eq_of_append_cr (not_mem_numeral hds rfl) (not_mem_numeral hds' rfl) htail
  exact ⟨heq, (List.cons.inj hrest).2⟩

/-! ### Parsing -/

def parseHeader (tag : UInt8) : List UInt8 → Option (Nat × List UInt8)
  | [] => none
  | b :: p =>
    if b = tag ∧ p.takeWhile isDigit ≠ [] then
      match p.dropWhile isDigit with
      | c :: l :: rest => if c = cr ∧ l = lf then some (value (p.takeWhile isDigit), rest) else none
      | _ => none
    else none

def parseBulk (p : List UInt8) : Option (List UInt8 × List UInt8) :=
  match parseHeader dollar p with
  | some (n, rest) =>
    if (rest.drop n).take 2 = [cr, lf] then some (rest.take n, rest.drop (n + 2)) else none
  | none => none

def parseBulks : Nat → List UInt8 → Option (List (List UInt8) × List UInt8)
  | 0, p => some ([], p)
  | n + 1, p =>
    match parseBulk p with
    | some (b, rest) => (parseBulks n rest).map fun (bs, rest) => (b :: bs, rest)
    | none => none

def parse (p : List UInt8) : Option (List (List UInt8) × List UInt8) :=
  match parseHeader star p with
  | some (n, rest) => parseBulks n rest
  | none => none

variable {tag : UInt8} {ds bs p q rest : List UInt8} {n : Nat}

theorem takeWhile_numeral (h : IsNumeral ds) (rest : List UInt8) :
    (ds ++ cr :: rest).takeWhile isDigit = ds ∧ (ds ++ cr :: rest).dropWhile isDigit = cr :: rest := by
  have hcr : isDigit cr = false := by decide
  constructor
  · rw [List.takeWhile_append_of_pos h.2]; simp [hcr]
  · rw [List.dropWhile_append_of_pos h.2]; simp [hcr]

theorem parseHeader_header (h : IsNumeral ds) (rest : List UInt8) :
    parseHeader tag (header tag ds ++ rest) = some (value ds, rest) := by
  obtain ⟨htake, hdrop⟩ := takeWhile_numeral h (lf :: rest)
  rw [header_append, parseHeader, htake, hdrop]
  simp [h.1]

theorem parseHeader_inv (h : parseHeader tag p = some (n, rest)) :
    ∃ ds, IsNumeral ds ∧ value ds = n ∧ p = header tag ds ++ rest := by
  cases p with
  | nil => cases h
  | cons b p =>
    rw [parseHeader] at h
    split at h
    · rename_i hb
      split at h
      · rename_i c l rest' hdrop
        split at h
        · rename_i hcl
          simp only [Option.some.injEq, Prod.mk.injEq] at h
          obtain ⟨hn, rfl⟩ := h
          refine ⟨p.takeWhile isDigit, ⟨hb.2, fun b hb => List.mem_takeWhile_imp hb⟩, hn, ?_⟩
          have hsplit : p = p.takeWhile isDigit ++ p.dropWhile isDigit := List.takeWhile_append_dropWhile.symm
          rw [hdrop, hcl.1, hcl.2] at hsplit
          rw [hb.1, header]
          simpa using hsplit
        · cases h
      · cases h
    · cases h

theorem parseBulk_bulkWith (h : IsNumeral ds) (hlen : value ds = bs.length) (rest : List UInt8) :
    parseBulk (bulkWith ds bs ++ rest) = some (bs, rest) := by
  have hp : bulkWith ds bs ++ rest = header dollar ds ++ (bs ++ (cr :: lf :: rest)) := by simp [bulkWith]
  rw [hp, parseBulk, parseHeader_header h, hlen]
  simp

theorem parseBulk_inv (h : parseBulk p = some (bs, rest)) :
    ∃ ds, IsNumeral ds ∧ value ds = bs.length ∧ p = bulkWith ds bs ++ rest := by
  rw [parseBulk] at h
  split at h
  · rename_i n body hhead
    split at h
    · rename_i hcrlf
      obtain ⟨ds, hds, hval, rfl⟩ := parseHeader_inv hhead
      simp only [Option.some.injEq, Prod.mk.injEq] at h
      obtain ⟨rfl, rfl⟩ := h
      have hbody : body = body.take n ++ ([cr, lf] ++ body.drop (n + 2)) := by
        rw [← hcrlf, ← List.drop_drop, List.take_append_drop, List.take_append_drop]
      have hlen : n ≤ body.length := by
        by_contra hlt
        rw [List.drop_eq_nil_of_le (by omega)] at hcrlf
        cases hcrlf
      refine ⟨ds, hds, by rw [hval, List.length_take]; omega, ?_⟩
      rw [bulkWith, List.append_assoc, List.append_assoc, ← hbody]
    · cases h
  · cases h

theorem parseBulks_flatMap (xs : List (List UInt8)) (rest : List UInt8) :
    parseBulks xs.length (xs.flatMap bulk ++ rest) = some (xs, rest) := by
  induction xs with
  | nil => rfl
  | cons x xs ih =>
    have hx := parseBulk_bulkWith (isNumeral_decimal x.length) (value_decimal _) (xs.flatMap bulk ++ rest)
    rw [List.flatMap_cons, List.append_assoc, List.length_cons, parseBulks, bulk, hx]
    simp [ih]

/-- The round trip, whatever follows the encoding. -/
theorem parse_encode (xs : List (List UInt8)) (rest : List UInt8) :
    parse (encode xs ++ rest) = some (xs, rest) := by
  rw [encode, List.append_assoc, parse, parseHeader_header (isNumeral_decimal _), value_decimal]
  exact parseBulks_flatMap xs rest

/-! ### A parse does not look past what it consumes -/

theorem parseHeader_append (h : parseHeader tag p = some (n, rest)) (t : List UInt8) :
    parseHeader tag (p ++ t) = some (n, rest ++ t) := by
  obtain ⟨ds, hds, rfl, rfl⟩ := parseHeader_inv h
  rw [List.append_assoc, parseHeader_header hds]

theorem parseBulk_append (h : parseBulk p = some (bs, rest)) (t : List UInt8) :
    parseBulk (p ++ t) = some (bs, rest ++ t) := by
  obtain ⟨ds, hds, hval, rfl⟩ := parseBulk_inv h
  rw [List.append_assoc, parseBulk_bulkWith hds hval]

theorem parseBulks_append {xs : List (List UInt8)} (h : parseBulks n p = some (xs, rest))
    (t : List UInt8) : parseBulks n (p ++ t) = some (xs, rest ++ t) := by
  induction n generalizing p xs with
  | zero => cases h; rfl
  | succ n ih =>
    rw [parseBulks] at h ⊢
    split at h
    · rename_i b rest' hb
      obtain ⟨⟨bs, rest''⟩, hbs, heq⟩ := Option.map_eq_some_iff.1 h
      cases heq
      rw [parseBulk_append hb t]
      simp [ih hbs]
    · cases h

theorem parse_append {xs : List (List UInt8)} (h : parse p = some (xs, rest)) (t : List UInt8) :
    parse (p ++ t) = some (xs, rest ++ t) := by
  rw [parse] at h ⊢
  split at h
  · rename_i n rest' hhead
    rw [parseHeader_append hhead t]
    exact parseBulks_append h t
  · cases h

/-- A proper prefix of an encoding does not parse. -/
theorem parse_of_isPrefix {xs : List (List UInt8)} (hpre : p <+: encode xs) (hne : p ≠ encode xs) :
    parse p = none := by
  obtain ⟨t, ht⟩ := hpre
  cases h : parse p with
  | none => rfl
  | some y =>
    obtain ⟨ys, rest⟩ := y
    have happ := parse_append h t
    rw [ht] at happ
    have henc := parse_encode xs []
    rw [List.append_nil, happ] at henc
    simp only [Option.some.injEq, Prod.mk.injEq, List.append_eq_nil_iff] at henc
    rw [henc.2.2, List.append_nil] at ht
    exact absurd ht hne

end RespFormat
