import RedisTracer.Resp

/-!
# The fast path

`scanAt` in terms of the wire format: it acts at a `$` exactly when a header `$LEN CRLF` starts there
(`scanAt_of_header`, `scanAt_of_no_header`). `firstWord` is the word the scan takes from a list in
which no length overflows, `scanFrom_eq_firstWord` the induction over the remaining bytes.
-/

namespace RedisTracer

open Ascii RespFormat

variable {data p ds rest w : List UInt8} {i n : Nat}

/-! ### One `$` -/

theorem findIdx?_not_getD (q : UInt8 → Bool) (l : List UInt8) :
    (l.findIdx? fun b => !q b).getD l.length = (l.takeWhile q).length := by
  induction l with
  | nil => rfl
  | cons b l ih =>
    rw [List.findIdx?_cons, List.takeWhile_cons]
    cases q b with
    | false => rfl
    | true =>
      show _ = (l.takeWhile q).length + 1
      rw [← ih]
      cases l.findIdx? fun b => !q b <;> simp

theorem digitEnd_eq {start : Nat} (h : start ≤ data.length) :
    digitEnd data start = start + ((data.drop start).takeWhile isDigit).length := by
  rw [← findIdx?_not_getD, digitEnd]
  cases (data.drop start).findIdx? fun b => !isDigit b with
  | some p => rfl
  | none => show _ = _; simp; omega

theorem digitEnd_le {start : Nat} (h : start ≤ data.length) : digitEnd data start ≤ data.length := by
  have hpre := (List.takeWhile_prefix (l := data.drop start) isDigit).length_le
  rw [List.length_drop] at hpre
  rw [digitEnd_eq h]; omega

/-- The word of length `n` at the front of `rest`, clipped to what is there. -/
def wordOf (n : Nat) (rest : List UInt8) : Option (List UInt8) :=
  if rest.take n ≠ [] ∧ (rest.take n).all isAlphabetic then some (rest.take n) else none

theorem parseUsize_str (hds : IsNumeral ds) :
    (utf8? ds).bind parseUsize = if value ds < 2 ^ 64 then some (value ds) else none := by
  have hascii : ∀ b ∈ ds, b.toNat < 128 := fun b hb => by
    have := isDigit_iff.1 (hds.2 b hb); omega
  rw [utf8?_eq hascii]
  obtain ⟨d, ds', rfl⟩ := List.exists_cons_of_ne_nil hds.1
  have hd : d ≠ 43 := by
    rintro rfl
    exact absurd (hds.2 43 List.mem_cons_self) (by decide)
  have hall : (d :: ds').all isDigit = true := List.all_eq_true.2 hds.2
  simp only [Option.bind_some, parseUsize, bytes_str hascii]
  split
  · rename_i heq
    cases heq; exact absurd rfl hd
  · simp only [hall]; simp

section
variable (h : data.drop i = header dollar ds ++ rest)
include h

theorem lt_of_header : data.length = i + ds.length + 3 + rest.length := by
  have hlen := congrArg List.length h
  rw [List.length_drop, List.length_append, length_header] at hlen
  omega

theorem drop_digits : data.drop (i + 1) = ds ++ cr :: lf :: rest := by
  rw [← List.drop_drop, h, header_append]; rfl

theorem drop_word : data.drop (i + 1 + ds.length + 2) = rest := by
  rw [← List.drop_drop, ← List.drop_drop, drop_digits h]; simp

theorem digitEnd_header (hds : IsNumeral ds) : digitEnd data (i + 1) = i + 1 + ds.length := by
  have := lt_of_header h
  rw [digitEnd_eq (by omega), drop_digits h, (takeWhile_numeral hds _).1]

theorem crlf_header (hds : IsNumeral ds) :
    i + 1 + ds.length > i + 1 ∧ i + 1 + ds.length + 1 < data.length ∧
      data[i + 1 + ds.length]? = some cr ∧ data[i + 1 + ds.length + 1]? = some lf := by
  have hlen := lt_of_header h
  have hpos : 0 < ds.length := List.length_pos_iff.2 hds.1
  have hat : ∀ k, data[i + 1 + ds.length + k]? = (cr :: lf :: rest)[k]? := by
    intro k
    rw [show i + 1 + ds.length + k = i + 1 + (ds.length + k) by omega, ← List.getElem?_drop,
      drop_digits h, List.getElem?_append_right (by omega)]
    simp
  exact ⟨by omega, by omega, hat 0, hat 1⟩

theorem extract_digits : data.extract (i + 1) (i + 1 + ds.length) = ds := by
  rw [List.extract_eq_take_drop, drop_digits h, Nat.add_sub_cancel_left, List.take_left]

theorem scanAt_header (hds : IsNumeral ds) : scanAt data i =
    if value ds < 2 ^ 64 then
      if min ((i + 1 + ds.length + 2 + value ds) % 2 ^ 64) data.length > i + 1 + ds.length + 2 then
        let bs := rest.take (min ((i + 1 + ds.length + 2 + value ds) % 2 ^ 64) data.length -
          (i + 1 + ds.length + 2))
        if !bs.all isAlphabetic then none else some (commandName bs)
      else none
    else some none := by
  have hlen := lt_of_header h
  rw [scanAt, digitEnd_header h hds, if_pos (crlf_header h hds), extract_digits h, parseUsize_str hds]
  by_cases hbig : value ds < 2 ^ 64
  · simp only [if_pos hbig, List.extract_eq_take_drop, drop_word h]
  · simp only [if_neg hbig]

theorem scanAt_of_header (hds : IsNumeral ds) (hlt : i + ds.length + 3 + value ds < 2 ^ 64) :
    scanAt data i = (wordOf (value ds) rest).map commandName := by
  have hlen := lt_of_header h
  rw [scanAt_header h hds, if_pos (by omega), Nat.mod_eq_of_lt (by omega)]
  by_cases hpos : min (i + 1 + ds.length + 2 + value ds) data.length > i + 1 + ds.length + 2
  · have htake : rest.take (min (i + 1 + ds.length + 2 + value ds) data.length -
        (i + 1 + ds.length + 2)) = rest.take (value ds) := by
      rcases Nat.le_total (value ds) rest.length with hle | hle
      · rw [show min _ _ - _ = value ds by omega]
      · rw [List.take_of_length_le hle, List.take_of_length_le (by omega)]
    have hne : rest.take (value ds) ≠ [] := by
      rw [← List.length_pos_iff, List.length_take]; omega
    rw [if_pos hpos, htake, wordOf]
    by_cases hall : (rest.take (value ds)).all isAlphabetic = true
    · rw [if_neg (by rw [hall]; decide), if_pos ⟨hne, hall⟩]; rfl
    · rw [if_pos (by rw [Bool.not_eq_true] at hall; rw [hall]; rfl), if_neg fun hw => hall hw.2]; rfl
  · have hnil : rest.take (value ds) = [] := by
      rw [← List.length_eq_zero_iff, List.length_take]; omega
    rw [if_neg hpos, wordOf, hnil]; rfl

theorem scanAt_of_big (hds : IsNumeral ds) (hbig : 2 ^ 64 ≤ i + ds.length + 3 + value ds)
    (hi : i + ds.length + 3 < 2 ^ 64) :
    scanAt data i = if value ds < 2 ^ 64 then none else some none := by
  rw [scanAt_header h hds]
  split
  · exact if_neg (by omega)
  · rfl

end

theorem no_crlf_of_no_header (h : data.drop i = dollar :: p)
    (hp : parseHeader dollar (dollar :: p) = none) :
    ¬ (digitEnd data (i + 1) > i + 1 ∧ digitEnd data (i + 1) + 1 < data.length ∧
      data[digitEnd data (i + 1)]? = some cr ∧ data[digitEnd data (i + 1) + 1]? = some lf) := by
  have hlen : data.length = i + 1 + p.length := by
    have := congrArg List.length h
    simp at this; omega
  have hdrop : data.drop (i + 1) = p := by rw [← List.drop_drop, h]; rfl
  have hsplit : p = p.takeWhile isDigit ++ p.dropWhile isDigit :=
    List.takeWhile_append_dropWhile.symm
  have hat : ∀ k, data[digitEnd data (i + 1) + k]? = (p.dropWhile isDigit)[k]? := by
    intro k
    rw [digitEnd_eq (by omega), hdrop, Nat.add_assoc, ← List.getElem?_drop, hdrop]
    conv_lhs => rw [hsplit]
    rw [List.getElem?_append_right (by simp)]
    simp
  rintro ⟨hdigits, -, hcr, hlf⟩
  have hcr' : (p.dropWhile isDigit)[0]? = some cr := (hat 0).symm.trans hcr
  have hlf' : (p.dropWhile isDigit)[1]? = some lf := (hat 1).symm.trans hlf
  have hds : IsNumeral (p.takeWhile isDigit) := by
    refine ⟨fun hnil => ?_, fun b hb => List.mem_takeWhile_imp hb⟩
    rw [digitEnd_eq (by omega), hdrop, hnil] at hdigits
    exact absurd hdigits (by simp)
  match hrest : p.dropWhile isDigit with
  | [] => simp [hrest] at hcr'
  | [_] => simp [hrest] at hlf'
  | c :: l :: rest =>
    rw [hrest] at hcr' hlf' hsplit
    cases hcr'; cases hlf'
    have hhead : dollar :: p = header dollar (p.takeWhile isDigit) ++ rest := by
      rw [header_append, ← hsplit]
    rw [hhead, parseHeader_header hds] at hp
    cases hp

theorem scanAt_of_no_header (h : data.drop i = dollar :: p)
    (hp : parseHeader dollar (dollar :: p) = none) : scanAt data i = none :=
  if_neg (no_crlf_of_no_header h hp)

theorem scanAt_some {r : Option Cow} (h : scanAt data i = some r) :
    r = none ∨ ∃ w, w.all isAlphabetic = true ∧ r = commandName w := by
  unfold scanAt at h
  dsimp only at h
  split at h
  · split at h
    · cases h; exact .inl rfl
    · split at h
      · split at h
        · cases h
        · rename_i hall
          cases h
          exact .inr ⟨_, by simpa using hall, rfl⟩
      · cases h
  · cases h

/-! ### The loop -/

/-- The loop over the `$` of `suf`, whose first byte has index `i` in `data`. -/
def scanFrom (data suf : List UInt8) (i : Nat) : Option (Option Cow) :=
  ((suf.zipIdx i).filter fun p => p.1 == dollar).findSome? fun p => scanAt data p.2

theorem scanRespCommand_eq (data : List UInt8) : scanRespCommand data = (scanFrom data data 0).join :=
  rfl

theorem scanFrom_append (xs ys : List UInt8) :
    scanFrom data (xs ++ ys) i = (scanFrom data xs i).or (scanFrom data ys (i + xs.length)) := by
  rw [scanFrom, List.zipIdx_append, List.filter_append, List.findSome?_append]; rfl

theorem scanFrom_dollar (xs : List UInt8) :
    scanFrom data (dollar :: xs) i = (scanAt data i).or (scanFrom data xs (i + 1)) := by
  rw [scanFrom, List.zipIdx_cons, List.filter_cons_of_pos (by simp), List.findSome?_cons]
  cases scanAt data i <;> rfl

theorem scanFrom_of_ne {b : UInt8} (hb : b ≠ dollar) (xs : List UInt8) :
    scanFrom data (b :: xs) i = scanFrom data xs (i + 1) := by
  rw [scanFrom, List.zipIdx_cons, List.filter_cons_of_neg (by simpa using hb)]; rfl

theorem scanFrom_of_not_mem {xs : List UInt8} (h : dollar ∉ xs) : scanFrom data xs i = none := by
  induction xs generalizing i with
  | nil => rfl
  | cons b xs ih =>
    rw [scanFrom_of_ne fun hb => h (hb ▸ List.mem_cons_self)]
    exact ih fun hx => h (List.mem_cons_of_mem _ hx)

theorem scanFrom_some {suf : List UInt8} {r : Option Cow} (h : scanFrom data suf i = some r) :
    r = none ∨ ∃ w, w.all isAlphabetic = true ∧ r = commandName w := by
  obtain ⟨p, -, hp⟩ := List.exists_of_findSome?_eq_some h
  exact scanAt_some hp

/-! ### The word the scan takes -/

def wordAfter (p : List UInt8) : Option (List UInt8) :=
  (parseHeader dollar p).bind fun (n, rest) => wordOf n rest

/-- The first word after a header anywhere in `p`. -/
def firstWord (p : List UInt8) : Option (List UInt8) := p.tails.findSome? wordAfter

theorem firstWord_cons (b : UInt8) (p : List UInt8) :
    firstWord (b :: p) = (wordAfter (b :: p)).or (firstWord p) := by
  rw [firstWord, List.tails_cons, List.findSome?_cons]
  cases wordAfter (b :: p) <;> rfl

theorem firstWord_cons_of_ne {b : UInt8} (hb : b ≠ dollar) (p : List UInt8) :
    firstWord (b :: p) = firstWord p := by
  have hword : wordAfter (b :: p) = none := by simp [wordAfter, parseHeader, hb]
  rw [firstWord_cons, hword]; rfl

theorem wordOf_some (h : wordOf n rest = some w) : w ≠ [] ∧ w.all isAlphabetic = true := by
  unfold wordOf at h
  split at h
  · rename_i hw; cases h; exact hw
  · cases h

theorem firstWord_some (h : firstWord p = some w) : w ≠ [] ∧ w.all isAlphabetic = true := by
  obtain ⟨q, -, hq⟩ := List.exists_of_findSome?_eq_some h
  obtain ⟨⟨n, rest⟩, -, hw⟩ := Option.bind_eq_some_iff.1 hq
  exact wordOf_some hw

/-- From index `10` on, no length in a capture overflows. -/
theorem scanFrom_eq_firstWord {suf : List UInt8} (hlen : data.length ≤ 32) (hi : 10 ≤ i)
    (h : data.drop i = suf) : scanFrom data suf i = (firstWord suf).map commandName := by
  induction suf generalizing i with
  | nil => rfl
  | cons b suf ih =>
    have ih := ih (i := i + 1) (by omega) (by rw [← List.drop_drop, h]; rfl)
    by_cases hb : b = dollar
    · subst hb
      have hword : scanAt data i = (wordAfter (dollar :: suf)).map commandName := by
        cases hp : parseHeader dollar (dollar :: suf) with
        | none => rw [scanAt_of_no_header h hp, wordAfter, hp]; rfl
        | some q =>
          obtain ⟨n, rest⟩ := q
          obtain ⟨ds, hds, rfl, heq⟩ := parseHeader_inv hp
          rw [heq] at h
          have hdata := lt_of_header h
          have hval : value ds < 10 ^ 19 :=
            Nat.lt_of_lt_of_le (value_lt hds.2) (Nat.pow_le_pow_right (by decide) (by omega))
          rw [scanAt_of_header h hds (by omega), wordAfter, hp]; rfl
      rw [scanFrom_dollar, hword, ih, firstWord_cons]
      cases wordAfter (dollar :: suf) <;> rfl
    · rw [scanFrom_of_ne hb, ih, firstWord_cons_of_ne hb]

/-! ### Labels -/

theorem lt_of_all_alphabetic (h : w.all isAlphabetic = true) : ∀ b ∈ w, b.toNat < 128 :=
  fun b hb => isAlphabetic_lt (List.all_eq_true.1 h b hb)

theorem map_toUpper_lt (h : ∀ b ∈ w, b.toNat < 128) : ∀ b ∈ w.map toUpper, b.toNat < 128 := by
  intro b hb
  obtain ⟨a, ha, rfl⟩ := List.mem_map.1 hb
  exact toUpper_lt (h a ha)

theorem staticNames_upper : ∀ s ∈ staticNames, (bytes s).map toUpper = bytes s := by decide

/-- The static table and the allocating path agree on the label of a run of letters. -/
theorem commandName_asRef (h : w.all isAlphabetic = true) :
    ∃ c, commandName w = some c ∧ c.asRef = str (w.map toUpper) := by
  have hw := lt_of_all_alphabetic h
  unfold commandName
  cases hs : tryStatic w with
  | some s =>
    have hbytes : bytes s = w := by simpa using List.find?_some hs
    have hup := staticNames_upper s (List.mem_of_find?_eq_some hs)
    rw [hbytes] at hup
    exact ⟨_, rfl, by rw [hup]; exact str_bytes hw hbytes⟩
  | none =>
    refine ⟨.owned (str (w.map toUpper)), ?_, rfl⟩
    show (utf8? (w.map toUpper)).map Cow.owned = _
    rw [utf8?_eq (map_toUpper_lt hw)]; rfl

theorem scanRespCommand_some {c : Cow} (h : scanRespCommand data = some c) :
    ∃ w : List UInt8, w.all isAlphabetic = true ∧ c.asRef = str (w.map toUpper) := by
  rw [scanRespCommand_eq] at h
  obtain hr | ⟨w, hw, hr⟩ := scanFrom_some (Option.join_eq_some_iff.1 h)
  · cases hr
  · obtain ⟨c', hc', href⟩ := commandName_asRef hw
    cases hr.trans hc'
    exact ⟨w, hw, href⟩

end RedisTracer
