import Mathlib

/-!
# Lines, words and numerals

The text functions a parser of `/proc` files is made of, on lists of characters: `lines` ends at `\n` or
`\r\n`, `words` are the longest runs without a break, `fromStrRadix` reads a number below a bound.
-/

namespace Text

variable {α : Type} {p : α → Bool} {a : α} {as bs w : List α}

/-! ### Words -/

/-- The non-empty runs between the breaks. -/
def words (p : α → Bool) (as : List α) : List (List α) := (as.splitOnP p).filter fun w => !w.isEmpty

theorem words_append_cons (ha : p a = true) : words p (as ++ a :: bs) = words p as ++ words p bs := by
  rw [words, List.splitOnP_append_cons as bs ha, List.filter_append]; rfl

@[simp] theorem words_nil : words p [] = [] := by
  rw [words, List.splitOnP_nil]; rfl

theorem words_cons (ha : p a = true) : words p (a :: as) = words p as := by
  rw [← List.nil_append (a :: as), words_append_cons ha, words_nil, List.nil_append]

theorem words_replicate (ha : p a = true) (n : Nat) : words p (List.replicate n a ++ as) = words p as := by
  induction n with
  | zero => rfl
  | succ n ih =>
    rw [List.replicate_succ, List.cons_append, words_cons ha, ih]

/-- A run without a break is one word. -/
theorem words_singleton (hne : w ≠ []) (hw : ∀ a ∈ w, p a = false) : words p w = [w] := by
  rw [words, List.splitOnP_eq_singleton hw]
  simpa using hne

theorem words_word (hne : w ≠ []) (hw : ∀ a ∈ w, p a = false) (ha : p a = true) :
    words p (w ++ a :: as) = w :: words p as := by
  rw [words_append_cons ha, words_singleton hne hw]; rfl

/-- The first word of a text that starts with no break. -/
theorem words_cons_of_neg (ha : p a = false) : words p (a :: as) =
    (a :: as).takeWhile (fun b => !p b) :: words p ((a :: as).dropWhile fun b => !p b) := by
  have hsplit : (a :: as).takeWhile (fun b => !p b) ++ (a :: as).dropWhile (fun b => !p b) = a :: as :=
    List.takeWhile_append_dropWhile
  have hne : (a :: as).takeWhile (fun b => !p b) ≠ [] := by simp [ha]
  have hword : ∀ b ∈ (a :: as).takeWhile (fun b => !p b), p b = false := by
    intro b hb
    simpa using List.mem_takeWhile_imp hb
  conv_lhs => rw [← hsplit]
  cases hrest : (a :: as).dropWhile fun b => !p b with
  | nil => rw [List.append_nil, words_singleton hne hword, words_nil]
  | cons b rest =>
    have hb : p b = true := by
      have hnot := List.head_dropWhile_not (fun b => !p b) (l := a :: as) (by simp [hrest])
      simpa [hrest] using hnot
    rw [words_word hne hword hb, words_cons hb]

theorem sum_length_splitOnP (as : List α) :
    ((as.splitOnP p).map List.length).sum + (as.splitOnP p).length = as.length + 1 := by
  induction as with
  | nil => rfl
  | cons a as ih =>
    obtain ⟨w, ws, hsplit⟩ := List.exists_cons_of_ne_nil (List.splitOnP_ne_nil p as)
    rw [hsplit, List.map_cons, List.sum_cons, List.length_cons] at ih
    rw [List.splitOnP_cons_eq_if_modifyHead, hsplit]
    split
    · simp only [List.map_cons, List.sum_cons, List.length_cons, List.length_nil]
      omega
    · simp only [List.modifyHead_cons, List.map_cons, List.sum_cons, List.length_cons]
      omega

/-- Each word takes a character, and a break before the next. -/
theorem length_words_le (as : List α) : 2 * (words p as).length ≤ as.length + 1 := by
  have hlen := sum_length_splitOnP (p := p) as
  have hword : (words p as).length ≤ ((as.splitOnP p).map List.length).sum := by
    rw [words]
    induction as.splitOnP p with
    | nil => exact Nat.le_refl _
    | cons w ws ih =>
      rw [List.map_cons, List.sum_cons]
      cases w with
      | nil => simpa using ih
      | cons a w =>
        simp only [List.filter_cons, List.isEmpty_cons, Bool.not_false, if_true, List.length_cons]
        omega
  have hpiece : (words p as).length ≤ (as.splitOnP p).length := List.length_filter_le _ _
  omega

/-- Words each after a break, and a break at the end. -/
theorem words_flatMap {a b : α} (ha : p a = true) (hb : p b = true) {ws : List (List α)}
    (hw : w ≠ [] ∧ ∀ c ∈ w, p c = false) (hws : ∀ w ∈ ws, w ≠ [] ∧ ∀ c ∈ w, p c = false) :
    words p (w ++ (ws.flatMap (fun w => a :: w) ++ [b])) = w :: ws := by
  induction ws generalizing w with
  | nil => rw [List.flatMap_nil, List.nil_append, words_word hw.1 hw.2 hb, words_nil]
  | cons w' ws ih =>
    rw [List.flatMap_cons, List.cons_append, List.cons_append, words_word hw.1 hw.2 ha, List.append_assoc,
      ih (hws w' List.mem_cons_self) fun v hv => hws v (List.mem_cons_of_mem _ hv)]

/-! ### Separators -/

/-- A piece holds no separator, and nothing that was not in the text. -/
theorem mem_splitOn {c : Char} {cs l : List Char} (hl : l ∈ cs.splitOn c) : c ∉ l ∧ ∀ d ∈ l, d ∈ cs := by
  induction cs generalizing l with
  | nil =>
    rw [List.splitOn_nil, List.mem_singleton] at hl
    subst hl
    simp
  | cons d cs ih =>
    rw [List.splitOn_cons_eq_if_modifyHead] at hl
    split at hl
    · rcases List.mem_cons.1 hl with rfl | hl
      · simp
      · exact ⟨(ih hl).1, fun x hx => List.mem_cons_of_mem _ ((ih hl).2 x hx)⟩
    · rename_i hdc
      obtain ⟨hd, tl, hsplit⟩ := List.exists_cons_of_ne_nil (List.splitOn_ne_nil c cs)
      rw [hsplit, List.modifyHead_cons] at hl
      rw [hsplit] at ih
      rcases List.mem_cons.1 hl with rfl | hl
      · obtain ⟨hnot, hsub⟩ := ih List.mem_cons_self
        refine ⟨?_, fun x hx => ?_⟩
        · rintro (_ | ⟨_, hmem⟩)
          · simp at hdc
          · exact hnot hmem
        · rcases List.mem_cons.1 hx with rfl | hx
          · exact List.mem_cons_self
          · exact List.mem_cons_of_mem _ (hsub x hx)
      · obtain ⟨hnot, hsub⟩ := ih (List.mem_cons_of_mem _ hl)
        exact ⟨hnot, fun x hx => List.mem_cons_of_mem _ (hsub x hx)⟩

section
variable (hw : ∀ b ∈ w, p b = true) (ha : p a = false)
include hw ha

theorem rtakeWhile_append_cons : (as ++ a :: w).rtakeWhile p = w := by
  have hrev : ∀ b ∈ w.reverse, p b = true := fun b hb => hw b (List.mem_reverse.1 hb)
  rw [List.rtakeWhile, List.reverse_append, List.reverse_cons, List.append_assoc,
    List.takeWhile_append_of_pos hrev, List.singleton_append, List.takeWhile_cons_of_neg (by simp [ha]),
    List.append_nil, List.reverse_reverse]

theorem rdropWhile_append_cons : (as ++ a :: w).rdropWhile p = as ++ [a] := by
  have hrev : ∀ b ∈ w.reverse, p b = true := fun b hb => hw b (List.mem_reverse.1 hb)
  rw [List.rdropWhile, List.reverse_append, List.reverse_cons, List.append_assoc,
    List.dropWhile_append_of_pos hrev, List.singleton_append, List.dropWhile_cons_of_neg (by simp [ha]),
    List.reverse_cons, List.reverse_reverse]

end

/-! ### Lines -/

def stripCr (l : List Char) : List Char :=
  if l.getLast? = some '\r' then l.dropLast else l

/-- The last line need not end with a newline; then a `\r` at its end stays. -/
def lines (cs : List Char) : List (List Char) :=
  let ls := cs.splitOn '\n'
  ls.dropLast.map stripCr ++ ls.getLast?.toList.filter fun l => !l.isEmpty

theorem splitOn_flatMap (ls : List (List Char)) (h : ∀ l ∈ ls, '\n' ∉ l) :
    (ls.flatMap fun l => l ++ ['\n']).splitOn '\n' = ls ++ [[]] := by
  induction ls with
  | nil => exact List.splitOn_nil _
  | cons l ls ih =>
    have ih := ih fun l' hl' => h l' (List.mem_cons_of_mem _ hl')
    rw [List.flatMap_cons, List.append_assoc, List.singleton_append, List.splitOn_append_cons_self, ih,
      List.splitOn_eq_singleton (h l List.mem_cons_self)]
    rfl

theorem lines_flatMap (ls : List (List Char)) (h : ∀ l ∈ ls, '\n' ∉ l) :
    lines (ls.flatMap fun l => l ++ ['\n']) = ls.map stripCr := by
  rw [lines, splitOn_flatMap ls h]
  simp

theorem not_mem_of_mem_lines {cs l : List Char} (hl : l ∈ lines cs) : '\n' ∉ l := by
  have hpiece : ∃ l' ∈ cs.splitOn '\n', ∀ d ∈ l, d ∈ l' := by
    rcases List.mem_append.1 hl with hl | hl
    · obtain ⟨l', hl', rfl⟩ := List.mem_map.1 hl
      refine ⟨l', List.mem_of_mem_dropLast hl', fun d hd => ?_⟩
      unfold stripCr at hd
      split at hd
      · exact List.mem_of_mem_dropLast hd
      · exact hd
    · obtain ⟨hlast, -⟩ := List.mem_filter.1 hl
      exact ⟨l, List.mem_of_getLast? (Option.mem_toList.1 hlast), fun d hd => hd⟩
  obtain ⟨l', hl', hsub⟩ := hpiece
  exact fun hmem => (mem_splitOn hl').1 (hsub _ hmem)

/-! ### Numerals -/

/-- `char::to_digit` -/
def toDigit (b : Nat) (c : Char) : Option Nat :=
  let d :=
    if '0' ≤ c ∧ c ≤ '9' then some (c.toNat - 48)
    else if 'a' ≤ c ∧ c ≤ 'z' then some (c.toNat - 97 + 10)
    else if 'A' ≤ c ∧ c ≤ 'Z' then some (c.toNat - 65 + 10)
    else none
  d.filter (· < b)

/-- The digits of a numeral, the most significant first; there is at least one. -/
def magnitude (b : Nat) (cs : List Char) : Option Nat :=
  if cs = [] then none else (cs.mapM (toDigit b)).map fun ds => Nat.ofDigits b ds.reverse

/-- `from_str_radix` of an unsigned type whose numbers are those below `bound`. -/
def fromStrRadix (b bound : Nat) (cs : List Char) : Option Nat :=
  (magnitude b (match cs with
    | '+' :: ds => ds
    | ds => ds)).filter (· < bound)

theorem toDigit_digitChar {b d : Nat} (hb : b ≤ 16) (hd : d < b) : toDigit b d.digitChar = some d := by
  have hall : ∀ d : Fin 16, (toDigit 16 d.1.digitChar) = some d.1 := by decide
  have h16 := hall ⟨d, by omega⟩
  simp only [toDigit, Option.filter_eq_some_iff] at h16 ⊢
  exact ⟨h16.1, by simpa using hd⟩

theorem magnitude_concat {b d n : Nat} {cs : List Char} (hb : b ≤ 16) (hd : d < b)
    (h : magnitude b cs = some n) : magnitude b (cs ++ [d.digitChar]) = some (b * n + d) := by
  have hne : cs ≠ [] := by
    rintro rfl
    cases h
  rw [magnitude, if_neg hne] at h
  obtain ⟨ds, hds, rfl⟩ := Option.map_eq_some_iff.1 h
  rw [magnitude, if_neg (by simp), List.mapM_append, hds]
  simp [toDigit_digitChar hb hd, Nat.ofDigits_cons, Nat.add_comm]

theorem magnitude_toDigits {b : Nat} (hb : 1 < b) (hb' : b ≤ 16) (n : Nat) :
    magnitude b (Nat.toDigits b n) = some n := by
  induction n using Nat.strongRecOn with
  | ind n ih =>
    rw [Nat.toDigits_eq_if hb]
    split
    · rename_i hlt
      simp [magnitude, toDigit_digitChar hb' hlt]
    · rename_i hge
      have hlt : n / b < n := Nat.div_lt_self (by omega) hb
      rw [magnitude_concat hb' (Nat.mod_lt n (by omega)) (ih _ hlt), Nat.div_add_mod]

theorem exists_digit_of_mem_toDigits {b : Nat} (hb : 1 < b) {n : Nat} {c : Char}
    (hc : c ∈ Nat.toDigits b n) : ∃ d, d < b ∧ c = d.digitChar := by
  induction n using Nat.strongRecOn with
  | ind n ih =>
    rw [Nat.toDigits_eq_if hb] at hc
    split at hc
    · rename_i hlt
      exact ⟨n, hlt, List.mem_singleton.1 hc⟩
    · rename_i hge
      rcases List.mem_append.1 hc with hc | hc
      · exact ih (n / b) (Nat.div_lt_self (by omega) hb) hc
      · exact ⟨n % b, Nat.mod_lt n (by omega), List.mem_singleton.1 hc⟩

theorem isAlphanum_of_mem_toDigits {b : Nat} (hb : 1 < b) (hb' : b ≤ 16) {n : Nat} {c : Char}
    (hc : c ∈ Nat.toDigits b n) : c.isAlphanum = true := by
  obtain ⟨d, hd, rfl⟩ := exists_digit_of_mem_toDigits hb hc
  have hall : ∀ d : Fin 16, d.1.digitChar.isAlphanum = true := by decide
  exact hall ⟨d, by omega⟩

/-- A numeral filled up with zeros. -/
def padded (b width n : Nat) : List Char := List.leftpad width '0' (Nat.toDigits b n)

theorem isAlphanum_of_mem_padded {b : Nat} (hb : 1 < b) (hb' : b ≤ 16) {width n : Nat} {c : Char}
    (hc : c ∈ padded b width n) : c.isAlphanum = true := by
  rcases List.mem_append.1 hc with hc | hc
  · rw [(List.mem_replicate.1 hc).2]
    rfl
  · exact isAlphanum_of_mem_toDigits hb hb' hc

theorem padded_ne_nil (b width n : Nat) : padded b width n ≠ [] := by
  simp [padded, List.leftpad, Nat.toDigits_ne_nil]

theorem magnitude_padded {b : Nat} (hb : 1 < b) (hb' : b ≤ 16) (width n : Nat) :
    magnitude b (padded b width n) = some n := by
  have hn := magnitude_toDigits hb hb' n
  rw [magnitude, if_neg Nat.toDigits_ne_nil] at hn
  obtain ⟨ds, hds, hval⟩ := Option.map_eq_some_iff.1 hn
  have hzero : toDigit b '0' = some 0 := toDigit_digitChar hb' (d := 0) (by omega)
  have hzeros : ∀ k, (List.replicate k '0').mapM (toDigit b) = some (List.replicate k 0) := by
    intro k
    induction k with
    | zero => rfl
    | succ k ih =>
      rw [List.replicate_succ, List.mapM_cons, hzero, ih]
      rfl
  rw [magnitude, if_neg (padded_ne_nil b width n), padded, List.leftpad, List.mapM_append, hzeros, hds]
  simp [← hval, Nat.ofDigits_append_replicate_zero]

theorem fromStrRadix_padded {b : Nat} (hb : 1 < b) (hb' : b ≤ 16) (bound width n : Nat) :
    fromStrRadix b bound (padded b width n) = (some n).filter (· < bound) := by
  have hplus : ∀ ds, padded b width n ≠ '+' :: ds := by
    intro ds h
    have hmem : '+' ∈ padded b width n := h ▸ List.mem_cons_self
    cases isAlphanum_of_mem_padded hb hb' hmem
  unfold fromStrRadix
  split
  · rename_i ds h
    exact absurd h (hplus ds)
  · rw [magnitude_padded hb hb']

theorem fromStrRadix_toDigits {b : Nat} (hb : 1 < b) (hb' : b ≤ 16) (bound n : Nat) :
    fromStrRadix b bound (Nat.toDigits b n) = (some n).filter (· < bound) := by
  have h := fromStrRadix_padded hb hb' bound 0 n
  rwa [padded, List.leftpad, Nat.zero_sub, List.replicate_zero, List.nil_append] at h

end Text
