import Mathlib

/-!
# ASCII bytes and strings

Byte classes, decimal numerals, and the string an ASCII byte list spells. In such a string every
byte index is a character boundary.
-/

namespace Ascii

def cr : UInt8 := 13
def lf : UInt8 := 10

def isDigit (b : UInt8) : Bool := 48 ≤ b && b ≤ 57

def isAlphabetic (b : UInt8) : Bool := (65 ≤ b && b ≤ 90) || (97 ≤ b && b ≤ 122)

def isGraphic (b : UInt8) : Bool := 33 ≤ b && b ≤ 126

def toUpper (b : UInt8) : UInt8 := if 97 ≤ b && b ≤ 122 then b - 32 else b

/-! ### Decimal numerals -/

/-- The decimal numeral of `n`, without leading zeros. -/
def decimal (n : Nat) : List UInt8 :=
  if n = 0 then [48] else (Nat.digits 10 n).reverse.map fun d => UInt8.ofNat (48 + d)

def value (ds : List UInt8) : Nat := Nat.ofDigits 10 (ds.reverse.map fun b => b.toNat - 48)

theorem digit_toNat {d : Nat} (h : d < 10) : (UInt8.ofNat (48 + d)).toNat = 48 + d :=
  UInt8.toNat_ofNat_of_lt' (by rw [UInt8.size]; omega)

theorem isDigit_iff {b : UInt8} : isDigit b = true ↔ 48 ≤ b.toNat ∧ b.toNat ≤ 57 := by
  simp [isDigit, UInt8.le_iff_toNat_le]

theorem decimal_ne_nil (n : Nat) : decimal n ≠ [] := by
  unfold decimal
  split
  · simp
  · rename_i hn
    simpa using Nat.digits_ne_nil_iff_ne_zero.2 hn

theorem isDigit_of_mem_decimal {n : Nat} {b : UInt8} (h : b ∈ decimal n) : isDigit b = true := by
  unfold decimal at h
  split at h
  · rw [List.mem_singleton.1 h]; decide
  · simp only [List.mem_map, List.mem_reverse] at h
    obtain ⟨d, hd, rfl⟩ := h
    have hlt : d < 10 := Nat.digits_lt_base (by decide) hd
    rw [isDigit_iff, digit_toNat hlt]; omega

theorem value_decimal (n : Nat) : value (decimal n) = n := by
  unfold decimal value
  split
  · subst n; rfl
  · rw [← List.map_reverse, List.reverse_reverse, List.map_map]
    have hid : ∀ d ∈ Nat.digits 10 n, ((fun b : UInt8 => b.toNat - 48) ∘ fun d => UInt8.ofNat (48 + d)) d = d := by
      intro d hd
      have hlt : d < 10 := Nat.digits_lt_base (by decide) hd
      show (UInt8.ofNat (48 + d)).toNat - 48 = d
      rw [digit_toNat hlt]; omega
    rw [List.map_congr_left hid, List.map_id', Nat.ofDigits_digits]

theorem value_lt {ds : List UInt8} (h : ∀ b ∈ ds, isDigit b = true) : value ds < 10 ^ ds.length := by
  have hlt : ∀ d ∈ ds.reverse.map (fun b : UInt8 => b.toNat - 48), d < 10 := by
    intro d hd
    simp only [List.mem_map, List.mem_reverse] at hd
    obtain ⟨b, hb, rfl⟩ := hd
    have := isDigit_iff.1 (h b hb); omega
  simpa [value] using Nat.ofDigits_lt_base_pow_length (by decide) hlt

/-! ### Strings -/

/-- The string spelled by the bytes `bs`. -/
def str (bs : List UInt8) : String := String.ofList (bs.map fun b => Char.ofNat b.toNat)

def utf8? (bs : List UInt8) : Option String := String.fromUTF8? ⟨bs.toArray⟩

def bytes (s : String) : List UInt8 := s.toByteArray.data.toList

theorem isAlphabetic_lt {b : UInt8} (h : isAlphabetic b = true) : b.toNat < 128 := by
  simp only [isAlphabetic, Bool.or_eq_true, Bool.and_eq_true, decide_eq_true_eq,
    UInt8.le_iff_toNat_le, UInt8.reduceToNat] at h
  omega

theorem toUpper_lt {b : UInt8} (h : b.toNat < 128) : (toUpper b).toNat < 128 := by
  unfold toUpper
  split
  · rename_i hb
    simp only [Bool.and_eq_true, decide_eq_true_eq, UInt8.le_iff_toNat_le, UInt8.reduceToNat] at hb
    rw [UInt8.toNat_sub_of_le _ _ (UInt8.le_iff_toNat_le.2 (by simpa using by omega))]
    exact Nat.lt_of_le_of_lt (Nat.sub_le ..) h
  · exact h

theorem isGraphic_iff {b : UInt8} : isGraphic b = true ↔ 33 ≤ b.toNat ∧ b.toNat ≤ 126 := by
  simp [isGraphic, UInt8.le_iff_toNat_le]

theorem isAlphabetic_toUpper (b : UInt8) : isAlphabetic (toUpper b) = isAlphabetic b := by
  have h : ∀ n : Fin 256,
      isAlphabetic (toUpper (UInt8.ofNat n)) = isAlphabetic (UInt8.ofNat n) := by decide +kernel
  simpa using h ⟨b.toNat, b.toNat_lt⟩

theorem toUpper_char {b : UInt8} (h : b.toNat < 128) :
    (Char.ofNat b.toNat).toUpper = Char.ofNat (toUpper b).toNat := by
  have hall : ∀ n : Fin 128, (Char.ofNat n).toUpper = Char.ofNat (toUpper (UInt8.ofNat n)).toNat := by
    decide
  simpa using hall ⟨b.toNat, h⟩

theorem char_toNat {b : UInt8} (h : b.toNat < 128) : (Char.ofNat b.toNat).toNat = b.toNat :=
  by
  rw [Char.ofNat, dif_pos (.inl (by omega) : b.toNat.isValidChar)]; rfl

theorem val_le {b : UInt8} (h : b.toNat < 128) : (Char.ofNat b.toNat).val ≤ 127 := by
  rw [UInt32.le_iff_toNat_le]
  show (Char.ofNat b.toNat).toNat ≤ 127
  rw [char_toNat h]; omega

theorem utf8EncodeChar_ofNat {b : UInt8} (h : b.toNat < 128) :
    String.utf8EncodeChar (Char.ofNat b.toNat) = [b] := by
  have hval : (Char.ofNat b.toNat).val.toNat = b.toNat := char_toNat h
  have hsize : (Char.ofNat b.toNat).utf8Size = 1 := by
    rw [Char.utf8Size_eq_one_iff, UInt32.le_iff_toNat_le, hval]; show _ ≤ 127; omega
  rw [String.utf8EncodeChar_eq_singleton hsize, List.cons.injEq]
  refine ⟨UInt8.toNat_inj.1 ?_, rfl⟩
  rw [UInt32.toNat_toUInt8, hval]; omega

theorem bytes_str {bs : List UInt8} (h : ∀ b ∈ bs, b.toNat < 128) : bytes (str bs) = bs := by
  rw [bytes, str, String.toByteArray_ofList, List.utf8Encode]
  induction bs with
  | nil => rfl
  | cons b bs ih =>
    have ih := ih fun b hb => h b (List.mem_cons_of_mem _ hb)
    rw [List.map_cons, List.flatMap_cons, utf8EncodeChar_ofNat (h b List.mem_cons_self)]
    simpa using ih

theorem str_inj {as bs : List UInt8} (ha : ∀ b ∈ as, b.toNat < 128) (hb : ∀ b ∈ bs, b.toNat < 128)
    (h : str as = str bs) : as = bs := by
  rw [← bytes_str ha, h, bytes_str hb]

theorem str_bytes {s : String} {bs : List UInt8} (h : ∀ b ∈ bs, b.toNat < 128) (hs : bytes s = bs) :
    s = str bs := by
  apply String.toByteArray_inj.1
  apply ByteArray.ext
  apply Array.toList_inj.1
  exact hs.trans (bytes_str h).symm

theorem utf8?_bytes (s : String) : utf8? (bytes s) = some s := by
  have hb : (⟨(bytes s).toArray⟩ : ByteArray) = s.toByteArray := by
    apply ByteArray.ext
    rw [bytes, Array.toArray_toList]
  rw [utf8?, hb]
  simp [String.fromUTF8?, s.isValidUTF8, String.fromUTF8]

theorem utf8?_eq {bs : List UInt8} (h : ∀ b ∈ bs, b.toNat < 128) : utf8? bs = some (str bs) := by
  rw [← utf8?_bytes, bytes_str h]

theorem utf8ByteSize_of_ascii {cs : List Char} (h : ∀ c ∈ cs, c.val ≤ 127) :
    (String.ofList cs).utf8ByteSize = cs.length := by
  induction cs with
  | nil => rfl
  | cons c cs ih =>
    have hc : c.utf8Size = 1 := Char.utf8Size_eq_one_iff.2 (h c List.mem_cons_self)
    have ih := ih fun d hd => h d (List.mem_cons_of_mem _ hd)
    rw [← List.singleton_append, String.ofList_append, String.utf8ByteSize_append, ih,
      ← String.singleton_eq_ofList, String.utf8ByteSize_singleton, hc, List.length_append]
    rfl

/-- Every byte index of an ASCII string is a character boundary. -/
theorem isValid_of_ascii {s : String} (h : ∀ c ∈ s.toList, c.val ≤ 127) {n : Nat}
    (hn : n ≤ s.utf8ByteSize) : (⟨n⟩ : String.Pos.Raw).IsValid s := by
  rw [String.Pos.Raw.isValid_iff_exists_take_toList]
  have hsize : s.utf8ByteSize = s.toList.length := by
    rw [← utf8ByteSize_of_ascii h, String.ofList_toList]
  refine ⟨n, ?_⟩
  rw [utf8ByteSize_of_ascii fun c hc => h c (List.mem_of_mem_take hc), List.length_take]
  show n = _
  omega

theorem isValid_str {bs : List UInt8} (h : ∀ b ∈ bs, b.toNat < 128) {n : Nat}
    (hn : n ≤ (str bs).utf8ByteSize) : (⟨n⟩ : String.Pos.Raw).IsValid (str bs) := by
  refine isValid_of_ascii (fun c hc => ?_) hn
  rw [str, String.toList_ofList] at hc
  obtain ⟨b, hb, rfl⟩ := List.mem_map.1 hc
  exact val_le (h b hb)

theorem extract_go_ascii {cs : List Char} (h : ∀ c ∈ cs, c.val ≤ 127) (i n : Nat) :
    String.Pos.Raw.extract.go₂ cs ⟨i⟩ ⟨i + n⟩ = cs.take n := by
  induction cs generalizing i n with
  | nil => rw [String.Pos.Raw.extract.go₂, List.take_nil]
  | cons c cs ih =>
    have hc : c.utf8Size = 1 := Char.utf8Size_eq_one_iff.2 (h c List.mem_cons_self)
    have hnext : (⟨i⟩ : String.Pos.Raw) + c = ⟨i + 1⟩ := by
      rw [← hc]
      rfl
    rw [String.Pos.Raw.extract.go₂]
    cases n with
    | zero => exact if_pos rfl
    | succ n =>
      have hne : (⟨i⟩ : String.Pos.Raw) ≠ ⟨i + (n + 1)⟩ := by
        intro heq
        have hidx : i = i + (n + 1) := congrArg String.Pos.Raw.byteIdx heq
        omega
      have hsum : i + (n + 1) = i + 1 + n := by omega
      rw [if_neg hne, hnext, hsum, ih fun d hd => h d (List.mem_cons_of_mem _ hd)]
      rfl

/-- The first `n` bytes of an ASCII string are its first `n` characters. -/
theorem extract_ascii {s : String} (h : ∀ c ∈ s.toList, c.val ≤ 127) (n : Nat) :
    String.Pos.Raw.extract s 0 ⟨n⟩ = String.ofList (s.toList.take n) := by
  have hgo := extract_go_ascii h 0 n
  rw [Nat.zero_add] at hgo
  unfold String.Pos.Raw.extract
  cases n with
  | zero => rfl
  | succ n =>
    show (if (0 : Nat) ≥ n + 1 then _ else _) = _
    rw [if_neg (Nat.not_succ_le_zero n)]
    cases hs : s.toList with
    | nil => rfl
    | cons c cs =>
      rw [hs] at hgo
      rw [String.Pos.Raw.extract.go₁, if_pos rfl]
      exact congrArg _ hgo

end Ascii
