import RedisTracer.Lib.Ascii

/-!
# Encoded text

The bytes of a text, and that a byte below 128 in them is a whole character: cut at such a byte, an
encoded text falls into encoded texts.
-/

namespace Utf8

open Ascii

variable {cs ds : List Char} {xs ys bs : List UInt8} {a : UInt8}

def encode (cs : List Char) : List UInt8 := cs.flatMap String.utf8EncodeChar

@[simp] theorem encode_nil : encode [] = [] := rfl

theorem encode_cons (c : Char) (cs : List Char) : encode (c :: cs) = String.utf8EncodeChar c ++ encode cs :=
  List.flatMap_cons

@[simp] theorem encode_append (cs ds : List Char) : encode (cs ++ ds) = encode cs ++ encode ds :=
  List.flatMap_append

theorem bytes_ofList (cs : List Char) : bytes (String.ofList cs) = encode cs := by
  rw [bytes, String.toByteArray_ofList, List.utf8Encode, encode]
  simp

theorem encode_injective : Function.Injective encode := by
  intro cs ds h
  rw [← bytes_ofList, ← bytes_ofList] at h
  have hbytes : (String.ofList cs).toByteArray = (String.ofList ds).toByteArray :=
    ByteArray.ext (Array.toList_inj.1 h)
  exact String.ofList_injective (String.toByteArray_inj.1 hbytes)

theorem utf8?_eq_some_iff {s : String} : utf8? bs = some s ↔ encode s.toList = bs := by
  rw [← bytes_ofList, String.ofList_toList]
  constructor
  · intro h
    unfold utf8? String.fromUTF8? at h
    split at h
    · cases h
      rfl
    · cases h
  · rintro rfl
    exact utf8?_bytes s

theorem mem_encode {c : Char} (hc : c ∈ cs) : ∀ b ∈ String.utf8EncodeChar c, b ∈ encode cs :=
  fun _ hb => List.mem_flatMap.2 ⟨c, hc, hb⟩

/-! ### Bytes below 128 -/

/-- A character is one byte below 128 or several bytes from 128. -/
theorem utf8EncodeChar_cases (c : Char) :
    (∃ b : UInt8, String.utf8EncodeChar c = [b]) ∨ ∀ b ∈ String.utf8EncodeChar c, 128 ≤ b.toNat := by
  have hbyte : ∀ n, 128 ≤ n → n < 256 → 128 ≤ (UInt8.ofNat n).toNat := by
    intro n hle hlt
    rwa [UInt8.toNat_ofNat_of_lt' hlt]
  fun_cases String.utf8EncodeChar c with
  | case1 => exact .inl ⟨_, rfl⟩
  | case2 =>
    refine .inr fun b hb => ?_
    simp only [List.mem_cons, List.not_mem_nil, or_false] at hb
    rcases hb with rfl | rfl <;> exact hbyte _ (by omega) (by omega)
  | case3 =>
    refine .inr fun b hb => ?_
    simp only [List.mem_cons, List.not_mem_nil, or_false] at hb
    rcases hb with rfl | rfl | rfl <;> exact hbyte _ (by omega) (by omega)
  | case4 =>
    refine .inr fun b hb => ?_
    simp only [List.mem_cons, List.not_mem_nil, or_false] at hb
    rcases hb with rfl | rfl | rfl | rfl <;> exact hbyte _ (by omega) (by omega)

/-- Cut at a byte below 128. -/
theorem encode_split (h : encode cs = xs ++ a :: ys) (ha : a.toNat < 128) :
    ∃ cs₁ c cs₂, cs = cs₁ ++ c :: cs₂ ∧ encode cs₁ = xs ∧ encode [c] = [a] ∧ encode cs₂ = ys := by
  induction cs generalizing xs with
  | nil => simp at h
  | cons c cs ih =>
    have hinside : ∀ t, String.utf8EncodeChar c = xs ++ a :: t → xs = [] ∧ t = [] := by
      intro t hc
      rcases utf8EncodeChar_cases c with ⟨b, hb⟩ | hge
      · rw [hb] at hc
        cases xs with
        | nil => exact ⟨rfl, (List.cons.inj hc).2.symm⟩
        | cons x xs => exact absurd (List.cons.inj hc).2.symm (by simp)
      · exact absurd (hge a (by simp [hc])) (Nat.not_le_of_lt ha)
    have hlater : ∀ xs', encode cs = xs' ++ a :: ys → xs = String.utf8EncodeChar c ++ xs' →
        ∃ cs₁ d cs₂, c :: cs = cs₁ ++ d :: cs₂ ∧ encode cs₁ = xs ∧ encode [d] = [a] ∧ encode cs₂ = ys := by
      intro xs' hcs hxs
      obtain ⟨cs₁, d, cs₂, rfl, h₁, hd, h₂⟩ := ih hcs
      exact ⟨c :: cs₁, d, cs₂, rfl, by rw [encode_cons, h₁, hxs], hd, h₂⟩
    rw [encode_cons] at h
    rcases List.append_eq_append_iff.1 h with ⟨xs', hxs, hcs⟩ | ⟨t, hc, hys⟩
    · exact hlater xs' hcs hxs
    · cases t with
      | nil => exact hlater [] hys.symm (by simpa using hc.symm)
      | cons b t =>
        obtain ⟨rfl, rfl⟩ := List.cons.inj hys
        obtain ⟨rfl, rfl⟩ := hinside t hc
        exact ⟨[], c, cs, rfl, rfl, by simpa [encode] using hc, rfl⟩

/-! ### Byte offsets -/

def byteLen (cs : List Char) : Nat := (cs.map Char.utf8Size).sum

@[simp] theorem byteLen_nil : byteLen [] = 0 := rfl

@[simp] theorem byteLen_cons (c : Char) (cs : List Char) : byteLen (c :: cs) = c.utf8Size + byteLen cs := rfl

theorem length_le_byteLen (cs : List Char) : cs.length ≤ byteLen cs := by
  induction cs with
  | nil => exact Nat.le_refl _
  | cons c cs ih =>
    have hpos := c.utf8Size_pos
    rw [List.length_cons, byteLen_cons]
    omega

/-- `str::find` of a character: the byte offset of the first one. -/
def findByte (c : Char) (cs : List Char) : Option Nat :=
  (cs.findIdx? (· = c)).map fun i => byteLen (cs.take i)

/-- `&s[n..]`, which panics off a character boundary and beyond the end. -/
def dropBytes : List Char → Nat → Option (List Char)
  | cs, 0 => some cs
  | [], _ + 1 => none
  | c :: cs, n + 1 => if c.utf8Size ≤ n + 1 then dropBytes cs (n + 1 - c.utf8Size) else none

theorem findByte_append {c : Char} (h : c ∉ cs) : findByte c (cs ++ c :: ds) = some (byteLen cs) := by
  have hidx : (cs ++ c :: ds).findIdx? (· = c) = some cs.length := by
    rw [List.findIdx?_append, List.findIdx?_eq_none_iff.2 fun d hd => ?_, List.findIdx?_cons]
    · simp
    · simp only [decide_eq_false_iff_not]
      rintro rfl
      exact h hd
  rw [findByte, hidx, Option.map_some, List.take_left]

theorem dropBytes_cons (c : Char) (cs : List Char) {n : Nat} (hn : 0 < n) : dropBytes (c :: cs) n =
    if c.utf8Size ≤ n then dropBytes cs (n - c.utf8Size) else none := by
  cases n with
  | zero => exact absurd hn (Nat.lt_irrefl 0)
  | succ n => rfl

theorem dropBytes_zero (cs : List Char) : dropBytes cs 0 = some cs := by
  cases cs <;> rfl

theorem dropBytes_append (n : Nat) : dropBytes (cs ++ ds) (byteLen cs + n) = dropBytes ds n := by
  induction cs with
  | nil => rw [byteLen_nil, Nat.zero_add, List.nil_append]
  | cons c cs ih =>
    have hpos := c.utf8Size_pos
    rw [List.cons_append, byteLen_cons, dropBytes_cons _ _ (by omega), if_pos (by omega), ← ih]
    congr 1
    omega

end Utf8
