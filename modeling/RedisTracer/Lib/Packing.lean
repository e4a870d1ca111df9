import Mathlib

/-!
# Fields packed into a word

Two fields in one 64-bit word, the low one `k` bits wide: as a number, and taken apart again.
-/

namespace Packing

variable {hi lo k : UInt64}

theorem toNat_pack (hk : k.toNat < 64) (hlo : lo.toNat < 2 ^ k.toNat)
    (hhi : hi.toNat * 2 ^ k.toNat < 2 ^ 64) :
    (hi <<< k ||| lo).toNat = hi.toNat * 2 ^ k.toNat + lo.toNat := by
  have hshift : (hi <<< k).toNat = hi.toNat <<< k.toNat := by
    rw [UInt64.toNat_shiftLeft, Nat.mod_eq_of_lt hk, Nat.shiftLeft_eq]
    exact Nat.mod_eq_of_lt hhi
  rw [UInt64.toNat_or, hshift, ← Nat.shiftLeft_add_eq_or_of_lt hlo, Nat.shiftLeft_eq]

theorem toNat_high (hk : k.toNat < 64) (hlo : lo.toNat < 2 ^ k.toNat)
    (hhi : hi.toNat * 2 ^ k.toNat < 2 ^ 64) : ((hi <<< k ||| lo) >>> k).toNat = hi.toNat := by
  rw [UInt64.toNat_shiftRight, toNat_pack hk hlo hhi, Nat.mod_eq_of_lt hk, Nat.shiftRight_eq_div_pow,
    Nat.mul_comm, Nat.mul_add_div (Nat.two_pow_pos _), Nat.div_eq_of_lt hlo, Nat.add_zero]

theorem toNat_low (hk : k.toNat < 64) (hlo : lo.toNat < 2 ^ k.toNat)
    (hhi : hi.toNat * 2 ^ k.toNat < 2 ^ 64) {mask : UInt64} (hmask : mask.toNat = 2 ^ k.toNat - 1) :
    ((hi <<< k ||| lo) &&& mask).toNat = lo.toNat := by
  rw [UInt64.toNat_and, toNat_pack hk hlo hhi, hmask, Nat.and_two_pow_sub_one_eq_mod,
    Nat.mul_add_mod_of_lt hlo]

end Packing
