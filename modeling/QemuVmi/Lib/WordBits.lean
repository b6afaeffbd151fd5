import Mathlib

/-!
# Bits of a machine word

Facts about masks on 64-bit words, stated over the numbers that the words stand
for. A low mask `2^n - 1` takes the remainder by `2^n`; a word is split by it
into a part below `2^n` and a part that is a multiple of `2^n`.
-/

namespace WordBits

open BitVec Nat

/-- The mask of the `n` lowest bits. -/
def lowMask (n : Nat) : BitVec 64 := BitVec.ofNat 64 (2 ^ n - 1)

variable {n : Nat} {x y : BitVec 64}

lemma toNat_and_lowMask (x : BitVec 64) (hn : n ≤ 64) :
    (x &&& lowMask n).toNat = x.toNat % 2 ^ n := by
  have hfits : 2 ^ n - 1 < 2 ^ 64 := by
    have hle : 2 ^ n ≤ 2 ^ 64 := Nat.pow_le_pow_right (by omega) hn
    have hpos : 0 < 2 ^ n := n.two_pow_pos
    omega
  rw [lowMask, toNat_and, toNat_ofNat, mod_eq_of_lt hfits, and_two_pow_sub_one_eq_mod]

lemma and_lowMask_of_lt (hn : n ≤ 64) (hx : x.toNat < 2 ^ n) : x &&& lowMask n = x := by
  apply eq_of_toNat_eq
  rw [toNat_and_lowMask x hn, mod_eq_of_lt hx]

lemma and_lowMask_eq_zero_iff (hn : n ≤ 64) : x &&& lowMask n = 0#64 ↔ x.toNat % 2 ^ n = 0 := by
  rw [← toNat_and_lowMask x hn]
  constructor
  · intro hx
    rw [hx]
    rfl
  · intro hx
    exact eq_of_toNat_eq hx

lemma toNat_add_lt_of_aligned {k : Nat} (hnk : n ≤ k) (hk : k ≤ 64) (hx : x &&& lowMask n = 0#64)
    (hxk : x.toNat < 2 ^ k) (hy : y.toNat < 2 ^ n) : (x + y).toNat < 2 ^ k := by
  have haligned := (and_lowMask_eq_zero_iff (hnk.trans hk)).mp hx
  obtain ⟨d, rfl⟩ := Nat.exists_eq_add_of_le hnk
  have hpow := pow_add 2 n d
  have hquot : x.toNat / 2 ^ n < 2 ^ d := by
    rwa [div_lt_iff_lt_mul n.two_pow_pos, mul_comm, ← hpow]
  have hsplit : x.toNat = 2 ^ n * (x.toNat / 2 ^ n) := by
    have := div_add_mod x.toNat (2 ^ n)
    omega
  have hsum : x.toNat + y.toNat < 2 ^ (n + d) := by
    calc
      x.toNat + y.toNat < 2 ^ n * (x.toNat / 2 ^ n) + 2 ^ n := by omega
      _ = 2 ^ n * (x.toNat / 2 ^ n + 1) := by rw [Nat.mul_add, Nat.mul_one]
      _ ≤ 2 ^ n * 2 ^ d := mul_le_mul_left _ hquot
      _ = 2 ^ (n + d) := hpow.symm
  rw [toNat_add]
  exact lt_of_le_of_lt (Nat.mod_le _ _) hsum

lemma shiftRight_shiftLeft_of_aligned (hn : n ≤ 64) (hx : x &&& lowMask n = 0#64) :
    (x >>> n) <<< n = x := by
  have haligned := (and_lowMask_eq_zero_iff hn).mp hx
  apply eq_of_toNat_eq
  rw [toNat_shiftLeft, toNat_ushiftRight, Nat.shiftRight_eq_div_pow,
    Nat.shiftLeft_eq, Nat.div_mul_cancel (Nat.dvd_of_mod_eq_zero haligned),
    mod_eq_of_lt x.isLt]

lemma or_inj_of_low {z : BitVec 64} (hx : x &&& lowMask n = 0#64) (hz : z &&& lowMask n = z) :
    x ||| z = y + z ↔ x = y := by
  have hxz : x &&& z = 0#64 := by
    rw [← hz, BitVec.and_comm z, ← BitVec.and_assoc, hx, BitVec.zero_and]
  rw [← add_eq_or_of_and_eq_zero x z hxz]
  exact add_left_inj z

end WordBits
