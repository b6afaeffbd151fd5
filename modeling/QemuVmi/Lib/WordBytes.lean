import Mathlib

/-!
# Words of several bytes

The little-endian word of any number of bytes in a byte array, and the test for a
zero byte that works on all bytes of a word at once: `(x - 0x01..01) & ~x & 0x80..80`.

Results:
1. `word_eq_iff`: two words are equal when their bytes are.
2. `word_xor`: the exclusive or of two words, byte by byte.
3. `zeroByteTest_ne_zero_iff`: the test finds a zero byte exactly when there is one.
-/

namespace WordBytes

open BitVec Nat

/-- The word of the `n` bytes at `i`, the least significant first. -/
def word (buf : Nat → BitVec 8) (i : Nat) : (n : Nat) → BitVec (8 * n)
  | 0 => 0#0
  | n + 1 => word buf (i + 1) n ++ buf i

/-- The word with the byte `0x01` at each place. -/
def ones : (n : Nat) → BitVec (8 * n)
  | 0 => 0#0
  | n + 1 => ones n ++ 1#8

def zeroByteTest {w : Nat} (x ones : BitVec w) : BitVec w := (x - ones) &&& ~~~ x &&& (ones <<< 7)

variable {i n : Nat}

lemma append_inj {m : Nat} {a c : BitVec m} {b d : BitVec n} :
    a ++ b = c ++ d ↔ a = c ∧ b = d := by
  constructor
  · intro h
    have hhigh : (a ++ b).extractLsb' n m = (c ++ d).extractLsb' n m := by rw [h]
    have hlow : (a ++ b).extractLsb' 0 n = (c ++ d).extractLsb' 0 n := by rw [h]
    rw [extractLsb'_append_eq_left, extractLsb'_append_eq_left] at hhigh
    rw [extractLsb'_append_eq_right, extractLsb'_append_eq_right] at hlow
    exact ⟨hhigh, hlow⟩
  · rintro ⟨rfl, rfl⟩
    rfl

lemma word_eq_iff {a b : Nat → BitVec 8} {j : Nat} :
    word a i n = word b j n ↔ ∀ k, k < n → a (i + k) = b (j + k) := by
  induction n generalizing i j with
  | zero => simp [word]
  | succ n ih =>
    rw [word, word, append_inj, ih]
    constructor
    · rintro ⟨hrest, hfirst⟩ k hk
      cases k with
      | zero => exact hfirst
      | succ k =>
        have := hrest k (lt_of_succ_lt_succ hk)
        rwa [add_right_comm, add_right_comm j] at this
    · intro h
      refine ⟨fun k hk => ?_, h 0 (succ_pos n)⟩
      rw [add_right_comm, add_right_comm j]
      exact h (k + 1) (succ_lt_succ hk)

lemma word_xor (a b : Nat → BitVec 8) (i n : Nat) :
    word a i n ^^^ word b i n = word (fun k => a k ^^^ b k) i n := by
  induction n generalizing i with
  | zero => exact eq_of_zero_length rfl
  | succ n ih =>
    rw [word, word, word, ← ih]
    exact xor_append

lemma toNat_append_byte (x : BitVec n) (b : BitVec 8) :
    (x ++ b).toNat = 256 * x.toNat + b.toNat := by
  rw [toNat_append, ← Nat.shiftLeft_add_eq_or_of_lt b.isLt, Nat.shiftLeft_eq, mul_comm]

lemma append_sub_append_one (x y : BitVec n) {b : BitVec 8} (hb : b ≠ 0#8) :
    (x ++ b) - (y ++ 1#8) = (x - y) ++ (b - 1#8) := by
  have hpos : 1 ≤ b.toNat := Nat.one_le_iff_ne_zero.mpr fun h => hb (eq_of_toNat_eq h)
  have hlow : (b - 1#8).toNat = b.toNat - 1 := toNat_sub_of_le hpos
  have hx := x.isLt
  have hy := y.isLt
  apply eq_of_toNat_eq
  rw [toNat_sub, toNat_append_byte, toNat_append_byte, toNat_append_byte, hlow,
    toNat_sub, pow_add, show (1#8).toNat = 1 from rfl, show 2 ^ 8 = 256 from rfl]
  generalize 2 ^ n = p at *
  by_cases hle : y.toNat ≤ x.toNat
  · have hhigh : (p - y.toNat + x.toNat) % p = x.toNat - y.toNat := by
      rw [show p - y.toNat + x.toNat = x.toNat - y.toNat + p by omega, add_mod_right,
        mod_eq_of_lt (by omega)]
    rw [hhigh, show p * 256 - (256 * y.toNat + 1) + (256 * x.toNat + b.toNat) =
      256 * (x.toNat - y.toNat) + (b.toNat - 1) + p * 256 by omega, add_mod_right,
      mod_eq_of_lt (by omega)]
  · rw [Nat.mod_eq_of_lt (by omega), Nat.mod_eq_of_lt (by omega)]
    omega

lemma ones_shiftLeft (n : Nat) : ones (n + 1) <<< 7 = (ones n <<< 7) ++ 0x80#8 := by
  refine eq_of_getLsbD_eq fun i hi => ?_
  have hone : ∀ j, (1#8).getLsbD j = decide (j = 0) := by
    intro j
    cases j with
    | zero => rfl
    | succ j => simp [getLsbD_one]
  have htop : ∀ j, j < 8 → (0x80#8).getLsbD j = decide (j = 7) := by decide
  rw [getLsbD_shiftLeft, ones, getLsbD_append, getLsbD_append,
    getLsbD_shiftLeft, decide_eq_true hi, Bool.true_and, hone]
  by_cases hlow : i < 8
  · rw [if_pos (by omega), if_pos hlow, htop i hlow]
    by_cases h7 : i = 7
    · subst h7
      rfl
    · rw [decide_eq_true (by omega : i < 7), decide_eq_false h7, Bool.not_true, Bool.false_and]
  rw [if_neg hlow, decide_eq_false (by omega : ¬ i < 7), decide_eq_true (by omega : i - 8 < 8 * n)]
  by_cases hcarry : i < 15
  · rw [if_pos (by omega), decide_eq_false (by omega : ¬ i - 7 = 0),
      decide_eq_true (by omega : i - 8 < 7)]
    rfl
  · rw [if_neg (by omega), decide_eq_false (by omega : ¬ i - 8 < 7),
      show i - 7 - 8 = i - 8 - 7 by omega]
    rfl

lemma zeroByteTest_byte {b : BitVec 8} (hb : b ≠ 0#8) : (b - 1#8) &&& ~~~ b &&& 0x80#8 = 0#8 := by
  revert b
  decide

lemma getLsbD_sub_ones (x : BitVec (8 * n)) : (x ++ 0#8 - ones (n + 1)).getLsbD 7 = true := by
  have hmod : (x ++ 0#8 - ones (n + 1)).toNat % 256 = 255 := by
    have hlt := (ones (n + 1)).isLt
    have hones : (ones (n + 1)).toNat = 256 * (ones n).toNat + 1 := toNat_append_byte _ _
    rw [toNat_sub, toNat_append_byte, hones, show (0#8).toNat = 0 from rfl]
    rw [hones] at hlt
    rw [show 8 * (n + 1) = 8 * n + 8 from rfl, pow_add, show 2 ^ 8 = 256 from rfl] at *
    generalize 2 ^ (8 * n) = p at *
    rw [mod_mul_left_mod]
    omega
  rw [getLsbD, testBit_eq_decide_div_mod_eq]
  generalize (x ++ 0#8 - ones (n + 1)).toNat = y at *
  rw [decide_eq_true_iff]
  omega

lemma zeroByteTest_ne_zero_iff {buf : Nat → BitVec 8} :
    zeroByteTest (word buf i n) (ones n) ≠ 0#(8 * n) ↔ ∃ k, k < n ∧ buf (i + k) = 0#8 := by
  induction n generalizing i with
  | zero => simp [zeroByteTest, word, ones]
  | succ n ih =>
    by_cases hzero : buf i = 0#8
    · refine iff_of_true ?_ ⟨0, Nat.succ_pos n, hzero⟩
      intro htest
      have hbit : (zeroByteTest (word buf i (n + 1)) (ones (n + 1))).getLsbD 7 = false := by
        rw [htest, getLsbD_zero]
      rw [zeroByteTest, ones_shiftLeft, word, hzero, getLsbD_and, getLsbD_and,
        getLsbD_sub_ones, not_append, getLsbD_append, getLsbD_append] at hbit
      cases hbit
    · have hsplit : zeroByteTest (word buf i (n + 1)) (ones (n + 1)) =
          zeroByteTest (word buf (i + 1) n) (ones n) ++ 0#8 := by
        rw [zeroByteTest, ones_shiftLeft, ones, word, append_sub_append_one _ _ hzero,
          not_append, ← zeroByteTest_byte hzero]
        exact (congrArg (· &&& _) and_append).trans and_append
      have hne : zeroByteTest (word buf i (n + 1)) (ones (n + 1)) ≠ 0#(8 * (n + 1)) ↔
          zeroByteTest (word buf (i + 1) n) (ones n) ≠ 0#(8 * n) := by
        rw [hsplit, not_iff_not, show 0#(8 * (n + 1)) = 0#(8 * n) ++ 0#8 from
          zero_append_zero.symm, append_inj, and_iff_left rfl]
      rw [hne, ih]
      constructor
      · rintro ⟨k, hk, h⟩
        exact ⟨k + 1, Nat.succ_lt_succ hk, by rwa [add_right_comm] at h⟩
      rintro ⟨k, hk, h⟩
      cases k with
      | zero => exact absurd h hzero
      | succ k => exact ⟨k, Nat.lt_of_succ_lt_succ hk, by rwa [add_right_comm]⟩

end WordBytes
