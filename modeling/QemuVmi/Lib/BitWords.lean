import Mathlib

/-!
# Arrays of words as sets of bits

An array of 64-bit words holds the bit `n` in its word `n / 64`, at `n % 64`. The
masks and the bit tricks that programs use on such arrays are described by the
bits they set, clear or find.

Results:
1. `getLsbD_rangeMask`, `getLsbD_lowMask`: the masks of a range and of the low bits.
2. `getLsbD_clearLowest`: `x & (x - 1)` clears the bit that `ctz` finds.
3. `ne_zero_iff`, `word_ne_zero_iff`: a word is nonzero when it has a bit.
4. `cpop_eq_count`: the population count of a word counts its bits.
-/

namespace BitWords

open BitVec Bool

abbrev Word := BitVec 64

/-- The bits `s` to `l`, as `(2 << l) - (1 << s)`. -/
def rangeMask (s l : Nat) : Word := (2#64 <<< l) - (1#64 <<< s)

variable {k : Nat} {x : Word}

lemma toNat_one_shiftLeft (hk : k < 64) : (1#64 <<< k).toNat = 2 ^ k := by
  rw [← twoPow_eq, toNat_twoPow_of_lt hk]

lemma toNat_rangeMask {s l : Nat} (hs : s ≤ l) (hl : l < 64) :
    (rangeMask s l).toNat = 2 ^ s * (2 ^ (l + 1 - s) - 1) := by
  have hpow : 2 ^ s * 2 ^ (l + 1 - s) = 2 ^ (l + 1) := by
    rw [← pow_add]
    congr 1
    omega
  have hle : 2 ^ s ≤ 2 ^ l := Nat.pow_le_pow_right (by decide) hs
  have hsucc : 2 ^ (l + 1) = 2 ^ l * 2 := pow_succ 2 l
  have htwo : (2#64 <<< l).toNat = 2 ^ (l + 1) % 2 ^ 64 := by
    rw [toNat_shiftLeft, Nat.shiftLeft_eq, pow_succ, mul_comm]
    rfl
  rw [rangeMask, toNat_sub, htwo, toNat_one_shiftLeft (by omega), Nat.mul_sub, mul_one, hpow]
  rcases (Nat.le_of_lt_succ hl).lt_or_eq with hlt | rfl
  · have hbound : 2 ^ (l + 1) ≤ 2 ^ 63 := Nat.pow_le_pow_right (by decide) hlt
    generalize 2 ^ s = a at *
    generalize 2 ^ (l + 1) = b at *
    omega
  · have hbound : 0 < 2 ^ s := s.two_pow_pos
    generalize 2 ^ s = a at *
    omega

lemma getLsbD_rangeMask {s l : Nat} (hs : s ≤ l) (hl : l < 64) (k : Nat) :
    (rangeMask s l).getLsbD k = decide (s ≤ k ∧ k ≤ l) := by
  rw [getLsbD, toNat_rangeMask hs hl, Nat.testBit_two_pow_mul, Nat.testBit_two_pow_sub_one,
    ← decide_and]
  exact decide_eq_decide.mpr (by omega)

/-- The bits below `k`, as `(1 << k) - 1`. -/
def lowMask (k : Nat) : Word := (1#64 <<< k) - 1#64

lemma getLsbD_lowMask (hk : k < 64) (i : Nat) : (lowMask k).getLsbD i = decide (i < k) := by
  have hpos : 0 < 2 ^ k := k.two_pow_pos
  have hlt : 2 ^ k < 2 ^ 64 := Nat.pow_lt_pow_right (by decide) hk
  have hnat : (lowMask k).toNat = 2 ^ k - 1 := by
    rw [lowMask, toNat_sub, toNat_one_shiftLeft hk, show (1#64).toNat = 1 from rfl]
    omega
  rw [getLsbD, hnat, Nat.testBit_two_pow_sub_one]

lemma ne_zero_iff : x ≠ 0#64 ↔ ∃ k, k < 64 ∧ x.getLsbD k = true := by
  constructor
  · intro hx
    exact ⟨x.ctz.toNat, lt_of_getLsbD (getLsbD_true_ctz_of_ne_zero hx),
      getLsbD_true_ctz_of_ne_zero hx⟩
  · rintro ⟨k, _, hk⟩ rfl
    simp at hk

lemma getLsbD_one_shiftLeft (hk : k < 64) (i : Nat) :
    (1#64 <<< k).getLsbD i = decide (i = k) := by
  rw [← twoPow_eq, getLsbD_twoPow, decide_eq_true hk, Bool.true_and]
  exact decide_eq_decide.mpr eq_comm

lemma and_one_shiftLeft_ne_zero (hk : k < 64) :
    x &&& (1#64 <<< k) ≠ 0#64 ↔ x.getLsbD k = true := by
  rw [ne_zero_iff]
  constructor
  · rintro ⟨i, _, hi⟩
    rw [getLsbD_and, getLsbD_one_shiftLeft hk, and_eq_true, decide_eq_true_iff] at hi
    exact hi.2 ▸ hi.1
  · intro hbit
    refine ⟨k, hk, ?_⟩
    rw [getLsbD_and, getLsbD_one_shiftLeft hk, hbit, decide_eq_true rfl, Bool.and_true]

lemma ctz_lt (hx : x ≠ 0#64) : x.ctz.toNat < 64 :=
  lt_of_getLsbD (getLsbD_true_ctz_of_ne_zero hx)

lemma ctz_le_of_getLsbD (hk : x.getLsbD k = true) : x.ctz.toNat ≤ k := by
  by_contra hlt
  rw [getLsbD_false_of_lt_ctz (not_le.mp hlt)] at hk
  cases hk

lemma eq_of_lowest_bit {n t : Nat} (hbit : n.testBit t = true)
    (hlow : ∀ k, k < t → n.testBit k = false) : n = 2 ^ (t + 1) * (n / 2 ^ (t + 1)) + 2 ^ t := by
  have hmod : n % 2 ^ (t + 1) = 2 ^ t := by
    apply Nat.eq_of_testBit_eq
    intro k
    rw [Nat.testBit_mod_two_pow, Nat.testBit_two_pow]
    rcases Nat.lt_trichotomy k t with hk | rfl | hk
    · simp [hlow k hk, hk.ne']
    · simp [hbit]
    · simp [Nat.not_lt_of_le (Nat.succ_le_of_lt hk), hk.ne]
  have hsplit := Nat.div_add_mod n (2 ^ (t + 1))
  rw [hmod] at hsplit
  exact hsplit.symm

/-- `x & (x - 1)`. -/
def clearLowest (x : Word) : Word := x &&& (x - 1#64)

lemma getLsbD_clearLowest (hx : x ≠ 0#64) (k : Nat) :
    (clearLowest x).getLsbD k = (x.getLsbD k && decide (k ≠ x.ctz.toNat)) := by
  have hsplit := eq_of_lowest_bit (getLsbD_true_ctz_of_ne_zero hx)
    fun k hk => getLsbD_false_of_lt_ctz hk
  generalize x.ctz.toNat = t at hsplit ⊢
  have hpow : 2 ^ (t + 1) = 2 ^ t * 2 := pow_succ 2 t
  have hpos : 0 < 2 ^ t := t.two_pow_pos
  have hpred : (x - 1#64).toNat = 2 ^ (t + 1) * (x.toNat / 2 ^ (t + 1)) + (2 ^ t - 1) := by
    rw [toNat_sub, show (1#64).toNat = 1 from rfl]
    omega
  rw [clearLowest, getLsbD_and, getLsbD, getLsbD, hpred,
    Nat.testBit_two_pow_mul_add _ (by omega), Nat.testBit_two_pow_sub_one]
  rcases lt_or_ge k (t + 1) with hk | hk
  · rw [if_pos hk, hsplit, Nat.testBit_two_pow_mul_add _ (by omega), if_pos hk, Nat.testBit_two_pow]
    rcases (Nat.le_of_lt_succ hk).lt_or_eq with hlt | rfl
    · simp [hlt.ne']
    · simp
  · rw [if_neg (Nat.not_lt_of_le hk), Nat.testBit_div_two_pow, Nat.sub_add_cancel hk, Bool.and_self]
    simp [show k ≠ t by omega]

lemma or_sixtyThree (n : Nat) : n ||| 63 = 64 * (n / 64) + 63 := by
  show n ||| (2 ^ 6 - 1) = 2 ^ 6 * (n / 2 ^ 6) + (2 ^ 6 - 1)
  apply Nat.eq_of_testBit_eq
  intro i
  rw [Nat.testBit_two_pow_mul_add _ (by decide), Nat.testBit_or, Nat.testBit_two_pow_sub_one]
  split
  · next hi => rw [decide_eq_true hi, Bool.or_true]
  · next hi =>
    rw [decide_eq_false hi, Bool.or_false, Nat.testBit_div_two_pow,
      Nat.sub_add_cancel (not_lt.mp hi)]

/-- The bit `n` of an array. -/
def bit (a : Nat → Word) (n : Nat) : Bool := (a (n / 64)).getLsbD (n % 64)

lemma bit_mul_add (a : Nat → Word) (i : Nat) (hk : k < 64) :
    bit a (64 * i + k) = (a i).getLsbD k := by
  have hdiv : (64 * i + k) / 64 = i := by omega
  have hmod : (64 * i + k) % 64 = k := by omega
  rw [bit, hdiv, hmod]

lemma word_ne_zero_iff {a : Nat → Word} {i : Nat} :
    a i ≠ 0#64 ↔ ∃ k, k < 64 ∧ bit a (64 * i + k) = true := by
  rw [ne_zero_iff]
  refine exists_congr fun k => and_congr_right fun hk => ?_
  rw [bit_mul_add a i hk]

section
variable {p q : Nat → Prop} [DecidablePred p] [DecidablePred q] {n a b : Nat}

lemma count_congr (h : ∀ k, k < n → (p k ↔ q k)) : Nat.count p n = Nat.count q n :=
  le_antisymm (Nat.count_mono_left fun k hk => (h k hk).mp)
    (Nat.count_mono_left fun k hk => (h k hk).mpr)

lemma count_stop (ha : a ≤ n) (h : ∀ k, a ≤ k → k < n → ¬ p k) : Nat.count p n = Nat.count p a := by
  obtain ⟨d, rfl⟩ := Nat.exists_eq_add_of_le ha
  rw [Nat.count_add, Nat.count_iff_forall_not.mpr fun k hk => h _ (Nat.le_add_right a k) (by omega),
    add_zero]

lemma count_and_add_count_and_not (n : Nat) :
    Nat.count (fun k => p k ∧ q k) n + Nat.count (fun k => p k ∧ ¬ q k) n = Nat.count p n := by
  induction n with
  | zero => rfl
  | succ n ih =>
    simp only [Nat.count_succ]
    by_cases hp : p n <;> by_cases hq : q n <;> simp only [hp, hq] <;> simp <;> omega

lemma count_interval (hab : a ≤ b) (hb : b ≤ n) :
    Nat.count (fun k => a ≤ k ∧ k < b) n = b - a := by
  rw [count_stop hb fun k hk _ h => by omega]
  obtain ⟨d, rfl⟩ := Nat.exists_eq_add_of_le hab
  rw [Nat.count_add, Nat.count_iff_forall_not.mpr fun k hk h => by omega,
    Nat.count_iff_forall.mpr fun k hk => by omega]
  omega
end

lemma cpop_eq_count (x : Word) : x.cpop.toNat = Nat.count (fun k => x.getLsbD k = true) 64 := by
  rw [toNat_cpop]
  suffices ∀ n, x.cpopNatRec n 0 = Nat.count (fun k => x.getLsbD k = true) n from this 64
  intro n
  induction n with
  | zero => rfl
  | succ n ih =>
    rw [cpopNatRec_succ, cpopNatRec_add, ih, Nat.count_succ]
    cases x.getLsbD n <;> rfl

end BitWords
