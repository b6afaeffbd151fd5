import Mathlib

/-!
# Products and quotients of 128 bits

`mulu64`, `muls64`, `divu128` and `divs128` of `util/host-utils.c`, for hosts without a 128-bit
type. A product is made of four products of 32-bit halves, and for a negative operand the other one
is subtracted from its high word. The loop of `divu128` shifts a bit of the dividend into the
remainder and subtracts the divisor where it can; the bit that is shifted out of the remainder
stands for `2 ^ 64` in the comparison.

Results:
1. `division_exact_iff`: the inputs for which the two functions are right. `divu128` takes a high
   word that equals the divisor, and `divs128` refuses a quotient of zero where the signs differ.
2. `multiplication_exact`: the products are right.
3. `divu128_mulu64`: a product divided by one of its factors is the other.
-/

namespace QemuVmi.Util.HostUtils

open BitVec

structure Result where
  overflow : Nat
  low : BitVec 64
  high : BitVec 64
deriving DecidableEq, Repr

/-- One round of the loop of `divu128`, on `dhi` and `dlo`. -/
def divuRound (divisor : BitVec 64) (d : BitVec 64 × BitVec 64) : BitVec 64 × BitVec 64 :=
  let carry := d.1 >>> 63
  let dhi := (d.1 <<< 1) ||| (d.2 >>> 63)
  if carry ≠ 0 ∨ dhi ≥ divisor then (dhi - divisor, (d.2 <<< 1) ||| 1)
  else (dhi, (d.2 <<< 1) ||| 0)

def divu128 (plow phigh divisor : BitVec 64) : Result :=
  if divisor = 0 then ⟨1, plow, phigh⟩
  else if phigh = 0 then ⟨0, plow / divisor, plow % divisor⟩
  else if phigh > divisor then ⟨1, plow, phigh⟩
  else
    let d := (divuRound divisor)^[64] (phigh, plow)
    ⟨0, d.2, d.1⟩

def absWords (plow phigh : BitVec 64) : BitVec 64 × BitVec 64 :=
  if phigh.msb then
    let plow := ~~~plow
    let phigh := ~~~phigh
    if plow = -1 then (0, phigh + 1) else (plow + 1, phigh)
  else (plow, phigh)

/-- The end of `divs128`: the sign of the quotient, and the check for it. -/
def withSign (sign : Bool) (r : Result) : Result :=
  let low := if sign then 0 - r.low else r.low
  ⟨if r.overflow = 0 ∧ (low.msb ^^ sign) then 1 else r.overflow, low, r.high⟩

/-- `divs128`. The words are those of `int64_t`, and `msb` is the test for a negative number. -/
def divs128 (plow phigh divisor : BitVec 64) : Result :=
  let sgnDvdnd := phigh.msb
  let sgnDivsr := divisor.msb
  let words := absWords plow phigh
  let divisor := if sgnDivsr then 0 - divisor else divisor
  withSign (sgnDvdnd ^^ sgnDivsr) (divu128 words.1 words.2 divisor)

section
variable {lo hi divisor : BitVec 64}

lemma toNat_words {m n : Nat} (hi : BitVec m) (lo : BitVec n) :
    (hi ++ lo).toNat = hi.toNat * 2 ^ n + lo.toNat := by
  rw [toNat_append, ← Nat.shiftLeft_add_eq_or_of_lt lo.isLt, Nat.shiftLeft_eq]

lemma toNat_shiftIn (x : BitVec 64) {c : BitVec 64} (hc : c.toNat < 2) :
    ((x <<< 1) ||| c).toNat = 2 * x.toNat % 2 ^ 64 + c.toNat := by
  have hmod : 2 * x.toNat % 2 ^ 64 = 2 ^ 1 * (x.toNat % 2 ^ 63) := by omega
  rw [toNat_or, toNat_shiftLeft, Nat.shiftLeft_eq, mul_comm, pow_one, hmod,
    Nat.two_pow_add_eq_or_of_lt (by omega)]

/-- A round on numbers: the bit of the quotient, and the remainder unless it gets too large. -/
lemma divuRound_spec (divisor : BitVec 64) (d : BitVec 64 × BitVec 64) :
    ∃ bit, (divuRound divisor d).2.toNat = 2 * d.2.toNat % 2 ^ 64 + bit ∧
      (divisor.toNat ≤ 2 * d.1.toNat + d.2.toNat / 2 ^ 63 ∧ bit = 1 ∨
        2 * d.1.toNat + d.2.toNat / 2 ^ 63 < divisor.toNat ∧ bit = 0) ∧
      (2 * d.1.toNat + d.2.toNat / 2 ^ 63 < 2 ^ 64 + divisor.toNat →
        (divuRound divisor d).1.toNat + bit * divisor.toNat =
          2 * d.1.toNat + d.2.toNat / 2 ^ 63) := by
  obtain ⟨hi, lo⟩ := d
  have hhi := hi.isLt
  have hlo := lo.isLt
  have hd := divisor.isLt
  have hbit : (lo >>> 63).toNat = lo.toNat / 2 ^ 63 := by
    rw [toNat_ushiftRight, Nat.shiftRight_eq_div_pow]
  have hshift : ((hi <<< 1) ||| (lo >>> 63)).toNat = 2 * hi.toNat % 2 ^ 64 + lo.toNat / 2 ^ 63 := by
    rw [toNat_shiftIn hi (by omega), hbit]
  have hsub : (hi >>> 63 ≠ 0 ∨ (hi <<< 1) ||| (lo >>> 63) ≥ divisor) ↔
      divisor.toNat ≤ 2 * hi.toNat + lo.toNat / 2 ^ 63 := by
    rw [ne_eq, ← toNat_inj, toNat_ushiftRight, Nat.shiftRight_eq_div_pow, ge_iff_le, le_def, hshift]
    change ¬ hi.toNat / 2 ^ 63 = 0 ∨ _ ↔ _
    omega
  unfold divuRound
  dsimp only
  by_cases hle : divisor.toNat ≤ 2 * hi.toNat + lo.toNat / 2 ^ 63
  · rw [if_pos (hsub.mpr hle)]
    refine ⟨1, toNat_shiftIn lo (by decide), .inl ⟨hle, rfl⟩, fun hlt => ?_⟩
    rw [toNat_sub, hshift]
    omega
  rw [if_neg fun h => hle (hsub.mp h)]
  refine ⟨0, toNat_shiftIn lo (by decide), .inr ⟨by omega, rfl⟩, fun hlt => ?_⟩
  rw [hshift]
  omega

/-- After `n` rounds the pair of words is the dividend shifted to the left, less the multiple of the
divisor that has been subtracted, with its factor shifted in from below. -/
lemma iterate_divuRound (h : hi.toNat < divisor.toNat) (n : Nat) :
    ∃ quot < 2 ^ n, ((divuRound divisor)^[n] (hi, lo)).1.toNat < divisor.toNat ∧
      ((divuRound divisor)^[n] (hi, lo)).1.toNat * 2 ^ 64 +
          ((divuRound divisor)^[n] (hi, lo)).2.toNat + quot * (divisor.toNat * 2 ^ 64) =
        2 ^ n * (hi ++ lo).toNat + quot := by
  induction n with
  | zero => exact ⟨0, one_pos, h, by rw [toNat_words]; simp⟩
  | succ n ih =>
    obtain ⟨quot, hquot, hlt, heq⟩ := ih
    rw [Function.iterate_succ_apply']
    generalize (divuRound divisor)^[n] (hi, lo) = d at hlt heq
    obtain ⟨bit, hlow, hbit, hhigh⟩ := divuRound_spec divisor d
    have hrem := hhigh (by omega)
    have hpair : (divuRound divisor d).1.toNat * 2 ^ 64 + (divuRound divisor d).2.toNat +
        bit * (divisor.toNat * 2 ^ 64) = 2 * (d.1.toNat * 2 ^ 64 + d.2.toNat) + bit := by
      clear heq
      rw [← mul_assoc bit]
      omega
    rw [pow_succ' 2 n]
    refine ⟨2 * quot + bit, by omega, ?_, by linarith⟩
    obtain ⟨-, rfl⟩ | ⟨hlt, rfl⟩ := hbit <;> omega

/-- A high word that equals the divisor: every bit of the quotient is a one, and the remainder gets
too large in the last round at the earliest. -/
lemma iterate_divuRound_eq (hpos : 0 < divisor.toNat) (hle : divisor.toNat ≤ 2 ^ 63) (n : Nat)
    (hn : n ≤ 64) : 2 ^ n ∣ ((divuRound divisor)^[n] (divisor, lo)).2.toNat + 1 ∧
      (n < 64 → divisor.toNat ≤ ((divuRound divisor)^[n] (divisor, lo)).1.toNat ∧
        ((divuRound divisor)^[n] (divisor, lo)).1.toNat < divisor.toNat + 2 ^ n) := by
  induction n with
  | zero => exact ⟨one_dvd _, fun _ => ⟨le_refl _, Nat.lt_succ_self _⟩⟩
  | succ n ih =>
    obtain ⟨hdvd, hhi⟩ := ih (by omega)
    obtain ⟨hlower, hupper⟩ := hhi (by omega)
    rw [Function.iterate_succ_apply']
    generalize (divuRound divisor)^[n] (divisor, lo) = d at hdvd hlower hupper
    have hlo := d.2.isLt
    obtain ⟨bit, hlow, ⟨-, rfl⟩ | ⟨hsmall, -⟩, hhigh⟩ := divuRound_spec divisor d
    · refine ⟨?_, fun hlt => ?_⟩
      · have hnext : (divuRound divisor d).2.toNat + 1 =
            2 * (d.2.toNat + 1) - 2 * d.2.toNat / 2 ^ 64 * 2 ^ 64 := by omega
        rw [hnext, pow_succ']
        exact Nat.dvd_sub (mul_dvd_mul_left 2 hdvd)
          (Dvd.dvd.mul_left (by rw [← pow_succ']; exact pow_dvd_pow 2 hn) _)
      · have hpow : 2 ^ (n + 1) ≤ 2 ^ 63 := Nat.pow_le_pow_right (by decide) (by omega)
        rw [pow_succ' 2 n] at hpow ⊢
        have hrem := hhigh (by omega)
        omega
    · omega
end

section
variable {lo hi divisor : BitVec 64}

lemma pos_of_ne_zero (h : divisor ≠ 0) : 0 < divisor.toNat :=
  Nat.pos_of_ne_zero fun hzero => h (eq_of_toNat_eq hzero)

lemma divu128_of_lt (h : hi.toNat < divisor.toNat) : (divu128 lo hi divisor).overflow = 0 ∧
      (divu128 lo hi divisor).low.toNat = (hi ++ lo).toNat / divisor.toNat ∧
      (divu128 lo hi divisor).high.toNat = (hi ++ lo).toNat % divisor.toNat := by
  have hne : divisor ≠ 0 := by
    rintro rfl
    exact Nat.not_lt_zero _ h
  rw [divu128, if_neg hne]
  split
  next hzero =>
    subst hzero
    rw [toNat_words]
    simp
  · rw [if_neg (by rw [gt_iff_lt, lt_def]; omega)]
    obtain ⟨quot, hquot, hlt, heq⟩ := @iterate_divuRound lo _ _ h 64
    rw [← mul_assoc] at heq
    have hlow : ((divuRound divisor)^[64] (hi, lo)).2.toNat = quot := by omega
    obtain ⟨hdiv, hmod⟩ := (Nat.div_mod_unique (by omega)).mpr
      ⟨(by rw [mul_comm]; omega : ((divuRound divisor)^[64] (hi, lo)).1.toNat +
        divisor.toNat * quot = (hi ++ lo).toNat), hlt⟩
    exact ⟨rfl, hlow.trans hdiv.symm, hmod.symm⟩

lemma divu128_of_gt (h : divisor.toNat < hi.toNat) : (divu128 lo hi divisor).overflow = 1 := by
  have hzero : hi ≠ 0 := by
    rintro rfl
    exact Nat.not_lt_zero _ h
  rw [divu128]
  split
  · rfl
  · rw [if_pos (lt_def.mpr h)]

lemma divu128_of_eq (hne : divisor ≠ 0) : (divu128 lo divisor divisor).overflow = 0 ∧
      (divisor.toNat ≤ 2 ^ 63 → (divu128 lo divisor divisor).low.toNat = 2 ^ 64 - 1) := by
  rw [divu128, if_neg hne, if_neg hne, if_neg (by rw [gt_iff_lt, lt_def]; omega)]
  refine ⟨rfl, fun hle => ?_⟩
  have hlo := ((divuRound divisor)^[64] (divisor, lo)).2.isLt
  obtain ⟨hdvd, -⟩ := @iterate_divuRound_eq lo _ (pos_of_ne_zero hne) hle 64 (le_refl _)
  dsimp only
  omega

lemma absWords_toNat (lo hi : BitVec 64) :
    ((absWords lo hi).2 ++ (absWords lo hi).1).toNat = (hi ++ lo).toInt.natAbs := by
  have hlo := lo.isLt
  have hhi := hi.isLt
  rw [toInt_eq_toNat_cond, toNat_words, toNat_words, absWords, msb_eq_decide]
  by_cases hneg : 2 ^ 63 ≤ hi.toNat
  · have hall : ~~~lo = -1 ↔ lo.toNat = 0 := by
      rw [← toNat_inj, toNat_not]
      simp
      omega
    rw [if_pos (decide_eq_true hneg)]
    dsimp only
    rw [if_neg (by omega : ¬ 2 * (hi.toNat * 2 ^ 64 + lo.toNat) < 2 ^ (64 + 64))]
    split
    next hzero =>
      rw [toNat_add, toNat_not, hall.mp hzero]
      simp
      omega
    next hzero =>
      have hpos := mt hall.mpr hzero
      rw [toNat_add, toNat_not, toNat_not]
      simp
      omega
  · rw [if_neg (by simpa using hneg), if_pos (by omega), Int.natAbs_natCast]

lemma absDivisor_toNat (divisor : BitVec 64) :
    (if divisor.msb then 0 - divisor else divisor).toNat = divisor.toInt.natAbs := by
  have hd := divisor.isLt
  rw [toInt_eq_toNat_cond, msb_eq_decide]
  by_cases hneg : 2 ^ 63 ≤ divisor.toNat
  · rw [if_pos (decide_eq_true hneg), if_neg (by omega), toNat_sub]
    simp
    omega
  · rw [if_neg (by simpa using hneg), if_pos (by omega)]
    omega
end

section
variable (lo hi divisor : BitVec 64)

/-- What `divu128` is for. -/
def UnsignedExact : Prop :=
  ((divu128 lo hi divisor).overflow = 1 ↔ divisor = 0 ∨ 2 ^ 64 ≤ (hi ++ lo).toNat / divisor.toNat) ∧
  ((divu128 lo hi divisor).overflow ≠ 1 →
    (divu128 lo hi divisor).low.toNat = (hi ++ lo).toNat / divisor.toNat ∧
      (divu128 lo hi divisor).high.toNat = (hi ++ lo).toNat % divisor.toNat)

def signedQuotient : Int := (hi ++ lo).toInt.tdiv divisor.toInt

/-- What `divs128` is for. -/
def SignedExact : Prop :=
  ((divs128 lo hi divisor).overflow ≠ 0 ↔ divisor = 0 ∨
      ¬ (-2 ^ 63 ≤ signedQuotient lo hi divisor ∧ signedQuotient lo hi divisor < 2 ^ 63)) ∧
  ((divs128 lo hi divisor).overflow = 0 →
    (divs128 lo hi divisor).low.toInt = signedQuotient lo hi divisor)
end

section
variable {lo hi divisor : BitVec 64}

lemma le_quotient (hpos : 0 < divisor.toNat) (h : divisor.toNat ≤ hi.toNat) :
    2 ^ 64 ≤ (hi ++ lo).toNat / divisor.toNat := by
  rw [Nat.le_div_iff_mul_le hpos, toNat_words, mul_comm]
  exact (Nat.mul_le_mul_right _ h).trans (Nat.le_add_right _ _)

lemma unsignedExact_iff : UnsignedExact lo hi divisor ↔ ¬ (divisor ≠ 0 ∧ hi = divisor) := by
  by_cases hzero : divisor = 0
  · simp [UnsignedExact, divu128, hzero]
  have hpos := pos_of_ne_zero hzero
  rcases Nat.lt_trichotomy hi.toNat divisor.toNat with hlt | heq | hgt
  · obtain ⟨hoverflow, hlow, hhigh⟩ := @divu128_of_lt lo _ _ hlt
    have hfits : ¬ 2 ^ 64 ≤ (hi ++ lo).toNat / divisor.toNat := by
      rw [← hlow]
      exact not_le.mpr (isLt _)
    have hne : hi ≠ divisor := fun h => absurd (congrArg BitVec.toNat h) hlt.ne
    refine iff_of_true ⟨iff_of_false ?_ (not_or.mpr ⟨hzero, hfits⟩), fun _ => ⟨hlow, hhigh⟩⟩ ?_
    · rw [hoverflow]
      decide
    · exact fun h => hne h.2
  · obtain rfl := eq_of_toNat_eq heq
    refine iff_of_false (fun h => ?_) (not_not.mpr ⟨hzero, rfl⟩)
    have hrefused := h.1.mpr (.inr (le_quotient hpos (le_refl _)))
    rw [(divu128_of_eq hzero).1] at hrefused
    cases hrefused
  · have hne : hi ≠ divisor := fun h => absurd (congrArg BitVec.toNat h) hgt.ne'
    refine iff_of_true ⟨iff_of_true (divu128_of_gt hgt) ?_, ?_⟩ fun h => hne h.2
    · exact .inr (le_quotient hpos hgt.le)
    · exact fun h => absurd (divu128_of_gt hgt) h

lemma tdiv_eq_natAbs (n d : Int) :
    n.tdiv d = if decide (n < 0) ^^ decide (d < 0) then -((n.natAbs / d.natAbs : Nat) : Int)
      else (n.natAbs / d.natAbs : Nat) := by
  cases n with
  | ofNat m =>
    cases d with
    | ofNat k => simp [Int.tdiv, Int.not_lt.mpr (Int.natCast_nonneg _)]
    | negSucc k => simp [Int.tdiv, Int.not_lt.mpr (Int.natCast_nonneg _)]
  | negSucc m =>
    cases d with
    | ofNat k => simp [Int.tdiv, Int.not_lt.mpr (Int.natCast_nonneg _)]
    | negSucc k => simp [Int.tdiv]

lemma signedQuotient_eq (lo hi divisor : BitVec 64) :
    signedQuotient lo hi divisor = if hi.msb ^^ divisor.msb then
        -(((hi ++ lo).toInt.natAbs / divisor.toInt.natAbs : Nat) : Int)
      else ((hi ++ lo).toInt.natAbs / divisor.toInt.natAbs : Nat) := by
  have hmsb : (hi ++ lo).msb = hi.msb :=
    msb_append.trans (if_neg (by decide))
  rw [signedQuotient, tdiv_eq_natAbs, ← msb_eq_toInt, ← msb_eq_toInt, hmsb]

lemma msb_xor_sign (low : BitVec 64) (sign : Bool) :
    ((if sign then 0 - low else low).msb ^^ sign) = true ↔
      if sign then low.toNat = 0 ∨ 2 ^ 63 < low.toNat else 2 ^ 63 ≤ low.toNat := by
  have hlow := low.isLt
  rw [msb_eq_decide]
  cases sign with
  | false => simp
  | true =>
    simp
    omega

lemma withSign_overflow (sign : Bool) (r : Result) :
    (withSign sign r).overflow ≠ 0 ↔ r.overflow ≠ 0 ∨
      if sign then r.low.toNat = 0 ∨ 2 ^ 63 < r.low.toNat else 2 ^ 63 ≤ r.low.toNat := by
  rw [← msb_xor_sign, withSign]
  generalize (if sign then 0 - r.low else r.low) = low
  dsimp only
  split
  next hcheck => exact iff_of_true (by decide) (.inr hcheck.2)
  next hcheck => exact ⟨.inl, fun h => h.elim id fun hmsb hzero => hcheck ⟨hzero, hmsb⟩⟩

lemma withSign_low {sign : Bool} {r : Result} (h : (withSign sign r).overflow = 0) :
    (withSign sign r).low.toInt = if sign then -(r.low.toNat : Int) else r.low.toNat := by
  have hlow := r.low.isLt
  have hfits := mt (withSign_overflow sign r).mpr (not_not.mpr h)
  rw [toInt_eq_toNat_cond]
  cases sign with
  | false =>
    simp [withSign] at hfits ⊢
    omega
  | true =>
    simp [withSign] at hfits ⊢
    omega

lemma divu128_cases (hne : divisor ≠ 0) (hle : divisor.toNat ≤ 2 ^ 63) :
    ((divu128 lo hi divisor).overflow = 0 ∧
        (divu128 lo hi divisor).low.toNat = (hi ++ lo).toNat / divisor.toNat) ∨
      2 ^ 64 ≤ (hi ++ lo).toNat / divisor.toNat ∧ ((divu128 lo hi divisor).overflow = 0 →
          (divu128 lo hi divisor).low.toNat = 2 ^ 64 - 1) := by
  have hpos := pos_of_ne_zero hne
  rcases Nat.lt_trichotomy hi.toNat divisor.toNat with hlt | heq | hgt
  · obtain ⟨hoverflow, hlow, -⟩ := @divu128_of_lt lo _ _ hlt
    exact .inl ⟨hoverflow, hlow⟩
  · obtain rfl := eq_of_toNat_eq heq
    exact .inr ⟨le_quotient hpos (le_refl _), fun _ => (divu128_of_eq hne).2 hle⟩
  · refine .inr ⟨le_quotient hpos hgt.le, fun h => ?_⟩
    rw [divu128_of_gt hgt] at h
    cases h

lemma signedExact_iff : SignedExact lo hi divisor ↔
    ¬ (divisor ≠ 0 ∧ hi.msb ≠ divisor.msb ∧ signedQuotient lo hi divisor = 0) := by
  have hsign : hi.msb ≠ divisor.msb ↔ (hi.msb ^^ divisor.msb) = true := by simp
  rw [hsign, SignedExact, divs128]
  by_cases hzero : divisor = 0
  · subst hzero
    have hrefused := (withSign_overflow (hi.msb ^^ (0 : BitVec 64).msb)
      (divu128 (absWords lo hi).1 (absWords lo hi).2 0)).mpr (.inl (by simp [divu128]))
    exact iff_of_true ⟨iff_of_true hrefused (.inl rfl), fun h => absurd h hrefused⟩ fun h => h.1 rfl
  have habs := absDivisor_toNat divisor
  have hpos : 0 < divisor.toInt.natAbs := Int.natAbs_pos.mpr fun h => hzero (toInt_inj.mp h)
  have hlower := le_toInt divisor
  have hupper := toInt_lt (x := divisor)
  have hquot := signedQuotient_eq lo hi divisor
  have hcases := @divu128_cases (absWords lo hi).1 (absWords lo hi).2
    (if divisor.msb then 0 - divisor else divisor)
    (fun h => by rw [h] at habs; exact absurd habs.symm hpos.ne') (by omega)
  rw [absWords_toNat, habs] at hcases
  rw [or_iff_right hzero, and_iff_right hzero]
  generalize (hi.msb ^^ divisor.msb) = sign at *
  generalize signedQuotient lo hi divisor = q at *
  generalize (hi ++ lo).toInt.natAbs / divisor.toInt.natAbs = size at *
  generalize divu128 (absWords lo hi).1 (absWords lo hi).2
    (if divisor.msb then 0 - divisor else divisor) = r at *
  have hoverflow := withSign_overflow sign r
  have hlow := @withSign_low sign r
  generalize withSign sign r = s at *
  cases sign with
  | false =>
    simp only [Bool.false_eq_true, if_false] at hquot hoverflow hlow ⊢
    refine iff_of_true ⟨by omega, fun h => ?_⟩ fun h => h.1
    rw [hlow h]
    omega
  | true =>
    simp only [if_true] at hquot hoverflow hlow ⊢
    rw [true_and]
    by_cases hq : q = 0
    · refine iff_of_false (fun h => ?_) (not_not.mpr hq)
      have hfits := h.1
      omega
    · refine iff_of_true ⟨by omega, fun h => ?_⟩ hq
      rw [hlow h]
      omega

theorem division_exact_iff (lo hi divisor : BitVec 64) :
    (UnsignedExact lo hi divisor ↔ ¬ (divisor ≠ 0 ∧ hi = divisor)) ∧ (SignedExact lo hi divisor ↔
        ¬ (divisor ≠ 0 ∧ hi.msb ≠ divisor.msb ∧ signedQuotient lo hi divisor = 0)) :=
  ⟨unsignedExact_iff, signedExact_iff⟩

/-- `2 ^ 64` divided by 1 is accepted, and 1 divided by -2 is refused. -/
theorem division_inexact :
    ¬ UnsignedExact 0 1 1 ∧ (divu128 0 1 1).overflow = 0 ∧
      ¬ SignedExact 1 0 (-2) ∧ (divs128 1 0 (-2)).overflow = 1 := by
  unfold UnsignedExact SignedExact
  decide +kernel
end

/-! ## Multiplication -/

/-- The members `l.low` and `l.high` of a `LL`. -/
def halves (x : BitVec 64) : BitVec 32 × BitVec 32 := (x.setWidth 32, (x >>> 32).setWidth 32)

/-- A product of two halves, as `uint64_t`. -/
def mulHalves (x y : BitVec 32) : BitVec 64 := x.setWidth 64 * y.setWidth 64

section
variable (a b : BitVec 64)

/-- `mul64`: the low and the high word of the product. -/
def mul64 : BitVec 64 × BitVec 64 :=
  let a0 := halves a
  let b0 := halves b
  let rl := halves (mulHalves a0.1 b0.1)
  let rm := halves (mulHalves a0.1 b0.2)
  let rn := halves (mulHalves a0.2 b0.1)
  let rh := halves (mulHalves a0.2 b0.2)
  let c := rl.2.setWidth 64 + rm.1.setWidth 64 + rn.1.setWidth 64
  let low := c.setWidth 32 ++ rl.1
  let c := c >>> 32
  let c := c + rm.2.setWidth 64 + rn.2.setWidth 64 + rh.1.setWidth 64
  (low, (rh.2 + (c >>> 32).setWidth 32) ++ c.setWidth 32)

def mulu64 : BitVec 64 × BitVec 64 := mul64 a b

def muls64 : BitVec 64 × BitVec 64 :=
  let (plow, rh) := mul64 a b
  let rh := if b.msb then rh - a else rh
  (plow, if a.msb then rh - b else rh)

lemma toNat_halves (x : BitVec 64) :
    (halves x).1.toNat = x.toNat % 2 ^ 32 ∧ (halves x).2.toNat = x.toNat / 2 ^ 32 := by
  have hx := x.isLt
  refine ⟨toNat_setWidth .., ?_⟩
  rw [halves, toNat_setWidth, toNat_ushiftRight, Nat.shiftRight_eq_div_pow]
  omega

lemma mul_le_of_halves (x y : BitVec 32) : x.toNat * y.toNat ≤ (2 ^ 32 - 1) * (2 ^ 32 - 1) :=
  Nat.mul_le_mul (Nat.le_sub_one_of_lt x.isLt) (Nat.le_sub_one_of_lt y.isLt)

lemma toNat_mulHalves (x y : BitVec 32) : (mulHalves x y).toNat = x.toNat * y.toNat := by
  have hle := mul_le_of_halves x y
  rw [mulHalves, toNat_mul, toNat_setWidth_of_le (by decide), toNat_setWidth_of_le (by decide)]
  omega

lemma toNat_mul64 : ((mul64 a b).2 ++ (mul64 a b).1).toNat = a.toNat * b.toNat := by
  have hsplit : a.toNat * b.toNat = (halves a).2.toNat * (halves b).2.toNat * 2 ^ 64 +
      ((halves a).1.toNat * (halves b).2.toNat + (halves a).2.toNat * (halves b).1.toNat) * 2 ^ 32 +
      (halves a).1.toNat * (halves b).1.toNat := by
    simp only [toNat_halves]
    nth_rewrite 1 [← Nat.div_add_mod a.toNat (2 ^ 32), ← Nat.div_add_mod b.toNat (2 ^ 32)]
    linarith
  have hl := mul_le_of_halves (halves a).1 (halves b).1
  have hm := mul_le_of_halves (halves a).1 (halves b).2
  have hn := mul_le_of_halves (halves a).2 (halves b).1
  have hh := mul_le_of_halves (halves a).2 (halves b).2
  rw [hsplit, toNat_words, mul64]
  simp only [toNat_words, toNat_add, toNat_setWidth, toNat_ushiftRight,
    Nat.shiftRight_eq_div_pow, toNat_halves, toNat_mulHalves] at *
  omega

lemma toInt_sign (x : BitVec 64) :
    x.toInt = x.toNat - 2 ^ 64 * (x.msb.toNat : Int) ∧ x.toInt.natAbs ≤ 2 ^ 63 := by
  have hx := x.isLt
  rw [toInt_eq_toNat_cond, msb_eq_decide]
  by_cases hneg : 2 ^ 63 ≤ x.toNat
  · rw [if_neg (by omega), decide_eq_true hneg, Bool.toNat_true]
    omega
  · rw [if_pos (by omega), decide_eq_false hneg, Bool.toNat_false]
    omega

/-- One correction of the high word. -/
lemma toNat_subIf (neg : Bool) (hi lo x : BitVec 64) :
    ∃ k : Int, (((if neg then hi - x else hi) ++ lo).toNat : Int) =
      (hi ++ lo).toNat - 2 ^ 64 * (neg.toNat * x.toNat) + 2 ^ 128 * k := by
  cases neg with
  | false => exact ⟨0, by simp⟩
  | true =>
    have hx := x.isLt
    refine ⟨1 - (2 ^ 64 - x.toNat + hi.toNat) / 2 ^ 64, ?_⟩
    rw [if_pos rfl, toNat_words, toNat_words, toNat_sub, Bool.toNat_true]
    omega

lemma toInt_eq_of_toNat {x : BitVec 128} {p k : Int} (h : x.toNat = p + 2 ^ 128 * k)
    (hp : p.natAbs ≤ 2 ^ 63 * 2 ^ 63) : x.toInt = p := by
  rw [toInt_eq_toNat_cond]
  split <;> omega

lemma toInt_muls64 : ((muls64 a b).2 ++ (muls64 a b).1).toInt = a.toInt * b.toInt := by
  obtain ⟨ha, hale⟩ := toInt_sign a
  obtain ⟨hb, hble⟩ := toInt_sign b
  obtain ⟨j, hj⟩ := toNat_subIf b.msb (mul64 a b).2 (mul64 a b).1 a
  obtain ⟨k, hk⟩ := toNat_subIf a.msb _ (mul64 a b).1 b
  refine @toInt_eq_of_toNat _ _ (j + k - a.msb.toNat * b.msb.toNat) ?_ ?_
  · rw [muls64, hk, hj, toNat_mul64, ha, hb]
    push_cast
    linarith
  · rw [Int.natAbs_mul]
    exact Nat.mul_le_mul hale hble

theorem multiplication_exact :
    ((mulu64 a b).2 ++ (mulu64 a b).1).toNat = a.toNat * b.toNat ∧
      ((muls64 a b).2 ++ (muls64 a b).1).toInt = a.toInt * b.toInt :=
  ⟨toNat_mul64 a b, toInt_muls64 a b⟩

/-- Division undoes multiplication. -/
theorem divu128_mulu64 : b = 0 ∨ divu128 (mulu64 a b).1 (mulu64 a b).2 b = ⟨0, a, 0⟩ := by
  refine or_iff_not_imp_left.mpr fun hne => ?_
  have hpos := pos_of_ne_zero hne
  have hprod := toNat_mul64 a b
  -- the high word of the product is less than either factor
  have hhi : (mul64 a b).2.toNat < b.toNat := by
    have hlt := Nat.mul_lt_mul_of_pos_right a.isLt hpos
    rw [toNat_words] at hprod
    omega
  obtain ⟨hover, hlow, hhigh⟩ := @divu128_of_lt (mul64 a b).1 _ _ hhi
  rw [hprod, Nat.mul_div_cancel _ hpos] at hlow
  rw [hprod, Nat.mul_mod_left] at hhigh
  exact Result.mk.injEq .. ▸ ⟨hover, eq_of_toNat_eq hlow, eq_of_toNat_eq hhigh⟩
end

end QemuVmi.Util.HostUtils
