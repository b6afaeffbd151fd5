import QemuVmi.Lib.ByteRegion
import QemuVmi.Lib.WhileLoop
import QemuVmi.Lib.WordBytes

/-!
# Xor based zero run length encoding

`xbzrle_encode_buffer` and `xbzrle_decode_buffer` of `xbzrle.c`, with
`uleb128_encode_small` and `uleb128_decode_small` of `util/cutils.c`. The size of a
`long` is a parameter, `W`: the source is written for 4 and for 8 bytes.

A buffer is a function of the offset, so that a byte outside of it can be read and
written like any other, and the encoder's buffer keeps the offsets that were
written. `none` stands for a failed assertion and for a loop that does not end.

Results:
1. `zeroRun_spec`, `nonzeroRun_spec`: the scans of the encoder, by bytes and by
   words, find the next byte that differs and the next byte that does not.
2. `uleb128_decode_encode`: the decoder of lengths reads what was encoded.
-/

namespace QemuVmi.Migration

open ByteRegion WhileLoop WordBytes Bool List

structure OutBuf where
  mem : Region
  writes : List Nat

/-- `memcpy(dst + d, src, count)`. -/
def OutBuf.memcpy (out : OutBuf) (d count : Nat) (src : Region) : OutBuf :=
  { mem := copy out.mem d count src
    writes := out.writes ++ (range count).map (d + ·) }

/-- `dst[d] = b`. -/
def OutBuf.store (out : OutBuf) (d : Nat) (b : BitVec 8) : OutBuf := out.memcpy d 1 fun _ => b

/-- `uleb128_encode_small(dst + d, n)`. -/
def uleb128EncodeSmall (out : OutBuf) (d n : Nat) : Option (Nat × OutBuf) :=
  if n ≤ 0x3fff then
    if n < 0x80 then some (1, out.store d (BitVec.ofNat 8 n))
    else
      some (2, (out.store d (BitVec.ofNat 8 ((n &&& 0x7f) ||| 0x80))).store (d + 1)
        (BitVec.ofNat 8 (n >>> 7)))
  else none

/-- `uleb128_decode_small`: the number of bytes and the number, `none` for the result
`-1`. -/
def uleb128DecodeSmall (src : Region) (i : Nat) : Option (Nat × Nat) :=
  if src i &&& 0x80#8 = 0#8 then some (1, (src i).toNat)
  else if src (i + 1) &&& 0x80#8 ≠ 0#8 then none
  else some (2, (src i &&& 0x7f#8).toNat ||| ((src (i + 1)).toNat <<< 7))

/-- `while (res && go(i)) { len++; i++; res--; }`, with `res`, `i` and `len` after it. -/
def unalignedLoop (go : Nat → Bool) : Nat → Nat → Nat → Nat × Nat × Nat
  | 0, i, len => (0, i, len)
  | res + 1, i, len => if go i then unalignedLoop go res (i + 1) (len + 1) else (res + 1, i, len)

/-- `while (i < slen && go(i)) { i += step; len += step; }`. -/
def scanLoop (go : Nat → Bool) (step slen i len : Nat) : Option (Nat × Nat) :=
  whileLoop (fun s => decide (s.1 < slen) && go s.1) (fun s => (s.1 + step, s.2 + step)) (slen + 1)
    (i, len)

section
variable (W : Nat) (old new : Region) (slen : Nat)

/-- The scan for the end of a zero run: `i` and `zrun_len` after it. -/
def zeroRun (i : Nat) : Option (Nat × Nat) :=
  let same := fun i => old i == new i
  let r := unalignedLoop same ((slen - i) % W) i 0
  if r.1 = 0 then
    (scanLoop (fun i => word old i W == word new i W) W slen r.2.1 r.2.2).bind fun s =>
      scanLoop same 1 slen s.1 s.2
  else some r.2

/-- `(xor - mask) & ~xor & (mask << 7)` for the words at `i`. -/
def endsWithin (i : Nat) : Bool :=
  zeroByteTest (word old i W ^^^ word new i W) (BitVec.ofNat (8 * W) 0x0101010101010101) != 0#(8 * W)

/-- The word loop of the scan for the end of a nonzero run. The loop inside of it has no
bound of its own. -/
def nonzeroWords : Nat → Nat → Nat → Option (Nat × Nat)
  | 0, _, _ => none
  | fuel + 1, i, len =>
      if i < slen then
        if endsWithin W old new i then
          whileLoop (fun s => old s.1 != new s.1) (fun s => (s.1 + 1, s.2 + 1)) (slen + 1) (i, len)
        else nonzeroWords fuel (i + W) (len + W)
      else some (i, len)

/-- The scan for the end of a nonzero run: `i` and `nzrun_len` after it. -/
def nonzeroRun (i : Nat) : Option (Nat × Nat) :=
  let r := unalignedLoop (fun i => old i != new i) ((slen - i) % W) i 0
  if r.1 = 0 then nonzeroWords W old new slen (slen + 1) r.2.1 r.2.2 else some r.2
end

/-- What an iteration of the encoder comes to: a result, or the next iteration. -/
inductive Step where
  | ret (r : Int) (out : OutBuf)
  | next (d i : Nat) (out : OutBuf)

/-- The second half of an iteration, from the scan for the end of the nonzero run. The
comparison with `dlen` is unsigned in the source, and `dlen` is positive here. -/
def encodeNonzeroRun (W : Nat) (old new : Region) (slen : Nat) (dlen : Int) (d i : Nat)
    (out : OutBuf) : Option Step :=
  if (d : Int) + 2 > dlen then some (.ret (-1) out)
  else
    (nonzeroRun W old new slen i).bind fun nz =>
      (uleb128EncodeSmall out d nz.2).map fun u =>
        if ((d + u.1 + nz.2 : Nat) : Int) > dlen then .ret (-1) u.2
        else .next (d + u.1 + nz.2) nz.1 (u.2.memcpy (d + u.1) nz.2 fun k => new (i + k))

/-- One iteration of `xbzrle_encode_buffer`. -/
def encodeStep (W : Nat) (old new : Region) (slen : Nat) (dlen : Int) (d i : Nat) (out : OutBuf) :
    Option Step :=
  if (d : Int) + 2 > dlen then some (.ret (-1) out)
  else
    (zeroRun W old new slen i).bind fun z =>
      if z.2 = slen then some (.ret 0 out)
      else if z.1 = slen then some (.ret d out)
      else
        (uleb128EncodeSmall out d z.2).bind fun u =>
          encodeNonzeroRun W old new slen dlen (d + u.1) z.1 u.2

def encodeLoop (W : Nat) (old new : Region) (slen : Nat) (dlen : Int) :
    Nat → Nat → Nat → OutBuf → Option (Int × OutBuf)
  | 0, _, _, _ => none
  | fuel + 1, d, i, out =>
      if i < slen then
        (encodeStep W old new slen dlen d i out).bind fun
          | .ret r out => some (r, out)
          | .next d i out => encodeLoop W old new slen dlen fuel d i out
      else some (d, out)

/-- `xbzrle_encode_buffer`: its result and the output buffer. The pages are aligned, so
the assertion is about the length alone. -/
def xbzrleEncodeBuffer (W : Nat) (oldBuf newBuf : Region) (slen : Nat) (dst : Region) (dlen : Int) :
    Option (Int × OutBuf) :=
  if slen % W = 0 then encodeLoop W oldBuf newBuf slen dlen (slen + 1) 0 0 ⟨dst, []⟩ else none

/-- `xbzrle_decode_buffer` from `i` and `d` on: its result and the page. -/
def decodeLoop (src : Region) (slen dlen : Nat) : Nat → Nat → Nat → Region → Option (Int × Region)
  | 0, _, _, _ => none
  | fuel + 1, i, d, dst =>
      if i < slen then
        if slen - i < 2 then some (-1, dst)
        else
          match uleb128DecodeSmall src i with
          | none => some (-1, dst)
          | some z =>
            if i ≠ 0 ∧ z.2 = 0 then some (-1, dst)
            else if d + z.2 > dlen then some (-1, dst)
            else if slen - (i + z.1) < 2 then some (-1, dst)
            else
              match uleb128DecodeSmall src (i + z.1) with
              | none => some (-1, dst)
              | some nz =>
                if nz.2 = 0 then some (-1, dst)
                else if d + z.2 + nz.2 > dlen ∨ i + z.1 + nz.1 + nz.2 > slen then some (-1, dst)
                else
                  decodeLoop src slen dlen fuel (i + z.1 + nz.1 + nz.2) (d + z.2 + nz.2)
                    (copy dst (d + z.2) nz.2 fun k => src (i + z.1 + nz.1 + k))
      else some (d, dst)

/-- `xbzrle_decode_buffer`: its result and the page. -/
def xbzrleDecodeBuffer (src : Region) (slen : Nat) (dst : Region) (dlen : Nat) :
    Option (Int × Region) :=
  decodeLoop src slen dlen (slen + 1) 0 0 dst

/-- Every place from `a` up to `b` has the property. -/
def AllFrom (P : Nat → Prop) (a b : Nat) : Prop := ∀ j, a ≤ j → j < b → P j

variable {a k d : Nat} {out : OutBuf} {P : Nat → Prop}

lemma AllFrom.trans {b c : Nat} (h : AllFrom P a b) (h' : AllFrom P b c) : AllFrom P a c := by
  intro j hj hjc
  rcases lt_or_ge j b with hjb | hjb
  · exact h j hj hjb
  · exact h' j hjb hjc

lemma allFrom_self (P : Nat → Prop) (a : Nat) : AllFrom P a a := fun _ hj hja =>
  absurd hja (not_lt.mpr hj)

lemma allFrom_one (h : P a) : AllFrom P a (a + 1) := fun _ hj hja =>
  le_antisymm hj (Nat.le_of_lt_succ hja) ▸ h

lemma AllFrom.of_steps {i step : Nat}
    (h : ∀ j, j < k → AllFrom P (i + step * j) (i + step * (j + 1))) :
    AllFrom P i (i + step * k) := by
  induction k with
  | zero => exact allFrom_self P i
  | succ k ih => exact (ih fun j hj => h j (Nat.lt_succ_of_lt hj)).trans (h k k.lt_succ_self)

section
variable {P : Nat → Prop} {go : Nat → Bool} {slen i len : Nat}

lemma unalignedLoop_spec (hgo : ∀ j, go j = true ↔ P j) (res i len : Nat) :
    ∃ e, unalignedLoop go res i len = (res - (e - i), e, len + (e - i)) ∧ i ≤ e ∧ e - i ≤ res ∧
      AllFrom P i e ∧ (e - i < res → ¬ P e) := by
  induction res generalizing i len with
  | zero => exact ⟨i, by simp [unalignedLoop], le_refl i, by omega, allFrom_self P i, by omega⟩
  | succ res ih =>
    cases hi : go i with
    | false =>
      refine ⟨i, by simp [unalignedLoop, hi], le_refl i, by omega, allFrom_self P i, ?_⟩
      exact fun _ h => by simp [(hgo i).mpr h] at hi
    | true =>
      obtain ⟨e, hrun, hle, hres, hall, hstop⟩ := ih (i + 1) (len + 1)
      refine ⟨e, ?_, by omega, by omega, (allFrom_one ((hgo i).mp hi)).trans hall,
        fun h => hstop (by omega)⟩
      rw [unalignedLoop, if_pos hi, hrun, Prod.mk.injEq, Prod.mk.injEq]
      exact ⟨by omega, rfl, by omega⟩

lemma scanLoop_spec {step : Nat} (hstep : 0 < step) (hle : i ≤ slen) (hdvd : step ∣ slen - i)
    (hgo : ∀ j, go j = true → AllFrom P j (j + step)) :
    ∃ e, scanLoop go step slen i len = some (e, len + (e - i)) ∧ i ≤ e ∧ e ≤ slen ∧
      AllFrom P i e ∧ (e < slen → go e = false) := by
  obtain ⟨m, hm⟩ := hdvd
  have hmle : m ≤ slen - i := hm ▸ Nat.le_mul_of_pos_left m hstep
  have hend : (decide (i + step * m < slen) && go (i + step * m)) = false := by
    rw [decide_eq_false (by omega), Bool.false_and]
  obtain ⟨k, hk, hrun, hsteps, hstop⟩ :=
    @whileLoop_advance (fun i => decide (i < slen) && go i) step (slen + 1) i len m (by omega) hend
  have hkm : step * k ≤ step * m := Nat.mul_le_mul_left step hk
  refine ⟨i + step * k, ?_, by omega, by omega, AllFrom.of_steps fun j hj => ?_, fun hlt => ?_⟩
  · rw [scanLoop, hrun, Nat.add_sub_cancel_left]
  · have hj' := hsteps j hj
    rw [and_eq_true] at hj'
    rw [Nat.mul_succ, ← add_assoc]
    exact hgo _ hj'.2
  · rwa [decide_eq_true hlt, Bool.true_and] at hstop
end

section
variable {W : Nat} {old new : Region} {slen i : Nat}

/-- The end of a run: the next place at which the pages do not have the property, or the
end of the page. -/
structure RunEnd (P : Nat → Prop) (slen i e : Nat) : Prop where
  le : i ≤ e
  le_slen : e ≤ slen
  all : AllFrom P i e
  stop : e < slen → ¬ P e

lemma dvd_of_unaligned {e : Nat} (hi : i ≤ slen) (hle : i ≤ e)
    (he : (slen - i) % W - (e - i) = 0) (hres : e - i ≤ (slen - i) % W) :
    e ≤ slen ∧ W ∣ slen - e := by
  have hmod := Nat.mod_le (slen - i) W
  have hrest : slen - e = (slen - i) - (slen - i) % W := by omega
  exact ⟨by omega, hrest ▸ Nat.dvd_sub_mod (slen - i)⟩

lemma zeroRun_spec (hW : 0 < W) (hi : i ≤ slen) :
    ∃ e, zeroRun W old new slen i = some (e, e - i) ∧ RunEnd (fun j => old j = new j) slen i e := by
  have hmod := Nat.mod_le (slen - i) W
  obtain ⟨a, hrun, hle, hres, hall, hstop⟩ :=
    unalignedLoop_spec (fun j => beq_iff_eq (a := old j) (b := new j)) ((slen - i) % W) i 0
  simp only [zeroRun, hrun, zero_add]
  by_cases hzero : (slen - i) % W - (a - i) = 0
  · obtain ⟨ha, hdvd⟩ := dvd_of_unaligned hi hle hzero hres
    obtain ⟨b, hwords, hab, hb, hallWords, _⟩ :=
      @scanLoop_spec (fun j => old j = new j) (fun j => word old j W == word new j W) slen a (a - i)
        W hW ha hdvd fun j hj k hjk hk => by
          have hbytes := word_eq_iff.mp (beq_iff_eq.mp hj) (k - j) (by omega)
          rwa [Nat.add_sub_cancel' hjk] at hbytes
    obtain ⟨c, hbytes, hbc, hc, hallBytes, hlast⟩ :=
      @scanLoop_spec (fun j => old j = new j) (fun j => old j == new j) slen b (a - i + (b - a))
        1 one_pos hb (one_dvd _) fun j hj => allFrom_one (beq_iff_eq.mp hj)
    refine ⟨c, ?_, by omega, hc, (hall.trans hallWords).trans hallBytes, fun hlt h => ?_⟩
    · rw [if_pos hzero, hwords, Option.bind_some, hbytes]
      congr 2
      omega
    · rw [beq_iff_eq.mpr h] at hlast
      cases hlast hlt
  · rw [if_neg hzero]
    exact ⟨a, rfl, hle, by omega, hall, fun _ => hstop (by omega)⟩

/-! ### Nonzero runs -/

lemma mask_eq_ones (hW : W ≤ 8) : BitVec.ofNat (8 * W) 0x0101010101010101 = ones W := by
  interval_cases W <;> decide

lemma endsWithin_iff (hW : W ≤ 8) :
    endsWithin W old new i = true ↔ ∃ k, k < W ∧ old (i + k) = new (i + k) := by
  rw [endsWithin, bne_iff_ne, mask_eq_ones hW, word_xor, zeroByteTest_ne_zero_iff]
  simp only [BitVec.xor_eq_zero_iff]

lemma nonzeroWords_spec {fuel len : Nat} (hW : 0 < W) (hW8 : W ≤ 8) (hi : i ≤ slen)
    (hdvd : W ∣ slen - i) (hfuel : slen - i < fuel) :
    ∃ e, nonzeroWords W old new slen fuel i len = some (e, len + (e - i)) ∧
      RunEnd (fun j => old j ≠ new j) slen i e := by
  induction fuel generalizing i len with
  | zero => omega
  | succ fuel ih =>
    by_cases hlt : i < slen
    · have hword : W ≤ slen - i := Nat.le_of_dvd (Nat.sub_pos_of_lt hlt) hdvd
      cases hends : endsWithin W old new i with
      | true =>
        -- the loop inside of the word stops at its first equal byte
        obtain ⟨m, hm, heq⟩ := (endsWithin_iff hW8).mp hends
        obtain ⟨k, hk, hrun, hsteps, hstop⟩ :=
          @whileLoop_advance (fun j => old j != new j) 1 (slen + 1) i len m (by omega)
            (by rw [one_mul, heq, bne_self_eq_false])
        refine ⟨i + 1 * k, ?_, by omega, by omega, AllFrom.of_steps fun j hj => ?_, fun _ h => ?_⟩
        · rw [nonzeroWords, if_pos hlt, if_pos hends, hrun, Nat.add_sub_cancel_left]
        · rw [Nat.mul_succ, ← add_assoc]
          exact allFrom_one (bne_iff_ne.mp (hsteps j hj))
        · rw [bne_iff_ne.mpr h] at hstop
          cases hstop
      | false =>
        have hnone : AllFrom (fun j => old j ≠ new j) i (i + W) := fun j hij hj heq => by
          have htrue : endsWithin W old new i = true :=
            (endsWithin_iff hW8).mpr ⟨j - i, by omega, by rwa [Nat.add_sub_cancel' hij]⟩
          rw [hends] at htrue
          cases htrue
        have hrest : slen - (i + W) = slen - i - W := by omega
        obtain ⟨e, hrun, he⟩ := @ih (i + W) (len + W) (by omega)
          (hrest ▸ Nat.dvd_sub hdvd (dvd_refl W)) (by omega)
        have hle := he.le
        refine ⟨e, ?_, by omega, he.le_slen, hnone.trans he.all, he.stop⟩
        rw [nonzeroWords, if_pos hlt, hends, if_neg Bool.false_ne_true, hrun]
        congr 2
        omega
    · refine ⟨i, ?_, le_refl i, hi, allFrom_self _ i, fun h => absurd h hlt⟩
      rw [nonzeroWords, if_neg hlt, Nat.sub_self, Nat.add_zero]

lemma nonzeroRun_spec (hW : 0 < W) (hW8 : W ≤ 8) (hi : i ≤ slen) :
    ∃ e, nonzeroRun W old new slen i = some (e, e - i) ∧
      RunEnd (fun j => old j ≠ new j) slen i e := by
  have hmod := Nat.mod_le (slen - i) W
  obtain ⟨a, hrun, hle, hres, hall, hstop⟩ :=
    unalignedLoop_spec (fun j => bne_iff_ne (a := old j) (b := new j)) ((slen - i) % W) i 0
  simp only [nonzeroRun, hrun, zero_add]
  by_cases hzero : (slen - i) % W - (a - i) = 0
  · obtain ⟨ha, hdvd⟩ := dvd_of_unaligned hi hle hzero hres
    obtain ⟨e, hwords, he⟩ := @nonzeroWords_spec W old new slen a (slen + 1) (a - i) hW hW8 ha hdvd
      (by omega)
    have hae := he.le
    refine ⟨e, ?_, by omega, he.le_slen, hall.trans he.all, he.stop⟩
    rw [if_pos hzero, hwords]
    congr 2
    omega
  · rw [if_neg hzero]
    exact ⟨a, rfl, hle, by omega, hall, fun _ => hstop (by omega)⟩
end

lemma low_byte (ha : a < 128) : BitVec.ofNat 8 a &&& 0x80#8 = 0#8 ∧
    BitVec.ofNat 8 (a ||| 0x80) &&& 0x80#8 ≠ 0#8 ∧
    (BitVec.ofNat 8 (a ||| 0x80) &&& 0x7f#8).toNat = a ∧ (BitVec.ofNat 8 a).toNat = a := by
  revert a
  decide

lemma OutBuf.mem_writes_memcpy {count : Nat} {src : Region} :
    k ∈ (out.memcpy d count src).writes ↔ k ∈ out.writes ∨ d ≤ k ∧ k < d + count := by
  simp only [OutBuf.memcpy, mem_append, mem_map, mem_range]
  refine or_congr_right ⟨?_, fun h => ⟨k - d, by omega, by omega⟩⟩
  rintro ⟨j, hj, rfl⟩
  omega

@[simp] lemma OutBuf.store_self (out : OutBuf) (d : Nat) (b : BitVec 8) :
    (out.store d b).mem d = b :=
  @copy_of_lt out.mem (fun _ => b) d 1 0 one_pos

lemma OutBuf.store_of_ne {b : BitVec 8} (h : k ≠ d) : (out.store d b).mem k = out.mem k := by
  have hoff : k < d ∨ d + 1 ≤ k := by omega
  exact @copy_of_ge out.mem (fun _ => b) d 1 k hoff

structure LengthAt (out out' : OutBuf) (d n count : Nat) : Prop where
  pos : 1 ≤ count
  le : count ≤ 2
  before : ∀ k, k < d → out'.mem k = out.mem k
  writes : ∀ k, k ∈ out'.writes → k ∈ out.writes ∨ d ≤ k ∧ k < d + count
  decode : ∀ src : Region, (∀ k, k < d + count → src k = out'.mem k) →
    uleb128DecodeSmall src d = some (count, n)

lemma uleb128_decode_encode {n : Nat} (hn : n ≤ 0x3fff) :
    ∃ count out', uleb128EncodeSmall out d n = some (count, out') ∧
      LengthAt out out' d n count := by
  by_cases hsmall : n < 0x80
  · refine ⟨1, out.store d (BitVec.ofNat 8 n), by rw [uleb128EncodeSmall, if_pos hn, if_pos hsmall],
      le_refl 1, Nat.le_succ 1, fun k hk => OutBuf.store_of_ne hk.ne,
      fun k hk => OutBuf.mem_writes_memcpy.mp hk, fun src hsrc => ?_⟩
    obtain ⟨htop, _, _, htoNat⟩ := low_byte hsmall
    have hbyte : src d = BitVec.ofNat 8 n := by rw [hsrc d d.lt_succ_self, OutBuf.store_self]
    rw [uleb128DecodeSmall, hbyte, if_pos htop, htoNat]
  · refine ⟨2, _, by rw [uleb128EncodeSmall, if_pos hn, if_neg hsmall], Nat.le_succ 1, le_refl 2,
      fun k hk => ?_, fun k hk => ?_, fun src hsrc => ?_⟩
    · rw [OutBuf.store_of_ne (by omega), OutBuf.store_of_ne (by omega)]
    · rcases OutBuf.mem_writes_memcpy.mp hk with hk | hk
      · rcases OutBuf.mem_writes_memcpy.mp hk with hk | hk
        · exact .inl hk
        · exact .inr (by omega)
      · exact .inr (by omega)
    have hlow : n &&& 0x7f = n % 128 := Nat.and_two_pow_sub_one_eq_mod n 7
    have hhigh : n >>> 7 = n / 128 := Nat.shiftRight_eq_div_pow n 7
    obtain ⟨_, htop, hmod, _⟩ := low_byte (Nat.mod_lt n (by decide : 0 < 128))
    obtain ⟨htop', _, _, hdiv⟩ := low_byte (by omega : n / 128 < 128)
    have hfirst : src d = BitVec.ofNat 8 (n % 128 ||| 0x80) := by
      rw [hsrc d (by omega), OutBuf.store_of_ne (by omega), OutBuf.store_self, hlow]
    have hsecond : src (d + 1) = BitVec.ofNat 8 (n / 128) := by
      rw [hsrc (d + 1) (by omega), OutBuf.store_self, hhigh]
    have hvalue : n % 128 ||| (n / 128) <<< 7 = n := by
      rw [Nat.or_comm, ← Nat.shiftLeft_add_eq_or_of_lt (Nat.mod_lt n (by decide)), Nat.shiftLeft_eq]
      omega
    rw [uleb128DecodeSmall, hfirst, hsecond, if_neg htop, if_neg (not_not.mpr htop'), hmod, hdiv,
      hvalue]

end QemuVmi.Migration
