import QemuVmi.Migration.Xbzrle

/-!
# Safety of the xbzrle decoder

`xbzrle_decode_buffer` once more, with what decides its memory safety: the
positions `i` and `d` are C `int`s, a length is a `uint32_t`, a comparison of the two
is unsigned, and every offset that is read or copied to is recorded. The buffers are
the memory around them, so an offset outside of a buffer, also a negative one, is an
access like any other.

Results:
1. `xbzrle_decode_safe`: every access is inside of a buffer.
-/

namespace QemuVmi.Migration

open ByteRegion Int List

abbrev Around := Int → BitVec 8

/-- Conversion to `unsigned int`. -/
def toUnsigned (x : Int) : Int := x % 2 ^ 32

/-- Conversion to `int`, as the compilers in use do it. -/
def toInt (x : Int) : Int :=
  if toUnsigned x < 2 ^ 31 then toUnsigned x else toUnsigned x - 2 ^ 32

/-- What a call has done so far: the offsets it has read, the offset and the length of each
`memcpy`, and the destination. -/
structure Trace where
  reads : List Int
  runs : List (Int × Int)
  dst : Around

def Trace.read (t : Trace) (offsets : List Int) : Trace := { t with reads := t.reads ++ offsets }

/-- `memcpy(dst + d, src + i, count)`. -/
def Trace.memcpy (t : Trace) (src : Around) (d i count : Int) : Trace where
  reads := t.reads ++ (List.range count.toNat).map fun k => i + (k : Nat)
  runs := t.runs ++ [(d, count)]
  dst o := if d ≤ o ∧ o < d + count then src (i + (o - d)) else t.dst o

/-- `uleb128_decode_small(src + i, &count)`: its result with `count`, `none` for `-1`, and
the offsets it reads. -/
def uleb128Decode (src : Around) (i : Int) : Option (Int × Int) × List Int :=
  if src i &&& 0x80#8 = 0#8 then (some (1, (src i).toNat), [i])
  else if src (i + 1) &&& 0x80#8 ≠ 0#8 then (none, [i, i + 1])
  else
    (some (2, ((src i &&& 0x7f#8).toNat ||| (src (i + 1)).toNat <<< 7 : Nat)), [i, i + 1])

/-- What an iteration comes to: a result, or the next iteration. -/
inductive Decoded where
  | ret (r : Int) (t : Trace)
  | next (i d : Int) (t : Trace)

section
variable (src : Around) (slen dlen : Int)

/-- The second half of an iteration, from the length of the nonzero run on. -/
def decodeNonzeroRun (i d : Int) (t : Trace) : Decoded :=
  if slen - i < 2 then .ret (-1) t
  else
    let t := t.read (uleb128Decode src i).2
    match (uleb128Decode src i).1 with
    | none => .ret (-1) t
    | some (ret, count) =>
      if count = 0 then .ret (-1) t
      else if toUnsigned (d + count) > toUnsigned dlen ∨
          toUnsigned (i + ret + count) > toUnsigned slen then .ret (-1) t
      else
        .next (toInt (i + ret + count)) (toInt (d + count)) (t.memcpy src d (i + ret) count)

/-- One iteration of `xbzrle_decode_buffer`. -/
def decodeIteration (i d : Int) (t : Trace) : Decoded :=
  if slen - i < 2 then .ret (-1) t
  else
    let t := t.read (uleb128Decode src i).2
    match (uleb128Decode src i).1 with
    | none => .ret (-1) t
    | some (ret, count) =>
      if i ≠ 0 ∧ count = 0 then .ret (-1) t
      else if toInt (d + count) > dlen then .ret (-1) t
      else decodeNonzeroRun src slen dlen (i + ret) (toInt (d + count)) t

/-- `while (i < slen)`, `none` if it does not end within `fuel` iterations. -/
def decodeWhile : Nat → Int → Int → Trace → Option (Int × Trace)
  | 0, _, _, _ => none
  | fuel + 1, i, d, t =>
      if i < slen then
        match decodeIteration src slen dlen i d t with
        | .ret r t => some (r, t)
        | .next i d t => decodeWhile fuel i d t
      else some (d, t)

/-- `xbzrle_decode_buffer`, with what it does to the memory. -/
def xbzrleDecode (dst : Around) : Option (Int × Trace) :=
  decodeWhile src slen dlen (slen.toNat + 1) 0 0 ⟨[], [], dst⟩
end

def Trace.lastEnd (t : Trace) : Int := t.runs.getLast?.elim 0 fun run => run.1 + run.2

structure Trace.Safe (slen dlen : Int) (dst : Around) (t : Trace) : Prop where
  reads : ∀ o ∈ t.reads, 0 ≤ o ∧ o < slen
  runs : ∀ run ∈ t.runs, 0 ≤ run.1 ∧ 0 < run.2 ∧ run.1 + run.2 ≤ dlen
  unchanged : ∀ o, (∀ run ∈ t.runs, ¬ (run.1 ≤ o ∧ o < run.1 + run.2)) → t.dst o = dst o

section
variable {src : Around} {slen dlen : Int} {dst : Around} {i d : Int} {t : Trace}

lemma Trace.Safe.read (h : t.Safe slen dlen dst) {offsets : List Int}
    (hoffsets : ∀ o ∈ offsets, 0 ≤ o ∧ o < slen) : (t.read offsets).Safe slen dlen dst where
  reads o ho := (List.mem_append.mp ho).elim (h.reads o) (hoffsets o)
  runs := h.runs
  unchanged := h.unchanged

lemma Trace.Safe.memcpy (h : t.Safe slen dlen dst) {count : Int} (hcount : 0 < count)
    (hd : 0 ≤ d) (hdlen : d + count ≤ dlen) (hi : 0 ≤ i) (hslen : i + count ≤ slen) :
    (t.memcpy src d i count).Safe slen dlen dst where
  reads o ho := by
    rcases List.mem_append.mp ho with ho | ho
    · exact h.reads o ho
    · obtain ⟨k, hk, rfl⟩ := List.mem_map.mp ho
      have := List.mem_range.mp hk
      omega
  runs run hrun := by
    rcases List.mem_append.mp hrun with hrun | hrun
    · exact h.runs run hrun
    · rw [List.mem_singleton.mp hrun]
      exact ⟨hd, hcount, hdlen⟩
  unchanged o ho :=
    (if_neg (ho (d, count) (mem_append_right _ mem_cons_self))).trans
      (h.unchanged o fun run hrun => ho run (mem_append_left _ hrun))

@[simp] lemma Trace.lastEnd_memcpy (t : Trace) (src : Around) (d i count : Int) :
    (t.memcpy src d i count).lastEnd = d + count := by
  simp only [Trace.lastEnd, Trace.memcpy, getLast?_concat, Option.elim_some]

section
variable (src : Around)

lemma uleb128Decode_spec (i : Int) : (∀ o ∈ (uleb128Decode src i).2, o = i ∨ o = i + 1) ∧
    ∀ ret count, (uleb128Decode src i).1 = some (ret, count) →
      1 ≤ ret ∧ ret ≤ 2 ∧ 0 ≤ count ∧ count < 2 ^ 15 := by
  have hlow : (src i &&& 0x7f#8).toNat < 2 ^ 15 := (src i &&& 0x7f#8).isLt.trans (by decide)
  have hhigh : (src (i + 1)).toNat <<< 7 < 2 ^ 15 := by
    rw [Nat.shiftLeft_eq]
    exact mul_lt_mul_of_pos_right (src (i + 1)).isLt (by decide)
  have hboth := Nat.or_lt_two_pow hlow hhigh
  unfold uleb128Decode
  split
  · refine ⟨fun o ho => .inl (List.mem_singleton.mp ho), fun ret count heq => ?_⟩
    cases heq
    omega
  split
  · exact ⟨fun o ho => by simpa using ho, fun _ _ heq => nomatch heq⟩
  · refine ⟨fun o ho => by simpa using ho, fun ret count heq => ?_⟩
    cases heq
    omega

/-- What an iteration that starts at `i` may come to. -/
def Decoded.Good (slen dlen : Int) (dst : Around) (i : Int) : Decoded → Prop
  | .ret r t => r = -1 ∧ t.Safe slen dlen dst
  | .next i' d' t => i < i' ∧ i' ≤ slen ∧ 0 ≤ d' ∧ d' ≤ dlen ∧ d' = t.lastEnd ∧ t.Safe slen dlen dst

lemma Trace.Safe.uleb128 (h : t.Safe slen dlen dst) (hi : 0 ≤ i) (hroom : ¬ slen - i < 2) :
    (t.read (uleb128Decode src i).2).Safe slen dlen dst :=
  h.read fun o ho => by rcases (uleb128Decode_spec src i).1 o ho with rfl | rfl <;> omega

/-- A position that has wrapped around is still refused: as an unsigned number it is larger
than any `dlen`. -/
lemma decodeNonzeroRun_good (hslen : slen < 2 ^ 31) (hdlen : 0 ≤ dlen ∧ dlen < 2 ^ 31)
    (hi : 0 ≤ i) (hd : 0 ≤ d ∧ d ≤ dlen ∨ -2 ^ 31 ≤ d ∧ d < -2 ^ 15) (h : t.Safe slen dlen dst) :
    (decodeNonzeroRun src slen dlen i d t).Good slen dlen dst i := by
  unfold decodeNonzeroRun
  split
  case isTrue => exact ⟨rfl, h⟩
  case isFalse hroom =>
    have hread := h.uleb128 src hi hroom
    split
    next => exact ⟨rfl, hread⟩
    next ret count hlen =>
      obtain ⟨hret, hret', hcount, hcount'⟩ := (uleb128Decode_spec src i).2 ret count hlen
      split
      case isTrue => exact ⟨rfl, hread⟩
      case isFalse hzero =>
        split
        case isTrue => exact ⟨rfl, hread⟩
        case isFalse hfits =>
          simp only [toUnsigned, not_or, not_lt, gt_iff_lt] at hfits
          have hdest : 0 ≤ d ∧ d + count ≤ dlen := by omega
          have hsrc : i + ret + count ≤ slen := by omega
          have hi' : toInt (i + ret + count) = i + ret + count := by
            unfold toInt toUnsigned
            omega
          have hd' : toInt (d + count) = d + count := by
            unfold toInt toUnsigned
            omega
          rw [hi', hd']
          exact ⟨by omega, hsrc, by omega, hdest.2, (Trace.lastEnd_memcpy _ _ _ _ _).symm,
            hread.memcpy (by omega) hdest.1 hdest.2 (by omega) hsrc⟩

lemma decodeIteration_good (hslen : slen < 2 ^ 31) (hdlen : dlen < 2 ^ 31) (hi : 0 ≤ i)
    (hd : 0 ≤ d) (hd' : d ≤ dlen) (h : t.Safe slen dlen dst) :
    (decodeIteration src slen dlen i d t).Good slen dlen dst i := by
  unfold decodeIteration
  split
  case isTrue => exact ⟨rfl, h⟩
  case isFalse hroom =>
    have hread := h.uleb128 src hi hroom
    split
    next => exact ⟨rfl, hread⟩
    next ret count hlen =>
      obtain ⟨hret, hret', hcount, hcount'⟩ := (uleb128Decode_spec src i).2 ret count hlen
      split
      case isTrue => exact ⟨rfl, hread⟩
      case isFalse =>
        split
        case isTrue => exact ⟨rfl, hread⟩
        case isFalse hover =>
          have hwrap : 0 ≤ toInt (d + count) ∧ toInt (d + count) ≤ dlen ∨
              -2 ^ 31 ≤ toInt (d + count) ∧ toInt (d + count) < -2 ^ 15 := by
            unfold toInt toUnsigned at hover ⊢
            omega
          have hgood := decodeNonzeroRun_good src (i := i + ret) hslen
            ⟨hd.trans hd', hdlen⟩ (by omega) hwrap hread
          cases hrun : decodeNonzeroRun src slen dlen (i + ret) (toInt (d + count))
              (t.read (uleb128Decode src i).2) with
          | ret r t' =>
            rwa [hrun] at hgood
          | next i' d' t' =>
            rw [hrun] at hgood
            exact ⟨by have := hgood.1; omega, hgood.2⟩

/-- The whole loop: it ends, because every iteration advances `i`, and it keeps to the
buffers, because every iteration does. -/
lemma decodeWhile_safe (hslen : slen < 2 ^ 31) (hdlen : dlen < 2 ^ 31) {fuel : Nat} :
    ∀ {i d : Int} {t : Trace}, 0 ≤ i → i ≤ slen → 0 ≤ d → d ≤ dlen → d = t.lastEnd →
      t.Safe slen dlen dst → slen - i < fuel →
      ∃ r t', decodeWhile src slen dlen fuel i d t = some (r, t') ∧ t'.Safe slen dlen dst ∧
        (r = -1 ∨ 0 ≤ r ∧ r ≤ dlen ∧ r = t'.lastEnd) := by
  induction fuel with
  | zero =>
    intro i d t _ hle _ _ _ _ hfuel
    omega
  | succ fuel ih =>
    intro i d t hi hle hd hd' hlast h hfuel
    unfold decodeWhile
    split
    case isFalse => exact ⟨d, t, rfl, h, .inr ⟨hd, hd', hlast⟩⟩
    case isTrue =>
      have hgood := decodeIteration_good src hslen hdlen hi hd hd' h
      split
      next r t' hrun =>
        rw [hrun] at hgood
        exact ⟨r, t', rfl, hgood.2, .inl hgood.1⟩
      next i' d' t' hrun =>
        rw [hrun] at hgood
        obtain ⟨hlt, hi', hd₀, hd₁, hlast', hsafe⟩ := hgood
        exact ih (by omega) hi' hd₀ hd₁ hlast' hsafe (by omega)
end

end

/-- For every stream of `slen` bytes and every destination of `dlen` bytes, the decoder
returns, reads only bytes of the stream and copies only into the destination; the result is
`-1` or the end of the last run it copied; and what is outside of the runs is unchanged. -/
theorem xbzrle_decode_safe (src dst : Around) (slen dlen : Fin (2 ^ 31)) :
    ∃ r t, xbzrleDecode src slen dlen dst = some (r, t) ∧ (∀ o ∈ t.reads, 0 ≤ o ∧ o < slen) ∧
      (∀ run ∈ t.runs, 0 ≤ run.1 ∧ 0 < run.2 ∧ run.1 + run.2 ≤ dlen) ∧
      (r = -1 ∨ 0 ≤ r ∧ r ≤ dlen ∧ r = t.lastEnd) ∧
      ∀ o, (∀ run ∈ t.runs, ¬ (run.1 ≤ o ∧ o < run.1 + run.2)) → t.dst o = dst o := by
  have hstart : Trace.Safe slen dlen dst ⟨[], [], dst⟩ :=
    ⟨fun _ ho => (nomatch ho), fun _ hrun => (nomatch hrun), fun _ _ => rfl⟩
  have hslen : (slen : Int) < 2 ^ 31 := by exact_mod_cast slen.isLt
  have hdlen : (dlen : Int) < 2 ^ 31 := by exact_mod_cast dlen.isLt
  have hfuel : (slen : Int) - 0 < ((slen : Int).toNat + 1 : Nat) := by omega
  obtain ⟨r, t, hrun, hsafe, hresult⟩ := decodeWhile_safe src hslen hdlen (le_refl 0)
    (natCast_nonneg _) (le_refl 0) (natCast_nonneg _) rfl hstart hfuel
  exact ⟨r, t, hrun, hsafe.reads, hsafe.runs, hresult, hsafe.unchanged⟩

end QemuVmi.Migration
