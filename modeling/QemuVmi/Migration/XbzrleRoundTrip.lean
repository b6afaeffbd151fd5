import QemuVmi.Migration.Xbzrle

/-!
# Decoding what was encoded

The encoder alternates between zero runs and nonzero runs. After each pair, what it
has written so far leads the decoder from the old page to a page that is new up to
the end of the nonzero run (`EncodeInv`).

Results:
1. `encodeStep_spec`: an iteration keeps the invariant, or returns what it should.
2. `xbzrle_roundTrip`: decoding an encoded page over the old one gives the new one.
-/

namespace QemuVmi.Migration

open ByteRegion

/-- The page that is new up to `i`. -/
def patch (old new : Region) (i : Nat) : Region := fun k => if k < i then new k else old k

/-- The decoder goes on from `i'`, `d'` and `dst'`, after at most one iteration for each
byte. -/
def DecodesTo (src : Region) (slen dlen i d : Nat) (dst : Region) (i' d' : Nat) (dst' : Region) :
    Prop :=
  ∃ n, n ≤ i' - i ∧ ∀ fuel, decodeLoop src slen dlen (fuel + n) i d dst =
    decodeLoop src slen dlen fuel i' d' dst'

lemma DecodesTo.trans {src : Region} {slen dlen i d i' d' i'' d'' : Nat} {dst dst' dst'' : Region}
    (h : DecodesTo src slen dlen i d dst i' d' dst')
    (h' : DecodesTo src slen dlen i' d' dst' i'' d'' dst'') (hi : i ≤ i') (hi' : i' ≤ i'') :
    DecodesTo src slen dlen i d dst i'' d'' dst'' := by
  obtain ⟨n, hn, hrun⟩ := h
  obtain ⟨m, hm, hrun'⟩ := h'
  refine ⟨m + n, by omega, fun fuel => ?_⟩
  rw [← add_assoc, hrun, hrun']

lemma decodesTo_step {src : Region} {slen dlen i d zcount z nzcount nz : Nat} {dst : Region}
    (hz : uleb128DecodeSmall src i = some (zcount, z))
    (hnz : uleb128DecodeSmall src (i + zcount) = some (nzcount, nz)) (hzpos : i ≠ 0 → z ≠ 0)
    (hzcount : 1 ≤ zcount) (hnzcount : 1 ≤ nzcount) (hnzpos : nz ≠ 0)
    (hslen : i + zcount + nzcount + nz ≤ slen) (hdlen : d + z + nz ≤ dlen) :
    DecodesTo src slen dlen i d dst (i + zcount + nzcount + nz) (d + z + nz)
      (copy dst (d + z) nz fun k => src (i + zcount + nzcount + k)) := by
  have hpos : 0 < nz := Nat.pos_of_ne_zero hnzpos
  refine ⟨1, by omega, fun fuel => ?_⟩
  rw [decodeLoop, if_pos (by omega), if_neg (by omega), hz]
  dsimp only
  rw [if_neg (fun h => hzpos h.1 h.2), if_neg (by omega), if_neg (by omega), hnz]
  dsimp only
  rw [if_neg hnzpos, if_neg (by omega)]

lemma copy_patch {old new src : Region} {i a b : Nat} (hia : i ≤ a) (hab : a ≤ b)
    (hsame : AllFrom (fun j => old j = new j) i a) (hsrc : ∀ k, k < b - a → src k = new (a + k)) :
    copy (patch old new i) a (b - a) src = patch old new b := by
  funext k
  unfold copy patch
  by_cases hk : a ≤ k ∧ k < a + (b - a)
  · rw [if_pos hk, if_pos (by omega), hsrc (k - a) (by omega), Nat.add_sub_cancel' hk.1]
  rw [if_neg hk]
  by_cases hki : k < i
  · rw [if_pos hki, if_pos (by omega)]
  rw [if_neg hki]
  by_cases hkb : k < b
  · rw [if_pos hkb]
    exact hsame k (by omega) (by omega)
  · rw [if_neg hkb]

section
variable {W : Nat} {old new : Region} {slen : Nat} {dlen : Int} {d i : Nat} {out : OutBuf}

structure Encoded (old new : Region) (slen : Nat) (dlen : Int) (r : Int) (out : OutBuf) : Prop where
  decodes : 0 < r → r ≤ dlen ∧ ∃ ret page,
    xbzrleDecodeBuffer out.mem r.toNat old slen = some (ret, page) ∧ 0 ≤ ret ∧
      ∀ k, k < slen → page k = new k
  zero : r = 0 ↔ slen = 0 ∨ (∀ k, k < slen → old k = new k) ∧ 2 ≤ dlen
  inside : ∀ k ∈ out.writes, (k : Int) < dlen

/-- The invariant of the encoder before an iteration. -/
structure EncodeInv (old new : Region) (slen : Nat) (dlen : Int) (d i : Nat) (out : OutBuf) :
    Prop where
  le_slen : i ≤ slen
  start : d = 0 ↔ i = 0
  fits : 0 < d → (d : Int) ≤ dlen
  differ : 0 < d → ∃ j, j < slen ∧ old j ≠ new j
  next : 0 < d → i < slen → old i = new i
  inside : ∀ k ∈ out.writes, (k : Int) < dlen
  decodes : ∀ (src : Region) (r : Nat), d ≤ r → (∀ k, k < d → src k = out.mem k) →
    DecodesTo src r slen 0 0 old d i (patch old new i)

lemma EncodeInv.init (old new dst : Region) (slen : Nat) (dlen : Int) :
    EncodeInv old new slen dlen 0 0 ⟨dst, []⟩ where
  le_slen := Nat.zero_le slen
  start := Iff.rfl
  fits := nofun
  differ := nofun
  next := nofun
  inside := nofun
  decodes := fun _ _ _ _ => ⟨0, le_refl 0, fun _ => by
    rw [show patch old new 0 = old from funext fun k => if_neg (Nat.not_lt_zero k)]
    rfl⟩

variable (h : EncodeInv old new slen dlen d i out) (hi : i < slen)

include h hi in
lemma EncodeInv.overflow {out' : OutBuf} (hfull : (d : Int) + 2 > dlen ∨ ∃ j, j < slen ∧ old j ≠ new j)
    (hinside : ∀ k ∈ out'.writes, (k : Int) < dlen) : Encoded old new slen dlen (-1) out' where
  decodes := nofun
  zero := by
    refine iff_of_false (by decide) ?_
    rintro (hempty | ⟨hsame, hroom⟩)
    · omega
    have hdiffer : ∃ j, j < slen ∧ old j ≠ new j := by
      rcases hfull with hfull | hdiffer
      · exact h.differ (by omega)
      · exact hdiffer
    obtain ⟨j, hj, hne⟩ := hdiffer
    exact hne (hsame j hj)
  inside := hinside

include h in
lemma EncodeInv.done (hd : 0 < d)
    (hrest : AllFrom (fun j => old j = new j) i slen) : Encoded old new slen dlen d out where
  decodes := by
    intro _
    obtain ⟨n, hn, hrun⟩ := h.decodes out.mem d (le_refl d) fun _ _ => rfl
    refine ⟨h.fits hd, i, patch old new i, ?_, Int.natCast_nonneg i, fun k hk => ?_⟩
    · rw [xbzrleDecodeBuffer, Int.toNat_natCast, show d + 1 = (d - n + 1) + n by omega, hrun,
        decodeLoop, if_neg (lt_irrefl d)]
    unfold patch
    split
    · rfl
    · exact hrest k (by omega) hk
  zero := by
    obtain ⟨j, hj, hne⟩ := h.differ hd
    refine iff_of_false (by omega) ?_
    rintro (hempty | ⟨hsame, _⟩)
    · omega
    · exact hne (hsame j hj)
  inside := h.inside

lemma LengthAt.inside {out' : OutBuf} {n count : Nat} (h : LengthAt out out' d n count)
    (hroom : (d : Int) + 2 ≤ dlen) (hinside : ∀ k ∈ out.writes, (k : Int) < dlen) :
    ∀ k ∈ out'.writes, (k : Int) < dlen := by
  intro k hk
  have hle := h.le
  rcases h.writes k hk with hold | hnew
  · exact hinside k hold
  · omega

lemma RunEnd.lt_of_stop {a b : Nat} (hz : RunEnd (fun j => old j = new j) slen i a)
    (hnz : RunEnd (fun j => old j ≠ new j) slen a b) (ha : a < slen) : a < b :=
  lt_of_le_of_ne hnz.le fun hab => hnz.stop (hab ▸ ha) (hab ▸ hz.stop ha)

include h hi in
lemma EncodeInv.extend {a b zcount nzcount : Nat} {out₁ out₂ : OutBuf}
    (hz : RunEnd (fun j => old j = new j) slen i a) (hnz : RunEnd (fun j => old j ≠ new j) slen a b)
    (ha : a < slen) (hzlen : LengthAt out out₁ d (a - i) zcount)
    (hnzlen : LengthAt out₁ out₂ (d + zcount) (b - a) nzcount)
    (hfits : ((d + zcount + nzcount + (b - a) : Nat) : Int) ≤ dlen)
    (hinside : ∀ k ∈ out₂.writes, (k : Int) < dlen) :
    EncodeInv old new slen dlen (d + zcount + nzcount + (b - a)) b
      (out₂.memcpy (d + zcount + nzcount) (b - a) fun k => new (a + k)) := by
  have hia := hz.le
  have hab := hz.lt_of_stop hnz ha
  have hzpos := hzlen.pos
  have hnzpos := hnzlen.pos
  refine ⟨hnz.le_slen, by omega, fun _ => hfits, fun _ => ⟨a, ha, hz.stop ha⟩,
    fun _ hb => not_not.mp (hnz.stop hb), fun k hk => ?_, fun src r hr hsrc => ?_⟩
  · rcases OutBuf.mem_writes_memcpy.mp hk with hold | hnew
    · exact hinside k hold
    · omega
  -- what was written before is not overwritten
  have hdata : ∀ k, k < b - a → src (d + zcount + nzcount + k) = new (a + k) := fun k hk =>
    (hsrc _ (by omega)).trans (@copy_of_lt out₂.mem (fun k => new (a + k)) _ _ k hk)
  have hout₂ : ∀ k, k < d + zcount + nzcount → src k = out₂.mem k := fun k hk =>
    (hsrc k (by omega)).trans (@copy_of_ge out₂.mem (fun k => new (a + k)) _ _ k (.inl hk))
  have hout₁ : ∀ k, k < d + zcount → src k = out₁.mem k := fun k hk =>
    (hout₂ k (by omega)).trans (hnzlen.before k hk)
  have hold : ∀ k, k < d → src k = out.mem k := fun k hk =>
    (hout₁ k (by omega)).trans (hzlen.before k hk)
  have hblen := hnz.le_slen
  have hstep := @decodesTo_step src r slen d i zcount (a - i) nzcount (b - a) (patch old new i)
    (hzlen.decode src hout₁) (hnzlen.decode src hout₂) ?_ hzpos hnzpos (by omega) hr (by omega)
  · rw [Nat.add_sub_cancel' hia, Nat.add_sub_cancel' hnz.le,
      copy_patch hia hnz.le hz.all hdata] at hstep
    exact (h.decodes src r (by omega) hold).trans hstep (Nat.zero_le d) (by omega)
  · -- the page is the same at the start of a later zero run
    intro hd hzero
    have hai : a = i := by omega
    exact hz.stop ha (hai ▸ h.next (Nat.pos_of_ne_zero hd) hi)

/-- What an iteration comes to. -/
def StepOk (old new : Region) (slen : Nat) (dlen : Int) (i : Nat) : Step → Prop
  | .ret r out => Encoded old new slen dlen r out
  | .next d' i' out => EncodeInv old new slen dlen d' i' out ∧ i < i'

variable (hW : 0 < W) (hW8 : W ≤ 8) (hmax : slen ≤ 0x3fff)

include h hi hW hW8 hmax in
lemma encodeStep_spec : ∃ step, encodeStep W old new slen dlen d i out = some step ∧
      StepOk old new slen dlen i step := by
  unfold encodeStep
  by_cases hroom : (d : Int) + 2 > dlen
  · exact ⟨_, if_pos hroom, h.overflow hi (.inl hroom) h.inside⟩
  obtain ⟨a, hzrun, hz⟩ := @zeroRun_spec W old new slen i hW hi.le
  have hia := hz.le
  have ha := hz.le_slen
  rw [if_neg hroom, hzrun, Option.bind_some]
  by_cases hall : a - i = slen
  · refine ⟨_, if_pos hall, nofun, iff_of_true rfl (.inr ⟨fun k hk => ?_, by omega⟩), h.inside⟩
    exact hz.all k (by omega) (by omega)
  rw [if_neg hall]
  by_cases hend : a = slen
  · refine ⟨_, if_pos hend, h.done ?_ (hend ▸ hz.all)⟩
    have hstart := h.start
    omega
  have halt : a < slen := lt_of_le_of_ne ha hend
  have hdiffer : ∃ j, j < slen ∧ old j ≠ new j := ⟨a, halt, hz.stop halt⟩
  obtain ⟨zcount, out₁, henc₁, hzlen⟩ := @uleb128_decode_encode d out (a - i) (by omega)
  have hin₁ := hzlen.inside (Int.not_lt.mp hroom) h.inside
  rw [if_neg hend, henc₁, Option.bind_some]
  unfold encodeNonzeroRun
  by_cases hroom₁ : ((d + zcount : Nat) : Int) + 2 > dlen
  · exact ⟨_, if_pos hroom₁, h.overflow hi (.inr hdiffer) hin₁⟩
  obtain ⟨b, hnzrun, hnz⟩ := @nonzeroRun_spec W old new slen a hW hW8 ha
  have hb := hnz.le_slen
  obtain ⟨nzcount, out₂, henc₂, hnzlen⟩ := @uleb128_decode_encode (d + zcount) out₁ (b - a) (by omega)
  have hin₂ := hnzlen.inside (Int.not_lt.mp hroom₁) hin₁
  rw [if_neg hroom₁, hnzrun, Option.bind_some, henc₂, Option.map_some]
  refine ⟨_, rfl, ?_⟩
  by_cases hfits : ((d + zcount + nzcount + (b - a) : Nat) : Int) > dlen
  · rw [if_pos hfits]
    exact h.overflow hi (.inr hdiffer) hin₂
  · rw [if_neg hfits]
    exact ⟨h.extend hi hz hnz halt hzlen hnzlen (Int.not_lt.mp hfits) hin₂,
      hia.trans_lt (hz.lt_of_stop hnz halt)⟩

include h hW hW8 hmax in
lemma encodeLoop_spec {fuel : Nat} (hfuel : slen - i < fuel) :
    ∃ r out', encodeLoop W old new slen dlen fuel d i out = some (r, out') ∧
      Encoded old new slen dlen r out' := by
  induction fuel generalizing d i out with
  | zero => omega
  | succ fuel ih =>
    by_cases hi : i < slen
    · obtain ⟨step, hstep, hok⟩ := encodeStep_spec h hi hW hW8 hmax
      rw [encodeLoop, if_pos hi, hstep, Option.bind_some]
      cases step with
      | ret r out' => exact ⟨r, out', rfl, hok⟩
      | next d' i' out' =>
        obtain ⟨hinv, hlt⟩ := hok
        exact ih hinv (by omega)
    · rw [encodeLoop, if_neg hi]
      have hend : i = slen := Nat.le_antisymm h.le_slen (not_lt.mp hi)
      refine ⟨d, out, rfl, ?_⟩
      by_cases hd : 0 < d
      · exact h.done hd (hend ▸ allFrom_self _ i)
      have hstart := h.start
      have hzero : d = 0 := by omega
      subst hzero
      exact ⟨nofun, iff_of_true rfl (.inl (by omega)), h.inside⟩
end

/-- For all pages whose length is a multiple of the size of a `long` and at most
`0x3fff`, and for every capacity, the encoder returns without writing at or beyond
`dst[dlen]`. A positive result is at most `dlen`, and the decoder applied to that many
bytes succeeds and turns the old page into the new one. The result is zero exactly
when the page is empty, or unchanged with a capacity of at least two. -/
theorem xbzrle_roundTrip {W slen : Nat} (hW : W = 4 ∨ W = 8) (hslen : W ∣ slen)
    (hmax : slen ≤ 0x3fff) (old new dst : Region) (dlen : Int) :
    ∃ r out, xbzrleEncodeBuffer W old new slen dst dlen = some (r, out) ∧
      (0 < r → r ≤ dlen ∧ ∃ ret page,
        xbzrleDecodeBuffer out.mem r.toNat old slen = some (ret, page) ∧ 0 ≤ ret ∧
          ∀ k, k < slen → page k = new k) ∧
      (r = 0 ↔ slen = 0 ∨ (∀ k, k < slen → old k = new k) ∧ 2 ≤ dlen) ∧
      ∀ k ∈ out.writes, (k : Int) < dlen := by
  obtain ⟨r, out, hrun, hok⟩ :=
    encodeLoop_spec (EncodeInv.init old new dst slen dlen) (by omega : 0 < W) (by omega) hmax
      (Nat.lt_succ_of_le (Nat.sub_le slen 0))
  refine ⟨r, out, ?_, hok.decodes, hok.zero, hok.inside⟩
  rw [xbzrleEncodeBuffer, if_pos (Nat.mod_eq_zero_of_dvd hslen), hrun]

/-- A page of two words, of which the last byte has changed: a zero run of fifteen bytes
and a nonzero run of one. -/
theorem xbzrle_roundTrip_last_byte :
    ∃ out ret page, xbzrleEncodeBuffer 8 (fun _ => 0#8) (fun k => if k = 15 then 7#8 else 0#8) 16
        (fun _ => 0#8) 16 = some (3, out) ∧
      xbzrleDecodeBuffer out.mem 3 (fun _ => 0#8) 16 = some (ret, page) ∧ page 15 = 7#8 := by
  obtain ⟨r, out, hrun, hdecodes, _⟩ := xbzrle_roundTrip (.inr rfl) (by decide : 8 ∣ 16) (by decide)
    (fun _ => 0#8) (fun k => if k = 15 then 7#8 else 0#8) (fun _ => 0#8) 16
  have hthree : (xbzrleEncodeBuffer 8 (fun _ => 0#8) (fun k => if k = 15 then 7#8 else 0#8) 16
      (fun _ => 0#8) 16).map Prod.fst = some 3 := by decide +kernel
  rw [hrun, Option.map_some, Option.some.injEq] at hthree
  subst hthree
  obtain ⟨_, ret, page, hdecode, _, hpage⟩ := hdecodes (by decide)
  exact ⟨out, ret, page, hrun, hdecode, hpage 15 (by decide)⟩

end QemuVmi.Migration
