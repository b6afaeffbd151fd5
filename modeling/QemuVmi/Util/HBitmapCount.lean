import QemuVmi.Util.HBitmapIter

/-!
# Counting the groups of a range

`hb_count_between` runs an iterator over the words from the start of the range on, and
adds up their population counts. Nothing changes in the meantime, so the iterator is to
visit every group that is set from its bound on (`HBitmapIter.Complete`).

1. `iterNextWord_complete`: what the next word of such an iterator contains.
2. `hbCountBetween_spec`: the loop ends, and the count is exact.
-/

namespace QemuVmi.Util

open BitWords BitVec Option Nat

variable {hb : HBitmap} {lo : Nat} {hbi : HBitmapIter}

instance (hb : HBitmap) : DecidablePred hb.Leaf := fun n =>
  inferInstanceAs (Decidable (hb.bitAt (hbitmapLevels - 1) n = true))

/-- The number of groups from `lo` to `stop` that are set. -/
def HBitmap.countFrom (hb : HBitmap) (lo stop : Nat) : Nat :=
  Nat.count (fun n => hb.Leaf n ∧ lo ≤ n) stop

/-- The iterator is to visit every group that is set from `lo` on. -/
structure HBitmapIter.Complete (hbi : HBitmapIter) (hb : HBitmap) (lo : Nat) : Prop where
  inv : hbi.Inv hb lo
  todo : ∀ n, hb.Leaf n → lo ≤ n → hbi.Todo n

lemma iterNextWord_complete (h : hb.WellFormed) (hc : hbi.Complete hb lo) :
    ∃ p w hbi', hbitmapIterNextWord hb hbi = some (p, w, hbi') ∧
      ((p = 2 ^ 64 - 1 ∧ ∀ n, hb.Leaf n → ¬ lo ≤ n) ∨
        (hbi'.Complete hb (64 * p + 64) ∧ lo < 64 * p + 64 ∧
          (∀ n, hb.Leaf n → lo ≤ n → 64 * p ≤ n) ∧
          ∀ b, b < 64 → (w.getLsbD b = true ↔ hb.Leaf (64 * p + b) ∧ lo ≤ 64 * p + b))) := by
  obtain ⟨p, w, hbi', hrun, hcase⟩ := iterNextWord_spec h hc.inv
  refine ⟨p, w, hbi', hrun, ?_⟩
  rcases hcase with ⟨hp, _, hnone⟩ | ⟨hw, hinv, hbits, htodo⟩
  · exact .inl ⟨hp, fun n hn hlo => hnone n hn (hc.todo n hn hlo)⟩
  have hsplit : ∀ n, hb.Leaf n → lo ≤ n → (∃ b, w.getLsbD b = true ∧ n = 64 * p + b) ∨
      hbi'.Todo n := fun n hn hlo => (htodo n hn).mp (hc.todo n hn hlo)
  have hlater := hinv.cursor.above
  obtain ⟨b, hb, hbit⟩ := ne_zero_iff.mp hw
  refine .inr ⟨⟨hinv, fun n hn hlo => ?_⟩, ?_, fun n hn hlo => ?_, fun b hb => ?_⟩
  · have hlow := (hbits b hbit).2
    rcases hsplit n hn (by omega) with ⟨c, hc, rfl⟩ | htodo'
    · have := lt_of_getLsbD hc
      omega
    · exact htodo'
  · have := (hbits b hbit).2
    omega
  · rcases hsplit n hn hlo with ⟨c, _, rfl⟩ | htodo'
    · exact le_add_right _ _
    · have := hlater n htodo'
      omega
  refine ⟨hbits b, fun ⟨hn, hlo⟩ => ?_⟩
  rcases hsplit _ hn hlo with ⟨c, hc, heq⟩ | htodo'
  · obtain rfl : b = c := add_left_cancel heq
    exact hc
  · have := hlater _ htodo'
    omega

section
variable {p : Nat} {w : Word} (hfirst : ∀ n, hb.Leaf n → lo ≤ n → 64 * p ≤ n)
  (hbits : ∀ b, b < 64 → (w.getLsbD b = true ↔ hb.Leaf (64 * p + b) ∧ lo ≤ 64 * p + b))
include hfirst hbits

lemma countFrom_word {k : Nat} (hk : k ≤ 64) :
    count (fun b => w.getLsbD b = true) k = hb.countFrom lo (64 * p + k) := by
  have hnone : count (fun n => hb.Leaf n ∧ lo ≤ n) (64 * p) = 0 :=
    Nat.count_iff_forall_not.mpr fun n hn hleaf => by
      have := hfirst n hleaf.1 hleaf.2
      omega
  rw [HBitmap.countFrom, count_add, hnone, zero_add]
  exact count_congr fun b hb => hbits b (by omega)

lemma cpop_eq_countFrom : w.cpop.toNat = hb.countFrom lo (64 * p + 64) :=
  (cpop_eq_count w).trans (countFrom_word hfirst hbits (le_refl 64))

lemma cpop_and_lowMask {k : Nat} (hk : k < 64) :
    (w &&& lowMask k).cpop.toNat = hb.countFrom lo (64 * p + k) := by
  rw [← countFrom_word hfirst hbits hk.le, cpop_eq_count, count_stop hk.le fun b hb _ hbit => ?_]
  · refine count_congr fun b hb => ?_
    rw [getLsbD_and, getLsbD_lowMask hk, decide_eq_true hb, Bool.and_true]
  · rw [getLsbD_and, getLsbD_lowMask hk, decide_eq_false (Nat.not_lt_of_le hb),
      Bool.and_false] at hbit
    cases hbit
end

lemma countFrom_split {mid stop : Nat} (hlo : lo ≤ mid) (hmid : mid ≤ stop) :
    hb.countFrom lo stop = hb.countFrom lo mid + hb.countFrom mid stop := by
  obtain ⟨d, rfl⟩ := Nat.exists_eq_add_of_le hmid
  have hnone : hb.countFrom mid mid = 0 := Nat.count_iff_forall_not.mpr fun n hn h => by omega
  have hrest : Nat.count (fun k => hb.Leaf (mid + k) ∧ lo ≤ mid + k) d =
      Nat.count (fun k => hb.Leaf (mid + k) ∧ mid ≤ mid + k) d :=
    count_congr fun k _ => and_congr_right fun _ => by omega
  unfold HBitmap.countFrom at *
  rw [count_add, count_add _ mid d, hnone, zero_add, hrest]

lemma countWords_spec (h : hb.WellFormed) {stop fuel count : Nat} (hstop : stop ≤ 2 ^ 62)
    (hc : hbi.Complete hb lo) (hfuel : stop / 64 - lo / 64 < fuel) :
    ∃ p w c, countWords hb (stop / 64) fuel hbi count = some (p, w, c) ∧
      c + (if p = stop / 64 then (w &&& lowMask (stop % 64)).cpop.toNat else 0) =
        count + hb.countFrom lo stop := by
  induction fuel generalizing hbi lo count with
  | zero => exact absurd hfuel (not_lt_zero _)
  | succ fuel ih =>
    obtain ⟨p, w, hbi', hrun, hcase⟩ := iterNextWord_complete h hc
    rcases hcase with ⟨rfl, hnone⟩ | ⟨hc', hlo, hfirst, hbits⟩
    · have hzero : hb.countFrom lo stop = 0 :=
        Nat.count_iff_forall_not.mpr fun n _ hn => hnone n hn.1 hn.2
      refine ⟨2 ^ 64 - 1, w, count, ?_, ?_⟩
      · rw [countWords, hrun, Option.bind_some, if_pos (by omega)]
      · rw [if_neg (by omega), hzero]
    by_cases hend : stop / 64 ≤ p
    · refine ⟨p, w, count, by rw [countWords, hrun, bind_some, if_pos hend], ?_⟩
      by_cases hlast : p = stop / 64
      · rw [if_pos hlast, cpop_and_lowMask hfirst hbits (Nat.mod_lt _ (by decide)), hlast,
          Nat.div_add_mod]
      have hzero : hb.countFrom lo stop = 0 := Nat.count_iff_forall_not.mpr fun n hn hleaf => by
        have := hfirst n hleaf.1 hleaf.2
        omega
      rw [if_neg hlast, hzero]
    · obtain ⟨p', w', c, hloop, hsum⟩ := @ih (64 * p + 64) hbi' (count + w.cpop.toNat) hc' (by omega)
      refine ⟨p', w', c, by rw [countWords, hrun, bind_some, if_neg hend, hloop], ?_⟩
      rw [hsum, cpop_eq_countFrom hfirst hbits, add_assoc, ← countFrom_split hlo.le (by omega)]

lemma hbCountBetween_spec (h : hb.WellFormed) {start last : BitVec 64}
    (hscale : (start <<< hb.granularity) >>> hb.granularity = start) (hle : start.toNat ≤ last.toNat)
    (hlast : last.toNat < hb.size.toNat) : ∃ c, hbCountBetween hb start last = some c ∧
      c.toNat = hb.countFrom start.toNat (last.toNat + 1) := by
  have hsize := h.size_le
  unfold hbitmapLogMaxSize at hsize
  have hstop : (last + 1#64).toNat = last.toNat + 1 := by
    rw [toNat_add, show (1#64).toNat = 1 from rfl]
    omega
  obtain ⟨hbi, hinit, _, hinv, htodo⟩ := @iterInit_spec hb h (start <<< hb.granularity)
    (by rw [hscale]; omega)
  rw [hscale] at hinv htodo
  obtain ⟨p, w, c, hloop, hsum⟩ := @countWords_spec hb _ hbi h (last.toNat + 1)
    ((last.toNat + 1) / 64 + 1) 0 (by omega) ⟨hinv, htodo⟩ (by omega)
  refine ⟨_, by rw [hbCountBetween, hinit, bind_some, hstop, hloop, map_some], ?_⟩
  rw [zero_add] at hsum
  have hbound : hb.countFrom start.toNat (last.toNat + 1) ≤ last.toNat + 1 := Nat.count_le _
  rw [toNat_ofNat]
  rw [hsum, mod_eq_of_lt (by omega)]

end QemuVmi.Util
