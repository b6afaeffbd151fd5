import QemuVmi.Util.HBitmap
import QemuVmi.Lib.RadixCursor

/-!
# Setting and resetting ranges of a hierarchical bitmap

Both recursions go from the last level up: one level is changed on a range, and as
long as words became nonzero (or zero) the level above is changed on the range of
these words. The argument is the same for both, over the value `v` that the bits of
the range get.

1. `setLevel_spec`, `resetLevel_spec`: what one level does, and that the range it
   hands up covers exactly the words whose state changed.
2. `between_linked`: the recursion leaves every level linked to the next one.
3. `Linked.entry_iff`: in linked levels, each bit tells whether there is a bit of the
   last level below it.
-/

namespace QemuVmi.Util

open BitWords RadixCursor

variable {hb hb' hb'' : HBitmap} {level start last a b c : Nat} {v : Bool}

/-- The bit `n` of a level. -/
def HBitmap.bitAt (hb : HBitmap) (level n : Nat) : Bool := bit (hb.levels level) n

/-- The bits of a level from `a` to `b` have become `v`, and nothing else has changed. -/
structure Filled (hb hb' : HBitmap) (level : Nat) (v : Bool) (a b : Nat) : Prop where
  size : hb'.size = hb.size
  count : hb'.count = hb.count
  granularity : hb'.granularity = hb.granularity
  other : ∀ l, l ≠ level → hb'.levels l = hb.levels l
  bits : ∀ n, hb'.bitAt level n = if a ≤ n ∧ n < b then v else hb.bitAt level n

variable {i j l m size : Nat}

section
variable (h : Filled hb hb' level v a b)
include h

lemma Filled.trans (h' : Filled hb' hb'' level v b c)
    (hab : a ≤ b) (hbc : b ≤ c) : Filled hb hb'' level v a c where
  size := h'.size.trans h.size
  count := h'.count.trans h.count
  granularity := h'.granularity.trans h.granularity
  other := fun l hl => (h'.other l hl).trans (h.other l hl)
  bits := by
    intro n
    rw [h'.bits, h.bits]
    by_cases hlow : a ≤ n ∧ n < b
    · rw [if_neg (by omega), if_pos hlow, if_pos (by omega)]
    · by_cases hhigh : b ≤ n ∧ n < c
      · rw [if_pos hhigh, if_pos (by omega)]
      · rw [if_neg hhigh, if_neg hlow, if_neg (by omega)]

lemma Filled.words (l : Nat) : hb'.words l = hb.words l := by
  unfold HBitmap.words
  rw [h.size]

lemma Filled.word_eq (hj : 64 * j + 64 ≤ a ∨ b ≤ 64 * j) :
    hb'.levels level j = hb.levels level j := by
  apply BitVec.eq_of_getLsbD_eq
  intro k hk
  have hbits := h.bits (64 * j + k)
  rw [if_neg (by omega)] at hbits
  unfold HBitmap.bitAt at hbits
  rwa [bit_mul_add _ _ hk, bit_mul_add _ _ hk] at hbits

lemma Filled.word_ne_zero_iff (hab : a < b)
    (ha : a ≤ 64 * j + 63) (hb : 64 * j < b) (hv : v = false → a ≤ 64 * j ∧ 64 * j + 64 ≤ b) :
    hb'.levels level j ≠ 0#64 ↔ v = true := by
  rw [BitWords.word_ne_zero_iff]
  cases v with
  | false =>
    refine iff_of_false ?_ Bool.false_ne_true
    rintro ⟨k, hk, hbit⟩
    have hbits := h.bits (64 * j + k)
    have hin := hv rfl
    rw [if_pos (by omega)] at hbits
    exact absurd (hbits.symm.trans hbit) Bool.false_ne_true
  | true =>
    refine iff_of_true ⟨max a (64 * j) - 64 * j, by omega, ?_⟩ rfl
    have hbits := h.bits (64 * j + (max a (64 * j) - 64 * j))
    rwa [if_pos (by omega)] at hbits
end

lemma filled_store {w : Word} (ha : 64 * i ≤ a) (hb' : b ≤ 64 * i + 64)
    (hw : ∀ k, k < 64 → w.getLsbD k =
      if a ≤ 64 * i + k ∧ 64 * i + k < b then v else (hb.levels level i).getLsbD k) :
    Filled hb (hb.store level i w) level v a b where
  size := rfl
  count := rfl
  granularity := rfl
  other := fun l hl => funext fun j => if_neg fun h => hl h.1
  bits := by
    intro n
    unfold HBitmap.bitAt HBitmap.store bit
    by_cases hn : n / 64 = i
    · have hsplit : 64 * i + n % 64 = n := by omega
      have hk := hw (n % 64) (Nat.mod_lt n (by decide))
      rw [hsplit] at hk
      simp only [hn, and_self, if_true, hk]
    · simp only [hn, and_false, if_false]
      rw [if_neg (by omega)]

lemma load_eq (hi : i < hb.words level) : hb.load level i = some (hb.levels level i) :=
  if_pos hi

section
variable {i : Nat} (hi : i < hb.words level) (hstart : start / 64 = i) (hlast : last / 64 = i)
  (hle : start ≤ last)
include hi hstart hlast hle

lemma onElem_set : ∃ hb', hb.onElem hbSetElem level i start last =
      some (hb', decide (hb.levels level i = 0#64)) ∧
    Filled hb hb' level true start (last + 1) := by
  refine ⟨_, by rw [HBitmap.onElem, load_eq hi, Option.bind_some, hbSetElem,
    if_pos ⟨hlast.trans hstart.symm, hle⟩, Option.map_some], filled_store (by omega) (by omega) ?_⟩
  intro k hk
  rw [BitVec.getLsbD_or, getLsbD_rangeMask (by omega) (Nat.mod_lt _ (by decide))]
  by_cases hin : start ≤ 64 * i + k ∧ 64 * i + k < last + 1
  · rw [if_pos hin, decide_eq_true (by omega), Bool.or_true]
  · rw [if_neg hin, decide_eq_false (by omega), Bool.or_false]

lemma onElem_reset : ∃ hb', hb.onElem hbResetElem level i start last =
      some (hb', decide (hb.levels level i ≠ 0#64 ∧ hb'.levels level i = 0#64)) ∧
    Filled hb hb' level false start (last + 1) := by
  have hstored : ∀ w, (hb.store level i w).levels level i = w := fun w => if_pos ⟨rfl, rfl⟩
  refine ⟨hb.store level i (hb.levels level i &&& ~~~ rangeMask (start % 64) (last % 64)), ?_,
    filled_store (by omega) (by omega) ?_⟩
  · rw [HBitmap.onElem, load_eq hi, Option.bind_some, hbResetElem,
      if_pos ⟨hlast.trans hstart.symm, hle⟩, Option.map_some, hstored]
  intro k hk
  rw [BitVec.getLsbD_and, BitVec.getLsbD_not,
    getLsbD_rangeMask (by omega) (Nat.mod_lt _ (by decide)), decide_eq_true hk, Bool.true_and]
  by_cases hin : start ≤ 64 * i + k ∧ 64 * i + k < last + 1
  · rw [if_pos hin, decide_eq_true (by omega), Bool.not_true, Bool.and_false]
  · rw [if_neg hin, decide_eq_false (by omega), Bool.not_false, Bool.and_true]
end

lemma fillWords_spec {fill : Word} {hit : Word → Bool} {lastpos fuel i : Nat} {changed : Bool}
    (hfill : ∀ k, k < 64 → fill.getLsbD k = v) (hi : i < lastpos)
    (hlastpos : lastpos ≤ hb.words level) (hfuel : lastpos - i ≤ fuel) :
    ∃ hb' changed', fillWords fill hit level lastpos fuel hb i (64 * (i + 1)) changed =
        some (hb', 64 * lastpos, changed') ∧ Filled hb hb' level v (64 * (i + 1)) (64 * lastpos) ∧
      (changed' = true ↔
        changed = true ∨ ∃ j, i < j ∧ j < lastpos ∧ hit (hb.levels level j) = true) := by
  induction fuel generalizing hb i changed with
  | zero => omega
  | succ fuel ih =>
    by_cases hend : i + 1 = lastpos
    · subst hend
      refine ⟨hb, changed, by rw [fillWords, if_pos rfl], ?_, ?_⟩
      · exact ⟨rfl, rfl, rfl, fun _ _ => rfl, fun n => (if_neg (by omega)).symm⟩
      refine ⟨.inl, ?_⟩
      rintro (h | ⟨j, _, _, _⟩)
      · exact h
      · omega
    · have hfirst : Filled hb (hb.store level (i + 1) fill) level v (64 * (i + 1))
          (64 * (i + 1 + 1)) := by
        refine filled_store (le_refl _) (by omega) fun k hk => ?_
        rw [hfill k hk, if_pos (by omega)]
      obtain ⟨hb', changed', hrun, hfilled, hchanged⟩ :=
        @ih (hb.store level (i + 1) fill) (i + 1) (changed || hit (hb.levels level (i + 1)))
          (by omega) hlastpos (by omega)
      refine ⟨hb', changed', ?_, hfirst.trans hfilled (by omega) (by omega), ?_⟩
      · rwa [fillWords, if_neg hend, load_eq (by omega), Option.bind_some]
      rw [hchanged, Bool.or_eq_true, or_assoc]
      refine or_congr_right ⟨?_, ?_⟩
      · rintro (h | ⟨j, hij, hj, h⟩)
        · exact ⟨i + 1, by omega, by omega, h⟩
        · rw [hfirst.word_eq (by omega)] at h
          exact ⟨j, by omega, hj, h⟩
      rintro ⟨j, hij, hj, h⟩
      rcases (Nat.succ_le_of_lt hij).lt_or_eq with hlt | rfl
      · exact .inr ⟨j, hlt, hj, by rwa [hfirst.word_eq (by omega)]⟩
      · exact .inl h

/-- What one level does for the value `v`. The range for the level above has words that
are nonzero exactly when `v` is set, and outside of it no word became zero or stopped
being zero. -/
structure LevelStep (v : Bool) (hb : HBitmap) (level start last : Nat) (r : LevelResult) : Prop where
  filled : Filled hb r.hb level v start (last + 1)
  same : ∀ j, (r.changed = true → ¬ (r.pos ≤ j ∧ j ≤ r.lastpos)) →
    (r.hb.levels level j ≠ 0#64 ↔ hb.levels level j ≠ 0#64)
  range : r.changed = true → r.pos ≤ r.lastpos ∧ r.lastpos ≤ last / 64
  handed : r.changed = true → ∀ j, r.pos ≤ j → j ≤ r.lastpos →
    (r.hb.levels level j ≠ 0#64 ↔ v = true)

lemma next_eq (start : Nat) : (start ||| 63) + 1 = 64 * (start / 64 + 1) := by
  rw [or_sixtyThree, mul_add]

/-- A range over several words: the first word, the words in between and the last one.
No part touches a word of another, so `flag` sees at both ends the word before all
of them and the word after all of them. -/
lemma fillRange_spec {elemFn : Word → Nat → Nat → Option (Word × Bool)}
    {flag : Word → Word → Bool} {fill : Word} {hit : Word → Bool}
    (helem : ∀ (hb : HBitmap) (level start last i : Nat), i < hb.words level → start / 64 = i →
      last / 64 = i → start ≤ last → ∃ hb', hb.onElem elemFn level i start last =
          some (hb', flag (hb.levels level i) (hb'.levels level i)) ∧
        Filled hb hb' level v start (last + 1))
    (hfill : ∀ k, k < 64 → fill.getLsbD k = v) (hpos : start / 64 < last / 64)
    (hwords : last / 64 < hb.words level) : ∃ hb₁ hb₂ hb₃ first changed final,
      hb.onElem elemFn level (start / 64) start ((start ||| 63) + 1 - 1) = some (hb₁, first) ∧
      fillWords fill hit level (last / 64) (last / 64 - start / 64) hb₁ (start / 64)
        ((start ||| 63) + 1) first = some (hb₂, 64 * (last / 64), changed) ∧
      hb₂.onElem elemFn level (last / 64) (64 * (last / 64)) last = some (hb₃, final) ∧
      Filled hb hb₃ level v start (last + 1) ∧
      first = flag (hb.levels level (start / 64)) (hb₃.levels level (start / 64)) ∧
      final = flag (hb.levels level (last / 64)) (hb₃.levels level (last / 64)) ∧
      (changed = true ↔ first = true ∨
        ∃ j, start / 64 < j ∧ j < last / 64 ∧ hit (hb.levels level j) = true) := by
  have hnext := next_eq start
  obtain ⟨hb₁, hfirst, hfilled₁⟩ := helem hb level start ((start ||| 63) + 1 - 1) (start / 64)
    (by omega) rfl (by omega) (by omega)
  rw [show (start ||| 63) + 1 - 1 + 1 = 64 * (start / 64 + 1) by omega] at hfilled₁
  obtain ⟨hb₂, changed, hmiddle, hfilled₂, hchanged⟩ :=
    @fillWords_spec hb₁ level v fill hit (last / 64) (last / 64 - start / 64) (start / 64)
      (flag (hb.levels level (start / 64)) (hb₁.levels level (start / 64))) hfill hpos
      (by rw [hfilled₁.words]; omega) (le_refl _)
  obtain ⟨hb₃, hfinal, hfilled₃⟩ := helem hb₂ level (64 * (last / 64)) last (last / 64)
    (by rw [hfilled₂.words, hfilled₁.words]; exact hwords) (by omega) rfl (by omega)
  have hold : ∀ j, start / 64 < j → hb₁.levels level j = hb.levels level j := fun j hj =>
    hfilled₁.word_eq (by omega)
  have hlast : hb₂.levels level (last / 64) = hb.levels level (last / 64) :=
    (hfilled₂.word_eq (by omega)).trans (hold _ hpos)
  have hstart : hb₃.levels level (start / 64) = hb₁.levels level (start / 64) :=
    (hfilled₃.word_eq (by omega)).trans (hfilled₂.word_eq (by omega))
  refine ⟨hb₁, hb₂, hb₃, _, changed, _, hfirst, by rw [hnext]; exact hmiddle, hfinal, ?_, ?_, ?_, ?_⟩
  · exact (hfilled₁.trans hfilled₂ (by omega) (by omega)).trans hfilled₃ (by omega) (by omega)
  · rw [hstart]
  · rw [hlast]
  · rw [hchanged]
    refine or_congr_right (exists_congr fun j => and_congr_right fun hj => ?_)
    rw [hold j hj]

variable {changed : Bool}

lemma levelStep_set (hle : start ≤ last) (hfilled : Filled hb hb' level true start (last + 1))
    (hchanged : changed = true ↔ ∃ j, start / 64 ≤ j ∧ j ≤ last / 64 ∧ hb.levels level j = 0#64) :
    LevelStep true hb level start last ⟨hb', changed, start / 64, last / 64⟩ where
  filled := hfilled
  same := by
    intro j hj
    by_cases hin : start / 64 ≤ j ∧ j ≤ last / 64
    · have hne : hb.levels level j ≠ 0#64 := fun hzero =>
        hj (hchanged.mpr ⟨j, hin.1, hin.2, hzero⟩) hin
      refine iff_of_true ?_ hne
      exact (hfilled.word_ne_zero_iff (by omega) (by omega) (by omega) nofun).mpr rfl
    · rw [hfilled.word_eq (by omega)]
  range := fun _ => ⟨Nat.div_le_div_right hle, le_refl _⟩
  handed := fun _ j hpos hlastpos =>
    hfilled.word_ne_zero_iff (by omega) (by dsimp only at hpos; omega)
      (by dsimp only at hlastpos; omega) nofun

lemma setLevel_spec (hle : start ≤ last) (hwords : last / 64 < hb.words level) :
    ∃ r, setLevel hb level start last = some r ∧ LevelStep true hb level start last r := by
  unfold setLevel
  by_cases hpos : start / 64 < last / 64
  · obtain ⟨hb₁, hb₂, hb₃, first, changed, final, hfirst, hmiddle, hfinal, hfilled, rfl, rfl,
        hchanged⟩ :=
      @fillRange_spec hb level start last true hbSetElem (fun w _ => decide (w = 0#64))
        (BitVec.allOnes 64) (fun w => decide (w = 0#64))
        (fun _ _ _ _ _ hi hstart hlast hle => onElem_set hi hstart hlast hle)
        (fun k hk => by rw [BitVec.getLsbD_allOnes, decide_eq_true hk]) hpos hwords
    simp only [if_pos hpos, hfirst, hmiddle, hfinal, Option.bind_some, Option.map_some]
    refine ⟨_, rfl, levelStep_set hle hfilled ?_⟩
    simp only [Bool.or_eq_true, hchanged, decide_eq_true_iff]
    constructor
    · rintro ((h | ⟨j, hlow, hhigh, h⟩) | h)
      · exact ⟨_, le_refl _, hpos.le, h⟩
      · exact ⟨j, hlow.le, hhigh.le, h⟩
      · exact ⟨_, hpos.le, le_refl _, h⟩
    rintro ⟨j, hlow, hhigh, h⟩
    rcases hlow.lt_or_eq with hlow | rfl
    · rcases hhigh.lt_or_eq with hhigh | rfl
      · exact .inl (.inr ⟨j, hlow, hhigh, h⟩)
      · exact .inr h
    · exact .inl (.inl h)
  · have hsame : last / 64 = start / 64 :=
      le_antisymm (not_lt.mp hpos) (Nat.div_le_div_right hle)
    obtain ⟨hb₁, hfinal, hfilled⟩ := @onElem_set hb level start last (start / 64) (by omega) rfl hsame
      hle
    simp only [if_neg hpos, hfinal, Option.map_some]
    refine ⟨_, rfl, levelStep_set hle hfilled ?_⟩
    rw [decide_eq_true_iff]
    constructor
    · intro h
      exact ⟨_, le_refl _, hsame.symm.le, h⟩
    · rintro ⟨j, hlow, hhigh, h⟩
      obtain rfl : j = start / 64 := by omega
      exact h

lemma Filled.ne_zero_of_reset (h : Filled hb hb' level false a b)
    (hne : hb'.levels level j ≠ 0#64) : hb.levels level j ≠ 0#64 := by
  obtain ⟨k, hk, hbit⟩ := BitWords.word_ne_zero_iff.mp hne
  refine BitWords.word_ne_zero_iff.mpr ⟨k, hk, ?_⟩
  have hbits := (h.bits (64 * j + k)).symm.trans hbit
  split at hbits
  · cases hbits
  · exact hbits

lemma levelStep_reset {first final : Bool} (hpos : start / 64 < last / 64)
    (hfilled : Filled hb hb' level false start (last + 1)) (hfirst : first = true ↔
      hb.levels level (start / 64) ≠ 0#64 ∧ hb'.levels level (start / 64) = 0#64)
    (hfinal : final = true ↔
      hb.levels level (last / 64) ≠ 0#64 ∧ hb'.levels level (last / 64) = 0#64)
    (hchanged : changed = true ↔ (first = true ∨
      ∃ j, start / 64 < j ∧ j < last / 64 ∧ hb.levels level j ≠ 0#64) ∨ final = true) :
    LevelStep false hb level start last ⟨hb', changed, if first then start / 64 else start / 64 + 1,
      if final then last / 64 else last / 64 - 1⟩ where
  filled := hfilled
  same := by
    intro j hj
    dsimp only at hj ⊢
    refine ⟨hfilled.ne_zero_of_reset, fun hne hzero => ?_⟩
    rcases lt_trichotomy j (start / 64) with hlt | rfl | hlt
    · exact hne ((hfilled.word_eq (by omega)).symm.trans hzero)
    · have hf := hfirst.mpr ⟨hne, hzero⟩
      refine hj (hchanged.mpr (.inl (.inl hf))) ?_
      rw [if_pos hf]
      split <;> omega
    rcases lt_trichotomy j (last / 64) with hlt' | rfl | hlt'
    · refine hj (hchanged.mpr (.inl (.inr ⟨j, hlt, hlt', hne⟩))) ?_
      constructor
      · split <;> omega
      · split <;> omega
    · have hf := hfinal.mpr ⟨hne, hzero⟩
      refine hj (hchanged.mpr (.inr hf)) ?_
      rw [if_pos hf]
      split <;> omega
    · exact hne ((hfilled.word_eq (by omega)).symm.trans hzero)
  range := by
    intro hc
    dsimp only
    rcases hchanged.mp hc with (hf | ⟨j, hlow, hhigh, _⟩) | hf
    · rw [if_pos hf]
      split <;> omega
    · constructor
      · split <;> split <;> omega
      · split <;> omega
    · rw [if_pos hf]
      split <;> omega
  handed := by
    intro _ j hlow hhigh
    dsimp only at hlow hhigh
    refine iff_of_false (fun hne => hne ?_) Bool.false_ne_true
    rcases lt_trichotomy j (start / 64) with hlt | rfl | hlt
    · split at hlow <;> omega
    · split at hlow
      · next hf => exact (hfirst.mp hf).2
      · omega
    rcases lt_trichotomy j (last / 64) with hlt' | rfl | hlt'
    · by_contra hword
      exact absurd ((hfilled.word_ne_zero_iff (by omega) (by omega) (by omega)
        fun _ => by omega).mp hword) Bool.false_ne_true
    · split at hhigh
      · next hf => exact (hfinal.mp hf).2
      · omega
    · split at hhigh <;> omega

lemma levelStep_reset_one (hsame : last / 64 = start / 64)
    (hfilled : Filled hb hb' level false start (last + 1)) (hchanged : changed = true ↔
      hb.levels level (start / 64) ≠ 0#64 ∧ hb'.levels level (start / 64) = 0#64) :
    LevelStep false hb level start last
      ⟨hb', changed, start / 64, if changed then last / 64 else last / 64 - 1⟩ where
  filled := hfilled
  same := by
    intro j hj
    refine ⟨hfilled.ne_zero_of_reset, fun hne hzero => ?_⟩
    by_cases hword : j = start / 64
    · subst hword
      have hc := hchanged.mpr ⟨hne, hzero⟩
      refine hj hc ?_
      rw [if_pos hc, hsame]
      exact ⟨le_refl _, le_refl _⟩
    · exact hne ((hfilled.word_eq (by omega)).symm.trans hzero)
  range := by
    intro hc
    rw [if_pos hc, hsame]
    exact ⟨le_refl _, le_refl _⟩
  handed := by
    intro hc j hlow hhigh
    dsimp only at hc hlow hhigh ⊢
    rw [if_pos hc] at hhigh
    obtain rfl : j = start / 64 := by omega
    exact iff_of_false (fun hne => hne (hchanged.mp hc).2) Bool.false_ne_true

lemma resetLevel_spec (hle : start ≤ last) (hwords : last / 64 < hb.words level) :
    ∃ r, resetLevel hb level start last = some r ∧ LevelStep false hb level start last r := by
  unfold resetLevel
  by_cases hpos : start / 64 < last / 64
  · obtain ⟨hb₁, hb₂, hb₃, first, changed, final, hfirst, hmiddle, hfinal, hfilled, rfl, rfl,
        hchanged⟩ :=
      @fillRange_spec hb level start last false hbResetElem
        (fun w w' => decide (w ≠ 0#64 ∧ w' = 0#64)) 0#64 (fun w => decide (w ≠ 0#64))
        (fun _ _ _ _ _ hi hstart hlast hle => onElem_reset hi hstart hlast hle)
        (fun k _ => BitVec.getLsbD_zero) hpos hwords
    simp only [if_pos hpos, hfirst, hmiddle, hfinal, Option.bind_some, Option.map_some]
    refine ⟨_, rfl, levelStep_reset hpos hfilled decide_eq_true_iff decide_eq_true_iff ?_⟩
    rw [Bool.or_eq_true, hchanged]
    refine or_congr_left (or_congr_right (exists_congr fun j => and_congr_right fun _ => ?_))
    rw [decide_eq_true_iff]
  · have hsame : last / 64 = start / 64 :=
      le_antisymm (not_lt.mp hpos) (Nat.div_le_div_right hle)
    obtain ⟨hb₁, hfinal, hfilled⟩ := @onElem_reset hb level start last (start / 64) (by omega) rfl
      hsame hle
    simp only [if_neg hpos, hfinal, Option.map_some]
    exact ⟨_, rfl, levelStep_reset_one hsame hfilled decide_eq_true_iff⟩

def HBitmap.Entry (hb : HBitmap) (level n : Nat) : Prop :=
  hb.bitAt level n = true ∧ ¬ (level = 0 ∧ n = 63)

def HBitmap.Linked (hb : HBitmap) : Prop :=
  ∀ l n, l < hbitmapLevels - 1 → (hb.Entry l n ↔ hb.levels (l + 1) n ≠ 0#64)

/-- Levels that are linked but for a range of one level, where the words of the next
level are already nonzero exactly when `v` is set. -/
def LinkedBut (hb : HBitmap) (level : Nat) (v : Bool) (start last : Nat) : Prop :=
  ∀ l n, l < hbitmapLevels - 1 →
    if l = level ∧ start ≤ n ∧ n ≤ last then hb.levels (l + 1) n ≠ 0#64 ↔ v = true
    else hb.Entry l n ↔ hb.levels (l + 1) n ≠ 0#64

lemma div_lt_words (hlevel : level < hbitmapLevels) (h : a < hb.words (level + 1)) :
    a / 64 < hb.words level := by
  unfold HBitmap.words at *
  rw [show hbitmapLevels - level = hbitmapLevels - (level + 1) + 1 by omega, levelWords]
  omega

/-- The result of a recursion that starts at `level`. -/
structure BetweenResult (hb hb' : HBitmap) (level : Nat) (v : Bool) (start last : Nat) : Prop where
  size : hb'.size = hb.size
  count : hb'.count = hb.count
  granularity : hb'.granularity = hb.granularity
  below : ∀ l, level < l → hb'.levels l = hb.levels l
  bits : ∀ n, hb'.bitAt level n = if start ≤ n ∧ n < last + 1 then v else hb.bitAt level n
  linked : hb'.Linked
  sentinel : hb'.bitAt 0 63 = hb.bitAt 0 63

lemma Filled.betweenResult (h : Filled hb hb' level v start (last + 1)) (hlinked : hb'.Linked)
    (hsentinel : hb'.bitAt 0 63 = hb.bitAt 0 63) : BetweenResult hb hb' level v start last :=
  ⟨h.size, h.count, h.granularity, fun l hl => h.other l hl.ne', h.bits, hlinked,
    hsentinel⟩

lemma entry_congr {n : Nat} (h : hb'.levels l = hb.levels l) : hb'.Entry l n ↔ hb.Entry l n := by
  unfold HBitmap.Entry HBitmap.bitAt
  rw [h]

section
variable {r : LevelResult} (h : LevelStep v hb level start last r)
  (hlinked : LinkedBut hb level v start last) (hsafe : level = 0 → last < 63)
include h hlinked hsafe

lemma LevelStep.link_level (hlevel : level < hbitmapLevels - 1) (n : Nat) :
    r.hb.Entry level n ↔ r.hb.levels (level + 1) n ≠ 0#64 := by
  have hn := hlinked level n hlevel
  rw [h.filled.other _ (Nat.succ_ne_self level)]
  by_cases hin : start ≤ n ∧ n ≤ last
  · rw [if_pos ⟨rfl, hin⟩] at hn
    rw [hn, HBitmap.Entry, h.filled.bits, if_pos (by omega)]
    exact and_iff_left fun htop => by have := hsafe htop.1; omega
  · rw [if_neg fun hlow => hin hlow.2] at hn
    rw [← hn, HBitmap.Entry, h.filled.bits, if_neg (by omega), HBitmap.Entry]

lemma LevelStep.link (hl : l < hbitmapLevels - 1) (n : Nat) :
    if r.changed = true ∧ l + 1 = level ∧ r.pos ≤ n ∧ n ≤ r.lastpos then
      r.hb.levels (l + 1) n ≠ 0#64 ↔ v = true
    else r.hb.Entry l n ↔ r.hb.levels (l + 1) n ≠ 0#64 := by
  by_cases habove : l + 1 = level
  · have hn := hlinked l n hl
    rw [if_neg (by omega)] at hn
    subst habove
    split
    · next hin => exact h.handed hin.1 n hin.2.2.1 hin.2.2.2
    · next hout =>
      rw [entry_congr (h.filled.other l (Nat.succ_ne_self l).symm), hn]
      exact (h.same n fun hc hin => hout ⟨hc, rfl, hin⟩).symm
  · rw [if_neg fun hin => habove hin.2.1]
    by_cases hat : l = level
    · subst hat
      exact h.link_level hlinked hsafe hl n
    have hn := hlinked l n hl
    rw [if_neg fun hin => hat hin.1] at hn
    rwa [entry_congr (h.filled.other l hat), h.filled.other _ habove]

lemma LevelStep.linkedBut (hchanged : r.changed = true) (hlevel : 0 < level) :
    LinkedBut r.hb (level - 1) v r.pos r.lastpos := by
  intro l n hl
  have hn := h.link hlinked hsafe hl n
  have hiff : (r.changed = true ∧ l + 1 = level ∧ r.pos ≤ n ∧ n ≤ r.lastpos) ↔
      (l = level - 1 ∧ r.pos ≤ n ∧ n ≤ r.lastpos) := by
    rw [and_iff_right hchanged]
    omega
  simpa only [hiff] using hn

lemma LevelStep.linked (hdone : r.changed = false ∨ level = 0) : r.hb.Linked := by
  intro l n hl
  have hn := h.link hlinked hsafe hl n
  rwa [if_neg] at hn
  rintro ⟨hc, habove, _⟩
  rcases hdone with hdone | hdone
  · exact absurd (hdone.symm.trans hc) Bool.false_ne_true
  · omega
end

lemma LevelStep.sentinel {r : LevelResult} (h : LevelStep v hb level start last r)
    (hsafe : level = 0 → last < 63) : r.hb.bitAt 0 63 = hb.bitAt 0 63 := by
  by_cases hlevel : level = 0
  · subst hlevel
    rw [h.filled.bits, if_neg (by have := hsafe rfl; omega)]
  · unfold HBitmap.bitAt
    rw [h.filled.other 0 (Ne.symm hlevel)]

section
variable {levelFn : HBitmap → Nat → Nat → Nat → Option LevelResult}
  (hlevelFn : ∀ hb level start last, start ≤ last → last / 64 < hb.words level →
    ∃ r, levelFn hb level start last = some r ∧ LevelStep v hb level start last r)
include hlevelFn

lemma between_linked (hlevel : level < hbitmapLevels) (hle : start ≤ last)
    (hwords : last < hb.words (level + 1)) (htop : hb.words 1 ≤ 63)
    (hlinked : LinkedBut hb level v start last) :
    ∃ hb', between levelFn level hb start last = some hb' ∧
      BetweenResult hb hb' level v start last := by
  induction level generalizing hb start last with
  | zero =>
    have hsafe : 0 = 0 → last < 63 := fun _ => hwords.trans_le htop
    obtain ⟨r, hr, hstep⟩ := hlevelFn hb 0 start last hle (div_lt_words hlevel hwords)
    refine ⟨r.hb, by rw [between, hr, Option.map_some], ?_⟩
    exact hstep.filled.betweenResult (hstep.linked hlinked hsafe (.inr rfl)) (hstep.sentinel hsafe)
  | succ level ih =>
    have hsafe : level + 1 = 0 → last < 63 := nofun
    have hword := div_lt_words hlevel hwords
    obtain ⟨r, hr, hstep⟩ := hlevelFn hb (level + 1) start last hle hword
    cases hchanged : r.changed with
    | false =>
      refine ⟨r.hb, by rw [between, hr, Option.bind_some, hchanged]; rfl, ?_⟩
      exact hstep.filled.betweenResult (hstep.linked hlinked hsafe (.inl hchanged))
        (hstep.sentinel hsafe)
    | true =>
      obtain ⟨hpos, hlastpos⟩ := hstep.range hchanged
      obtain ⟨hb', hrun, hres⟩ := @ih r.hb r.pos r.lastpos (by omega) hpos
        (by rw [hstep.filled.words]; omega) (by rwa [hstep.filled.words])
        (hstep.linkedBut hlinked hsafe hchanged (Nat.succ_pos level))
      refine ⟨hb', by rw [between, hr, Option.bind_some, hchanged]; exact hrun, ?_⟩
      -- the levels above do not touch this one
      have hkept := hres.below _ level.lt_succ_self
      refine ⟨hres.size.trans hstep.filled.size, hres.count.trans hstep.filled.count,
        hres.granularity.trans hstep.filled.granularity, fun l hl => ?_, fun n => ?_, hres.linked,
        hres.sentinel.trans (hstep.sentinel hsafe)⟩
      · exact (hres.below l (by omega)).trans (hstep.filled.other l hl.ne')
      · rw [← hstep.filled.bits, HBitmap.bitAt, HBitmap.bitAt, hkept]
end

def HBitmap.Leaf (hb : HBitmap) (n : Nat) : Prop := hb.bitAt (hbitmapLevels - 1) n = true

/-- What every call keeps: the size fits, each level is linked to the next one, the
sentinel is set, and no group beyond the size is. -/
structure HBitmap.WellFormed (hb : HBitmap) : Prop where
  size_le : hb.size.toNat ≤ 2 ^ hbitmapLogMaxSize
  linked : hb.Linked
  sentinel : hb.bitAt 0 63 = true
  leaf_lt : ∀ n, hb.Leaf n → n < hb.size.toNat

lemma HBitmap.Linked.entry_iff (h : hb.Linked) (hl : l ≤ hbitmapLevels - 1) (n : Nat) :
    hb.Entry l n ↔ ∃ m, hb.Leaf m ∧ m / 64 ^ (hbitmapLevels - 1 - l) = n := by
  have hlast : ∀ m, hb.Entry (hbitmapLevels - 1) m ↔ hb.Leaf m := fun m =>
    and_iff_left fun htop => absurd htop.1 (by decide)
  have hlink : ∀ k, l ≤ k → k < hbitmapLevels - 1 → ∀ n,
      hb.Entry k n ↔ ∃ b, b < 64 ∧ hb.Entry (k + 1) (64 * n + b) := by
    intro k _ hk n
    rw [h k n hk, word_ne_zero_iff]
    refine exists_congr fun b => and_congr_right fun _ => ?_
    exact (and_iff_left fun htop => absurd htop.1 (Nat.succ_ne_zero k)).symm
  rw [summary_iff_leaf (by decide) hlink hl n]
  exact exists_congr fun m => and_congr_left fun _ => hlast m

lemma div_pow_lt_levelWords (hm : m < size) (k : Nat) : m / 64 ^ k < levelWords size k := by
  induction k with
  | zero => simpa [levelWords] using hm
  | succ k ih =>
    rw [pow_succ, ← Nat.div_div_eq_div_mul, levelWords]
    omega

lemma HBitmap.WellFormed.load_of_leaf (h : hb.WellFormed) (hm : hb.Leaf m) (l : Nat) :
    hb.load l (m / 64 ^ (hbitmapLevels - l)) = some (hb.levels l (m / 64 ^ (hbitmapLevels - l))) :=
  load_eq (div_pow_lt_levelWords (h.leaf_lt m hm) _)

lemma levelWords_six_le (h : size ≤ 2 ^ hbitmapLogMaxSize) : levelWords size 6 ≤ 32 := by
  unfold hbitmapLogMaxSize at h
  simp only [levelWords]
  omega

lemma HBitmap.WellFormed.words_one_le (h : hb.WellFormed) : hb.words 1 ≤ 63 :=
  (levelWords_six_le h.size_le).trans (by decide)

end QemuVmi.Util
