import QemuVmi.Util.HBitmapLevels

/-!
# Iterating over a hierarchical bitmap

An `HBitmapIter` is a cursor in the tree of levels: `cur` has the pending bits of the
words on its path. The bitmap may change between the calls, as long as no group from
`lo` on is reset; `lo` is the first group at the start, and then the one behind the
last group that was returned.

1. `iterInit_spec`: a new iterator is to visit the groups from the first one on.
2. `currentWord_spec`: `hbitmap_iter_skip_words` finds the next word with a pending
   group, or there is none left. No assertion fails.
3. `iterNext_spec`, `iterNextWord_spec`: the lowest pending group, and all of the
   lowest word.
-/

namespace QemuVmi.Util

open BitWords RadixCursor

variable {hb : HBitmap} {lo : Nat} {hbi : HBitmapIter}

def PendingBit (cur : Nat → Word) (j b : Nat) : Prop :=
  (cur j).getLsbD b = true ∧ ¬ (j = 0 ∧ b = 63)

def HBitmapIter.Todo (hbi : HBitmapIter) (n : Nat) : Prop :=
  Covers 64 (hbitmapLevels - 1) (PendingBit hbi.cur) (hbitmapLevels - 1) hbi.pos n

structure HBitmapIter.Inv (hbi : HBitmapIter) (hb : HBitmap) (lo : Nat) : Prop where
  cursor : Cursor 64 (hbitmapLevels - 1) hb.Leaf lo (PendingBit hbi.cur) (hbitmapLevels - 1) hbi.pos
  sentinel : (hbi.cur 0).getLsbD 63 = true

lemma HBitmapIter.Inv.mono {hb' : HBitmap} (h : hbi.Inv hb lo)
    (hkeep : ∀ n, lo ≤ n → hb.Leaf n → hb'.Leaf n) : hbi.Inv hb' lo :=
  ⟨h.cursor.mono hkeep, h.sentinel⟩

lemma setCur_self (cur : Nat → Word) (i : Nat) : setCur cur i (cur i) = cur := by
  funext j
  unfold setCur
  split
  · next h => rw [h]
  · rfl

lemma setCur_at (cur : Nat → Word) (i : Nat) (w : Word) : setCur cur i w i = w := if_pos rfl

variable {cur : Nat → Word} {b f i : Nat}

lemma setCur_of_ne {j : Nat} {w : Word} (h : j ≠ i) : setCur cur i w j = cur j :=
  if_neg h

lemma not_pendingBit_of_zero (h : cur i = 0#64) (b : Nat) : ¬ PendingBit cur i b := by
  intro hb
  have hbit := hb.1
  rw [h, BitVec.getLsbD_zero] at hbit
  cases hbit

lemma ascend_spec {D pos : Nat} {S : Nat → Prop}
    (hcursor : Cursor 64 D S lo (PendingBit cur) i pos) (hzero : cur i = 0#64)
    (hsentinel : (cur 0).getLsbD 63 = true) :
    ∃ j pos', ascend cur i pos = some (j, pos') ∧ j < i ∧ cur j ≠ 0#64 ∧
      Cursor 64 D S lo (PendingBit cur) j pos' ∧
      ∀ n, Covers 64 D (PendingBit cur) i pos n ↔ Covers 64 D (PendingBit cur) j pos' n := by
  induction i generalizing pos with
  | zero =>
    rw [hzero, BitVec.getLsbD_zero] at hsentinel
    cases hsentinel
  | succ i ih =>
    have hdone : ∀ b, b < 64 → ¬ PendingBit cur (i + 1) b := fun b _ => not_pendingBit_of_zero hzero b
    have hup := hcursor.ascend hdone
    by_cases hnext : cur i = 0#64
    · obtain ⟨j, pos', hrun, hj, hne, hcur, hcovers⟩ := ih hup hnext
      refine ⟨j, pos', by rw [ascend, if_pos hnext, hrun], Nat.lt_succ_of_lt hj, hne, hcur, ?_⟩
      exact fun n => (covers_ascend hdone n).trans (hcovers n)
    · exact ⟨i, pos / 64, by rw [ascend, if_neg hnext], i.lt_succ_self, hnext, hup,
        covers_ascend hdone⟩

lemma descends_lowest (h : hb.WellFormed) {cur : Nat → Word} {i pos : Nat} {w : Word}
    (hi : i < hbitmapLevels - 1) (hw : w ≠ 0#64) (hnot : ¬ (i = 0 ∧ w.ctz.toNat = 63)) :
    Descends 64 (hbitmapLevels - 1) hb.Leaf (PendingBit (setCur cur i w))
      (PendingBit (setCur (setCur cur i (clearLowest w)) (i + 1)
        (hb.levels (i + 1) (64 * pos + w.ctz.toNat)))) i pos w.ctz.toNat where
  lt := ctz_lt hw
  entry := by
    refine ⟨?_, hnot⟩
    rw [setCur_at]
    exact BitVec.getLsbD_true_ctz_of_ne_zero hw
  lowest := by
    intro b _ hpending
    have hbit := hpending.1
    rw [setCur_at] at hbit
    exact ctz_le_of_getLsbD hbit
  upper := by
    intro j b hj
    unfold PendingBit
    rw [setCur_of_ne (by omega), setCur_of_ne (by omega), setCur_of_ne (by omega)]
  rest := by
    intro b _
    unfold PendingBit
    rw [setCur_of_ne (by omega), setCur_at, setCur_at, getLsbD_clearLowest hw, Bool.and_eq_true,
      decide_eq_true_iff]
    exact and_right_comm
  next := by
    intro c hc
    rw [← h.linked.entry_iff hi]
    unfold PendingBit HBitmap.Entry HBitmap.bitAt
    rw [setCur_at, bit_mul_add _ _ hc]
    refine and_congr_right fun _ => ?_
    exact iff_of_true (fun htop => absurd htop.1 (Nat.succ_ne_zero i))
      (fun htop => absurd htop.1 (Nat.succ_ne_zero i))

lemma descend_spec (h : hb.WellFormed) {cur : Nat → Word} {d i pos : Nat} {w : Word}
    (hd : i + d = hbitmapLevels - 1) (hw : w ≠ 0#64) (hnot : ¬ (i = 0 ∧ w.ctz.toNat = 63))
    (hsentinel : (setCur cur i w 0).getLsbD 63 = true)
    (hcursor : Cursor 64 (hbitmapLevels - 1) hb.Leaf lo (PendingBit (setCur cur i w)) i pos) :
    ∃ pos' w' cur', descend hb d i pos w cur = some (pos', w', cur') ∧ w' ≠ 0#64 ∧
      (⟨hbi.granularity, pos', setCur cur' (hbitmapLevels - 1) w'⟩ : HBitmapIter).Inv hb lo ∧
      ∀ n, hb.Leaf n → (Covers 64 (hbitmapLevels - 1) (PendingBit (setCur cur i w)) i pos n ↔
        (⟨hbi.granularity, pos', setCur cur' (hbitmapLevels - 1) w'⟩ : HBitmapIter).Todo n) := by
  induction d generalizing i pos w cur with
  | zero =>
    obtain rfl : i = hbitmapLevels - 1 := hd
    exact ⟨pos, w, cur, rfl, hw, ⟨hcursor, hsentinel⟩, fun n _ => Iff.rfl⟩
  | succ d ih =>
    have hi : i < hbitmapLevels - 1 := by omega
    have hstep := @descends_lowest hb h cur i pos w hi hw hnot
    obtain ⟨m, hm, hdiv⟩ := hcursor.live i _ (le_refl i) hstep.lt hstep.entry
    rw [Nat.sub_self, Nat.pow_zero, Nat.div_one] at hdiv
    -- the word below the bit exists and is not zero, since a group below the bit is set
    have hload : hb.load (i + 1) (64 * pos + w.ctz.toNat) =
        some (hb.levels (i + 1) (64 * pos + w.ctz.toNat)) := by
      have hleaf := h.load_of_leaf hm (i + 1)
      rwa [show hbitmapLevels - (i + 1) = hbitmapLevels - 1 - i by omega, hdiv] at hleaf
    have hne : hb.levels (i + 1) (64 * pos + w.ctz.toNat) ≠ 0#64 :=
      (h.linked i _ hi).mp ((h.linked.entry_iff hi.le _).mpr ⟨m, hm, hdiv⟩)
    have hsentinel' : (setCur (setCur cur i (clearLowest w)) (i + 1)
        (hb.levels (i + 1) (64 * pos + w.ctz.toNat)) 0).getLsbD 63 = true := by
      rw [setCur_of_ne (Nat.succ_ne_zero i).symm]
      by_cases hzero : i = 0
      · subst hzero
        rw [setCur_at] at hsentinel
        rw [setCur_at, getLsbD_clearLowest hw, hsentinel, Bool.true_and]
        exact decide_eq_true fun htop => hnot ⟨rfl, htop.symm⟩
      · rw [setCur_of_ne (Ne.symm hzero)] at hsentinel
        rwa [setCur_of_ne (Ne.symm hzero)]
    obtain ⟨pos', w', cur', hrun, hw', hinv, htodo⟩ := ih (by omega) hne
      (fun htop => Nat.succ_ne_zero i htop.1) hsentinel' (hcursor.descend (by decide) hi hstep)
    refine ⟨pos', w', cur', by rw [descend, if_neg hw, hload, Option.bind_some, hrun], hw', hinv, ?_⟩
    exact fun n hn => (hstep.covers_iff (by decide) hi hn).trans (htodo n hn)

lemma getLsbD_sentinel : ∀ k, k < 64 → sentinel.getLsbD k = decide (k = 63) := by decide

lemma not_pendingBit_sentinel (h : cur 0 = sentinel) (hb : b < 64) : ¬ PendingBit cur 0 b := by
  rintro ⟨hbit, hnot⟩
  rw [h, getLsbD_sentinel b hb] at hbit
  exact hnot ⟨rfl, of_decide_eq_true hbit⟩

lemma eq_sentinel_of_ctz {w : Word} (hw : w.ctz.toNat = 63) (hbit : w.getLsbD 63 = true) :
    w = sentinel := by
  apply BitVec.eq_of_getLsbD_eq
  intro k hk
  rw [getLsbD_sentinel k hk]
  by_cases htop : k = 63
  · rw [htop, hbit, decide_eq_true rfl]
  · rw [BitVec.getLsbD_false_of_lt_ctz (by omega), decide_eq_false htop]

/-- The word that a call works on: zero when nothing is left, and else the word of a
position from which the same groups are to be visited. -/
lemma currentWord_spec (h : hb.WellFormed) (hinv : hbi.Inv hb lo) :
    ∃ w hbi', currentWord hb hbi = some (w, hbi') ∧ hbi'.granularity = hbi.granularity ∧
      ((w = 0#64 ∧ hbi' = hbi ∧ ∀ n, hb.Leaf n → ¬ hbi.Todo n) ∨
        (w ≠ 0#64 ∧ { hbi' with cur := setCur hbi'.cur (hbitmapLevels - 1) w }.Inv hb lo ∧
          ∀ n, hb.Leaf n → (hbi.Todo n ↔
            { hbi' with cur := setCur hbi'.cur (hbitmapLevels - 1) w }.Todo n))) := by
  unfold currentWord
  by_cases hzero : hbi.cur (hbitmapLevels - 1) = 0#64
  · obtain ⟨j, pos, hrun, hj, hne, hcursor, hcovers⟩ := ascend_spec hinv.cursor hzero hinv.sentinel
    rw [if_pos hzero, hbitmapIterSkipWords, hrun, Option.bind_some]
    by_cases hend : j = 0 ∧ hbi.cur j = sentinel
    · obtain ⟨rfl, hsentinel⟩ := hend
      refine ⟨0#64, hbi, by rw [if_pos ⟨rfl, hsentinel⟩], rfl, .inl ⟨rfl, rfl, fun n _ htodo => ?_⟩⟩
      obtain ⟨k, b, hk, hb, hpending, _⟩ := (hcovers n).mp htodo
      obtain rfl : k = 0 := Nat.le_zero.mp hk
      exact not_pendingBit_sentinel hsentinel hb hpending
    have hnot : ¬ (j = 0 ∧ (hbi.cur j).ctz.toNat = 63) := by
      rintro ⟨rfl, hctz⟩
      exact hend ⟨rfl, eq_sentinel_of_ctz hctz hinv.sentinel⟩
    rw [← setCur_self hbi.cur j] at hcursor
    obtain ⟨pos', w, cur', hdown, hw, hinv', htodo⟩ := @descend_spec hb lo hbi h hbi.cur
      (hbitmapLevels - 1 - j) j pos (hbi.cur j) (by omega) hne hnot
      (by rw [setCur_self]; exact hinv.sentinel) hcursor
    refine ⟨w, { hbi with pos := pos', cur := cur' }, ?_, rfl, .inr ⟨hw, hinv', fun n hn => ?_⟩⟩
    · rw [if_neg hend, hdown, Option.bind_some, if_neg hw]
    · rw [setCur_self] at htodo
      exact (hcovers n).trans (htodo n hn)
  · refine ⟨_, hbi, if_neg hzero, rfl, .inr ⟨hzero, ?_⟩⟩
    rw [setCur_self]
    exact ⟨hinv, fun n _ => Iff.rfl⟩

lemma drops_word (hbi : HBitmapIter) (w w' : Word) (dropped : Nat → Prop)
    (hw' : ∀ b, b < 64 → (w'.getLsbD b = true ↔ w.getLsbD b = true ∧ ¬ dropped b)) :
    Drops 64 (hbitmapLevels - 1) (PendingBit (setCur hbi.cur (hbitmapLevels - 1) w))
      (PendingBit (setCur hbi.cur (hbitmapLevels - 1) w')) dropped where
  upper := by
    intro j b hj
    unfold PendingBit
    rw [setCur_of_ne hj.ne, setCur_of_ne hj.ne]
  rest := by
    intro b hb
    unfold PendingBit
    rw [setCur_at, setCur_at, hw' b hb]
    exact and_right_comm

lemma pendingBit_last {cur : Nat → Word} {w : Word} {b : Nat} :
    PendingBit (setCur cur (hbitmapLevels - 1) w) (hbitmapLevels - 1) b ↔ w.getLsbD b = true := by
  unfold PendingBit
  rw [setCur_at]
  exact and_iff_left fun htop => absurd htop.1 (by decide)

variable {dropped : Nat → Prop}

section
variable {w w' : Word} (hinv : { hbi with cur := setCur hbi.cur (hbitmapLevels - 1) w }.Inv hb lo)
include hinv

lemma HBitmapIter.Inv.leaf_of_bit (hbit : w.getLsbD b = true) :
    hb.Leaf (64 * hbi.pos + b) ∧ lo ≤ 64 * hbi.pos + b := by
  have hb := BitVec.lt_of_getLsbD hbit
  have hpending := (@pendingBit_last hbi.cur w b).mpr hbit
  obtain ⟨m, hm, hdiv⟩ := hinv.cursor.live _ _ (Nat.le_refl _) hb hpending
  simp only [Nat.sub_self, Nat.pow_zero, Nat.div_one] at hdiv
  subst hdiv
  exact ⟨hm, hinv.cursor.above _ (covers_leaf hb hpending rfl)⟩

lemma HBitmapIter.Inv.drop {lo' : Nat}
    (hw' : ∀ b, b < 64 → (w'.getLsbD b = true ↔ w.getLsbD b = true ∧ ¬ dropped b))
    (hlo : lo' ≤ 64 * hbi.pos + 64)
    (hrest : ∀ b, b < 64 → w.getLsbD b = true → ¬ dropped b → lo' ≤ 64 * hbi.pos + b) :
    { hbi with cur := setCur hbi.cur (hbitmapLevels - 1) w' }.Inv hb lo' where
  cursor := hinv.cursor.drop (drops_word hbi w w' dropped hw') hlo fun b hb hpending =>
    hrest b hb (pendingBit_last.mp hpending)
  sentinel := hinv.sentinel
end

lemma todo_drop {w w' : Word}
    (hw' : ∀ b, b < 64 → (w'.getLsbD b = true ↔ w.getLsbD b = true ∧ ¬ dropped b)) (n : Nat) :
    { hbi with cur := setCur hbi.cur (hbitmapLevels - 1) w }.Todo n ↔
      (∃ b, w.getLsbD b = true ∧ dropped b ∧ n = 64 * hbi.pos + b) ∨
        { hbi with cur := setCur hbi.cur (hbitmapLevels - 1) w' }.Todo n := by
  refine ((drops_word hbi w w' dropped hw').covers_iff n).trans (or_congr_left ?_)
  refine exists_congr fun b => ?_
  rw [pendingBit_last]
  exact ⟨fun h => h.2, fun h => ⟨BitVec.lt_of_getLsbD h.1, h⟩⟩

/-- `hbitmap_iter_next` returns the lowest group that is still to be visited, or -1. -/
lemma iterNext_spec (h : hb.WellFormed) (hinv : hbi.Inv hb lo) :
    ∃ r hbi', hbitmapIterNext hb hbi = some (r, hbi') ∧ hbi'.granularity = hbi.granularity ∧
      ((r = -1 ∧ hbi' = hbi ∧ ∀ n, hb.Leaf n → ¬ hbi.Todo n) ∨
        ∃ m, r = (BitVec.ofNat 64 m <<< hbi.granularity).toInt ∧ hb.Leaf m ∧ lo ≤ m ∧
          hbi'.Inv hb (m + 1) ∧ ∀ n, hb.Leaf n → (hbi.Todo n ↔ n = m ∨ hbi'.Todo n)) := by
  obtain ⟨w, hbi₁, hword, hg, hcase⟩ := currentWord_spec h hinv
  rcases hcase with ⟨rfl, rfl, hnone⟩ | ⟨hw, hinv₁, htodo⟩
  · exact ⟨-1, hbi₁, by rw [hbitmapIterNext, hword, Option.map_some, if_pos rfl], rfl,
      .inl ⟨rfl, rfl, hnone⟩⟩
  have hdrop : ∀ b, b < 64 → ((clearLowest w).getLsbD b = true ↔
      w.getLsbD b = true ∧ ¬ b = w.ctz.toNat) := fun b _ => by
    rw [getLsbD_clearLowest hw, Bool.and_eq_true, decide_eq_true_iff]
  have hbit := BitVec.getLsbD_true_ctz_of_ne_zero hw
  obtain ⟨hleaf, hlo⟩ := hinv₁.leaf_of_bit hbit
  have hrun : hbitmapIterNext hb hbi =
      some ((BitVec.ofNat 64 (64 * hbi₁.pos + w.ctz.toNat) <<< hbi₁.granularity).toInt,
        { hbi₁ with cur := setCur hbi₁.cur (hbitmapLevels - 1) (clearLowest w) }) := by
    rw [hbitmapIterNext, hword, Option.map_some, if_neg hw]
  refine ⟨_, _, hrun, hg, .inr ⟨_, by rw [hg], hleaf, hlo, ?_, fun n hn => ?_⟩⟩
  · refine hinv₁.drop hdrop ?_ fun b _ hb hne => ?_
    · have := ctz_lt hw
      omega
    · have := ctz_le_of_getLsbD hb
      omega
  · rw [htodo n hn, todo_drop hdrop]
    refine or_congr_left ⟨?_, fun hn => ⟨_, hbit, rfl, hn⟩⟩
    rintro ⟨b, _, rfl, hn⟩
    exact hn

/-- `hbitmap_iter_next_word` returns the groups of the lowest word that has some. -/
lemma iterNextWord_spec (h : hb.WellFormed) (hinv : hbi.Inv hb lo) :
    ∃ p w hbi', hbitmapIterNextWord hb hbi = some (p, w, hbi') ∧
      ((p = 2 ^ 64 - 1 ∧ w = 0#64 ∧ ∀ n, hb.Leaf n → ¬ hbi.Todo n) ∨
        (w ≠ 0#64 ∧ hbi'.Inv hb (64 * p + 64) ∧
          (∀ b, w.getLsbD b = true → hb.Leaf (64 * p + b) ∧ lo ≤ 64 * p + b) ∧ ∀ n, hb.Leaf n →
            (hbi.Todo n ↔ (∃ b, w.getLsbD b = true ∧ n = 64 * p + b) ∨ hbi'.Todo n))) := by
  obtain ⟨w, hbi₁, hword, hg, hcase⟩ := currentWord_spec h hinv
  rcases hcase with ⟨rfl, rfl, hnone⟩ | ⟨hw, hinv₁, htodo⟩
  · exact ⟨_, _, hbi₁, by rw [hbitmapIterNextWord, hword, Option.map_some, if_pos rfl],
      .inl ⟨rfl, rfl, hnone⟩⟩
  have hdrop : ∀ b, b < 64 → ((0#64).getLsbD b = true ↔ w.getLsbD b = true ∧ ¬ True) := fun b _ => by
    simp
  refine ⟨_, _, _, by rw [hbitmapIterNextWord, hword, Option.map_some, if_neg hw],
    .inr ⟨hw, ?_, fun b hb => hinv₁.leaf_of_bit hb, fun n hn => ?_⟩⟩
  · exact hinv₁.drop hdrop (le_refl _) fun b _ _ hnot => absurd trivial hnot
  · rw [htodo n hn, todo_drop hdrop]
    exact or_congr_left (exists_congr fun b => and_congr_right fun _ => iff_of_eq (true_and _))

/-- The place of the path to the group `f` in the word of level `i`. -/
def pathBit (f i : Nat) : Nat := f / 64 ^ (hbitmapLevels - 1 - i) % 64

/-- The pending bits of level `i` on the path to the group `f`. -/
def initWord (hb : HBitmap) (f i : Nat) : Word :=
  let w := hb.levels i (f / 64 ^ (hbitmapLevels - i)) &&& ~~~ lowMask (pathBit f i)
  if i ≠ hbitmapLevels - 1 then w &&& ~~~ (1#64 <<< pathBit f i) else w

lemma initLevels_spec (hf : f < hb.size.toNat) (hi : i ≤ hbitmapLevels) (cur : Nat → Word) :
    ∃ cur', initLevels hb i (f / 64 ^ (hbitmapLevels - i)) cur = some cur' ∧
      ∀ j, cur' j = if j < i then initWord hb f j else cur j := by
  induction i generalizing cur with
  | zero => exact ⟨cur, rfl, fun j => (if_neg (Nat.not_lt_zero j)).symm⟩
  | succ i ih =>
    have hlevel : hbitmapLevels - i = hbitmapLevels - 1 - i + 1 := by omega
    have hword : f / 64 ^ (hbitmapLevels - 1 - i) / 64 = f / 64 ^ (hbitmapLevels - i) := by
      rw [Nat.div_div_eq_div_mul, hlevel, pow_succ]
    have hload : hb.load i (f / 64 ^ (hbitmapLevels - i)) =
        some (hb.levels i (f / 64 ^ (hbitmapLevels - i))) := load_eq (div_pow_lt_levelWords hf _)
    obtain ⟨cur', hrun, hcur'⟩ := ih (by omega) (setCur cur i (initWord hb f i))
    refine ⟨cur', ?_, fun j => ?_⟩
    · rw [show hbitmapLevels - (i + 1) = hbitmapLevels - 1 - i by omega, initLevels, hword, hload,
        Option.bind_some]
      exact hrun
    rw [hcur' j]
    rcases lt_trichotomy j i with hlt | rfl | hlt
    · rw [if_pos hlt, if_pos (Nat.lt_succ_of_lt hlt)]
    · rw [if_neg (lt_irrefl j), if_pos j.lt_succ_self, setCur_at]
    · rw [if_neg (by omega), if_neg (by omega), setCur_of_ne (by omega)]

lemma pathBit_lt (f i : Nat) : pathBit f i < 64 := Nat.mod_lt _ (by decide)

lemma getLsbD_initWord (hlt : b < 64) : (initWord hb f i).getLsbD b = true ↔
    hb.bitAt i (64 * (f / 64 ^ (hbitmapLevels - i)) + b) = true ∧
      if i = hbitmapLevels - 1 then pathBit f i ≤ b else pathBit f i < b := by
  have hpath := pathBit_lt f i
  have hlow : (hb.levels i (f / 64 ^ (hbitmapLevels - i)) &&& ~~~ lowMask (pathBit f i)).getLsbD b =
      true ↔ hb.bitAt i (64 * (f / 64 ^ (hbitmapLevels - i)) + b) = true ∧ pathBit f i ≤ b := by
    rw [HBitmap.bitAt, bit_mul_add _ _ hlt, BitVec.getLsbD_and, BitVec.getLsbD_not,
      getLsbD_lowMask hpath, decide_eq_true hlt, Bool.true_and, Bool.and_eq_true,
      Bool.not_eq_true', decide_eq_false_iff_not, not_lt]
  unfold initWord
  by_cases hi : i = hbitmapLevels - 1
  · rw [if_neg fun hne => hne hi, if_pos hi, hlow]
  rw [if_pos hi, if_neg hi, BitVec.getLsbD_and, Bool.and_eq_true, hlow, BitVec.getLsbD_not,
    getLsbD_one_shiftLeft hpath, decide_eq_true hlt, Bool.true_and, Bool.not_eq_true',
    decide_eq_false_iff_not, and_assoc]
  exact and_congr_right fun _ => by omega

lemma div_top_lt {n : Nat} (h : hb.WellFormed) (hn : n < hb.size.toNat) : n / 64 ^ 6 < 32 := by
  have hsize := h.size_le
  unfold hbitmapLogMaxSize at hsize
  omega

lemma iterInit_spec (h : hb.WellFormed) {first : BitVec 64}
    (hfirst : (first >>> hb.granularity).toNat < hb.size.toNat) :
    ∃ hbi, hbitmapIterInit hb first = some hbi ∧ hbi.granularity = hb.granularity ∧
      hbi.Inv hb (first >>> hb.granularity).toNat ∧
      ∀ n, hb.Leaf n → (first >>> hb.granularity).toNat ≤ n → hbi.Todo n := by
  generalize hf : (first >>> hb.granularity).toNat = f at hfirst ⊢
  obtain ⟨cur, hrun, hcur⟩ := initLevels_spec hfirst (le_refl hbitmapLevels) fun _ => 0#64
  rw [Nat.sub_self, Nat.pow_zero, Nat.div_one] at hrun
  have hword : ∀ j, j < hbitmapLevels → cur j = initWord hb f j := fun j hj =>
    (hcur j).trans (if_pos hj)
  have htop := div_top_lt h hfirst
  have hroot : ∀ n, n < hb.size.toNat → n / 64 ^ 7 = 0 := fun n hn => by
    have := div_top_lt h hn
    omega
  have hstart : Starts 64 (hbitmapLevels - 1) hb.Entry (PendingBit cur) f := by
    refine ⟨fun b hlt => ?_, fun j b hj hlt => ?_⟩
    · unfold PendingBit HBitmap.Entry
      rw [hword _ (by decide), getLsbD_initWord hlt, if_pos rfl, and_right_comm]
      have hsame : pathBit f (hbitmapLevels - 1) = f % 64 := by
        rw [pathBit, Nat.sub_self, Nat.pow_zero, Nat.div_one]
      have hone : f / 64 ^ (hbitmapLevels - (hbitmapLevels - 1)) = f / 64 := by
        rw [show hbitmapLevels - (hbitmapLevels - 1) = 1 from rfl, pow_one]
      rw [hsame, hone]
      refine and_congr_left fun _ => and_congr_right fun _ => ?_
      exact iff_of_true (fun hz => absurd hz.1 (by decide)) (fun hz => absurd hz.1 (by decide))
    · unfold PendingBit HBitmap.Entry
      rw [hword j (by omega), getLsbD_initWord hlt, if_neg hj.ne, and_right_comm]
      refine and_congr_left fun _ => and_congr_right fun _ => not_congr (and_congr_right ?_)
      rintro rfl
      have hzero : f / 64 ^ (hbitmapLevels - 1 + 1 - 0) = 0 := hroot f hfirst
      rw [hzero, mul_zero, zero_add]
  have hlevel : ∀ l, l ≤ hbitmapLevels - 1 → ∀ n, hb.Entry l n ↔
      ∃ m, hb.Leaf m ∧ m / 64 ^ (hbitmapLevels - 1 - l) = n := fun l hl n => h.linked.entry_iff hl n
  have hsentinel : (cur 0).getLsbD 63 = true := by
    have hzero : f / 64 ^ (hbitmapLevels - 0) = 0 := hroot f hfirst
    rw [hword 0 (by decide), getLsbD_initWord (by decide), hzero, if_neg (by decide)]
    refine ⟨h.sentinel, ?_⟩
    have hpath : pathBit f 0 = f / 64 ^ 6 % 64 := rfl
    omega
  refine ⟨⟨hb.granularity, f / 64, cur⟩, ?_, rfl, ⟨hstart.cursor hlevel, hsentinel⟩,
    fun n hn hle => ?_⟩
  · rw [hbitmapIterInit, hf, if_pos hfirst, hrun, Option.map_some]
  · exact hstart.covers hlevel (by decide) hn hle
      ((hroot n (h.leaf_lt n hn)).trans (hroot f hfirst).symm)

end QemuVmi.Util
