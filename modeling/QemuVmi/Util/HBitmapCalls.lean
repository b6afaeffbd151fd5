import QemuVmi.Util.HBitmapCount

/-!
# Sequences of calls on a hierarchical bitmap

Any number of `hbitmap_set` and `hbitmap_reset` calls on a bitmap that `hbitmap_alloc`
has returned.

1. `Call.run_spec`: what one call does to the groups and to the count.
2. `runCalls_spec`: after any calls, a group is set when the last call on it set it.
3. `hbitmap_calls_iff`: levels, groups and count are right after all calls, exactly when
   rounding the size up to whole groups did not wrap around.
-/

namespace QemuVmi.Util

open BitWords BitVec Bool Option List

variable {hb hb' : HBitmap}

/-- `hbitmap_set(hb, start, count)` when `value` is true, and `hbitmap_reset` else. -/
structure Call where
  value : Bool
  start : BitVec 64
  count : BitVec 64
deriving DecidableEq, Repr

def Call.run (hb : HBitmap) (c : Call) : Option HBitmap :=
  if c.value then hbitmapSet hb c.start c.count else hbitmapReset hb c.start c.count

def runCalls (hb : HBitmap) (calls : List Call) : Option HBitmap := calls.foldlM Call.run hb

/-- A nonempty range inside of a bitmap of `size` items. -/
def Call.Inside (c : Call) (size : BitVec 64) : Prop :=
  0 < c.count.toNat ∧ c.start.toNat + c.count.toNat ≤ size.toNat

/-- The range, rounded to groups of `2^g` items, has the group `n`. -/
def Call.Covers (c : Call) (g n : Nat) : Prop :=
  c.start.toNat / 2 ^ g ≤ n ∧ n ≤ (c.start.toNat + c.count.toNat - 1) / 2 ^ g

instance (c : Call) (g n : Nat) : Decidable (c.Covers g n) :=
  inferInstanceAs (Decidable (_ ∧ _))

def lastCall (g : Nat) (calls : List Call) (n : Nat) : Option Call :=
  calls.reverse.find? fun c => decide (c.Covers g n)

def HBitmap.Counted (hb : HBitmap) : Prop := hb.count.toNat = Nat.count hb.Leaf hb.size.toNat

structure CallResult (hb hb' : HBitmap) (c : Call) : Prop where
  wellFormed : hb'.WellFormed
  counted : hb'.Counted
  size : hb'.size = hb.size
  granularity : hb'.granularity = hb.granularity
  leaf : ∀ n, hb'.Leaf n ↔ if c.Covers hb.granularity n then c.value = true else hb.Leaf n

lemma between_spec {levelFn : HBitmap → Nat → Nat → Nat → Option LevelResult} {v : Bool}
    (hlevelFn : ∀ hb level start last, start ≤ last → last / 64 < hb.words level →
      ∃ r, levelFn hb level start last = some r ∧ LevelStep v hb level start last r)
    (h : hb.WellFormed) {count : BitVec 64} {start last : Nat} (hle : start ≤ last)
    (hlast : last < hb.size.toNat) :
    ∃ hb', between levelFn (hbitmapLevels - 1) { hb with count := count } start last = some hb' ∧
      hb'.WellFormed ∧ hb'.count = count ∧ hb'.size = hb.size ∧
      hb'.granularity = hb.granularity ∧
      ∀ n, hb'.Leaf n ↔ if start ≤ n ∧ n ≤ last then v = true else hb.Leaf n := by
  have hlinked : LinkedBut { hb with count := count } (hbitmapLevels - 1) v start last := by
    intro l n hl
    rw [if_neg fun hin => hl.ne hin.1]
    exact h.linked l n hl
  obtain ⟨hb', hrun, hres⟩ := @between_linked { hb with count := count } (hbitmapLevels - 1) start
    last v levelFn hlevelFn (by decide) hle hlast h.words_one_le hlinked
  have hleaf : ∀ n, hb'.Leaf n ↔ if start ≤ n ∧ n ≤ last then v = true else hb.Leaf n := by
    intro n
    unfold HBitmap.Leaf
    rw [hres.bits]
    by_cases hin : start ≤ n ∧ n ≤ last
    · rw [if_pos (by omega), if_pos hin]
    · rw [if_neg (by omega), if_neg hin]
      exact Iff.rfl
  refine ⟨hb', hrun, ⟨?_, hres.linked, ?_, fun n hn => ?_⟩, hres.count, hres.size, hres.granularity,
    hleaf⟩
  · rw [hres.size]
    exact h.size_le
  · rw [hres.sentinel]
    exact h.sentinel
  have hn' := (hleaf n).mp hn
  rw [hres.size]
  split at hn'
  · next hin => exact hin.2.trans_lt hlast
  · exact h.leaf_lt n hn'

variable {last start : Nat}

lemma countFrom_eq (hlast : last < hb.size.toNat) : hb.countFrom start (last + 1) =
      Nat.count (fun n => hb.Leaf n ∧ (start ≤ n ∧ n < last + 1)) hb.size.toNat := by
  rw [count_stop hlast fun n hn _ hin => by omega]
  exact count_congr fun n hn => by rw [and_iff_left hn]

lemma countFrom_le_interval (hle : start ≤ last)
    (hlast : last < hb.size.toNat) : hb.countFrom start (last + 1) ≤ last + 1 - start := by
  rw [countFrom_eq hlast, ← count_interval (by omega) (Nat.succ_le_of_lt hlast)]
  exact Nat.count_mono_left fun n _ => And.right

lemma countFrom_le_count (hlast : last < hb.size.toNat) (start : Nat) :
    hb.countFrom start (last + 1) ≤ Nat.count hb.Leaf hb.size.toNat := by
  rw [countFrom_eq hlast]
  exact Nat.count_mono_left fun n _ => And.left

lemma counted_fill {value : Bool} {added : Nat} (h : hb.Counted) (hlast : last < hb.size.toNat)
    (hsize : hb'.size = hb.size)
    (hadded : Nat.count (fun n => value ∧ start ≤ n ∧ n < last + 1) hb.size.toNat = added)
    (hcount : hb'.count.toNat + hb.countFrom start (last + 1) = hb.count.toNat + added)
    (hleaf : ∀ n, hb'.Leaf n ↔ if start ≤ n ∧ n ≤ last then value = true else hb.Leaf n) :
    hb'.Counted := by
  have hnew := @count_and_add_count_and_not hb'.Leaf (fun n => start ≤ n ∧ n < last + 1) _ _
    hb.size.toNat
  have hold := @count_and_add_count_and_not hb.Leaf (fun n => start ≤ n ∧ n < last + 1) _ _
    hb.size.toNat
  have hin : ∀ n < hb.size.toNat, (hb'.Leaf n ∧ start ≤ n ∧ n < last + 1 ↔
      value ∧ start ≤ n ∧ n < last + 1) := fun n _ =>
    and_congr_left fun hn => by rw [hleaf n, if_pos (by omega)]
  have hout : ∀ n < hb.size.toNat, (hb'.Leaf n ∧ ¬ (start ≤ n ∧ n < last + 1) ↔
      hb.Leaf n ∧ ¬ (start ≤ n ∧ n < last + 1)) := fun n _ =>
    and_congr_left fun hn => by rw [hleaf n, if_neg (by omega)]
  rw [count_congr hin, count_congr hout, hadded] at hnew
  rw [← countFrom_eq hlast] at hold
  unfold HBitmap.Counted at *
  rw [hsize]
  omega

section
variable {c : Call} {size : BitVec 64} (hc : c.Inside size)
include hc

lemma Call.Inside.toNat_last :
    (c.start + c.count - 1#64).toNat = c.start.toNat + c.count.toNat - 1 := by
  obtain ⟨hpos, hle⟩ := hc
  rw [toNat_sub, toNat_add, show (1#64).toNat = 1 from rfl]
  omega

lemma Call.Inside.toNat_last_group (g : Nat) : ((c.start + c.count - 1#64) >>> g).toNat =
    (c.start.toNat + c.count.toNat - 1) / 2 ^ g := by
  rw [toNat_ushiftRight, hc.toNat_last, Nat.shiftRight_eq_div_pow]
end

lemma ushiftRight_shiftLeft_ushiftRight (x : BitVec 64) (g : Nat) :
    ((x >>> g) <<< g) >>> g = x >>> g := by
  have hle : x.toNat / 2 ^ g * 2 ^ g < 2 ^ 64 := lt_of_le_of_lt (Nat.div_mul_le_self _ _) x.isLt
  apply eq_of_toNat_eq
  rw [toNat_ushiftRight, toNat_shiftLeft, toNat_ushiftRight,
    Nat.shiftRight_eq_div_pow, Nat.shiftRight_eq_div_pow, Nat.shiftLeft_eq, Nat.mod_eq_of_lt hle,
    Nat.mul_div_cancel _ g.two_pow_pos]

variable {size : BitVec 64}

lemma Call.run_spec (h : hb.WellFormed) (hcounted : hb.Counted) {c : Call} (hc : c.Inside size)
    (hlast : (c.start.toNat + c.count.toNat - 1) / 2 ^ hb.granularity < hb.size.toNat) :
    ∃ hb', c.run hb = some hb' ∧ CallResult hb hb' c := by
  have hlast' := hc.toNat_last_group hb.granularity
  have hstart : (c.start >>> hb.granularity).toNat = c.start.toNat / 2 ^ hb.granularity := by
    rw [toNat_ushiftRight, Nat.shiftRight_eq_div_pow]
  have hle : c.start.toNat / 2 ^ hb.granularity ≤
      (c.start.toNat + c.count.toNat - 1) / 2 ^ hb.granularity := Nat.div_le_div_right (by
    have := hc.1
    omega)
  obtain ⟨counted, hcount, hcountNat⟩ := @hbCountBetween_spec hb h (c.start >>> hb.granularity)
    ((c.start + c.count - 1#64) >>> hb.granularity) (ushiftRight_shiftLeft_ushiftRight _ _)
    (by omega) (by omega)
  rw [hstart, hlast'] at hcountNat
  have hset := countFrom_le_interval hle hlast
  have hreset := countFrom_le_count hlast (c.start.toNat / 2 ^ hb.granularity)
  have hfits : Nat.count hb.Leaf hb.size.toNat ≤ hb.size.toNat := Nat.count_le _
  have hsize := h.size_le
  unfold hbitmapLogMaxSize at hsize
  unfold HBitmap.Counted at hcounted
  unfold Call.run
  cases hvalue : c.value with
  | true =>
    obtain ⟨hb', hrun, hwf, hcount', hsize', hg, hleaf⟩ := @between_spec hb setLevel true
      (fun hb level start last => setLevel_spec) h _ _ _ hle hlast
    refine ⟨hb', ?_, hwf, counted_fill hcounted hlast hsize' ((count_congr fun _ _ =>
      and_iff_right rfl).trans (count_interval (by omega) hlast)) ?_ hleaf, hsize', hg, ?_⟩
    · rwa [if_pos rfl, hbitmapSet, hcount, bind_some, hstart, hlast']
    · rw [hcount', toNat_add, toNat_sub, toNat_add, toNat_sub, hlast',
        hstart, hcountNat, show (1#64).toNat = 1 from rfl]
      omega
    · rwa [hvalue]
  | false =>
    obtain ⟨hb', hrun, hwf, hcount', hsize', hg, hleaf⟩ := @between_spec hb resetLevel false
      (fun hb level start last => resetLevel_spec) h _ _ _ hle hlast
    refine ⟨hb', ?_, hwf, counted_fill hcounted hlast hsize' (Nat.count_iff_forall_not.mpr
      fun _ _ hn => Bool.false_ne_true hn.1) ?_ hleaf, hsize', hg, ?_⟩
    · rwa [if_neg Bool.false_ne_true, hbitmapReset, hcount, Option.bind_some, hstart, hlast']
    · rw [hcount', toNat_sub, hcountNat]
      omega
    · rwa [hvalue]

section
variable (groups : BitVec 64)

/-- The bitmap that `hbitmap_alloc` sets up. -/
def freshBitmap (g : Nat) : HBitmap :=
  ({ size := groups, count := 0#64, granularity := g, levels := fun _ _ => 0#64 } : HBitmap).store 0 0
    (0#64 ||| sentinel)

lemma freshBitmap_bitAt (g l n : Nat) :
    (freshBitmap groups g).bitAt l n = true ↔ l = 0 ∧ n = 63 := by
  have hmod : n % 64 < 64 := Nat.mod_lt n (by decide)
  unfold HBitmap.bitAt bit freshBitmap HBitmap.store
  dsimp only
  split
  · next hword =>
    rw [zero_or, getLsbD_sentinel _ hmod, decide_eq_true_iff]
    omega
  · next hword =>
    rw [getLsbD_zero]
    exact iff_of_false false_ne_true fun htop => hword (by omega)

lemma freshBitmap_leaf (g n : Nat) : ¬ (freshBitmap groups g).Leaf n :=
  fun hn => absurd ((freshBitmap_bitAt groups g _ n).mp hn).1 (by decide)

lemma freshBitmap_wellFormed {groups : BitVec 64} (hsize : groups.toNat ≤ 2 ^ hbitmapLogMaxSize)
    (g : Nat) : (freshBitmap groups g).WellFormed where
  size_le := hsize
  linked := by
    intro l n _
    have hzero : (freshBitmap groups g).levels (l + 1) n = 0#64 := by
      unfold freshBitmap HBitmap.store
      dsimp only
      exact if_neg (by omega)
    refine iff_of_false (fun hentry => hentry.2 ?_) fun hne => hne hzero
    exact (freshBitmap_bitAt groups g l n).mp hentry.1
  sentinel := (freshBitmap_bitAt groups g 0 63).mpr ⟨rfl, rfl⟩
  leaf_lt := fun n hn => absurd hn (freshBitmap_leaf groups g n)

lemma freshBitmap_counted (g : Nat) : (freshBitmap groups g).Counted :=
  (Nat.count_iff_forall_not.mpr fun n _ => freshBitmap_leaf groups g n).symm
end

section
variable {size : BitVec 64} {granularity : Int}

/-- The number of groups that `hbitmap_alloc` computes. -/
def allocGroups (size : BitVec 64) (granularity : Int) : BitVec 64 :=
  (size + (1#64 <<< granularity.toNat) - 1#64) >>> granularity.toNat

lemma hbitmapAlloc_eq (halloc : hbitmapAlloc size granularity = some hb) :
    hb = freshBitmap (allocGroups size granularity) granularity.toNat ∧ granularity.toNat < 64 ∧
      (allocGroups size granularity).toNat ≤ 2 ^ hbitmapLogMaxSize := by
  unfold hbitmapAlloc at halloc
  split at halloc
  · next hgranularity =>
    dsimp only at halloc
    split at halloc
    · next hsize =>
      split at halloc
      · exact ⟨(Option.some.inj halloc).symm, by omega, hsize⟩
      · cases halloc
    · cases halloc
  · cases halloc

def RoundsUp (size : BitVec 64) (granularity : Int) : Prop :=
  size.toNat + 2 ^ granularity.toNat - 1 < 2 ^ 64

lemma toNat_allocGroups (hg : granularity.toNat < 64) : (allocGroups size granularity).toNat =
    (size.toNat + 2 ^ granularity.toNat - 1) % 2 ^ 64 / 2 ^ granularity.toNat := by
  have hpos : 0 < 2 ^ granularity.toNat := Nat.two_pow_pos _
  have hlt : 2 ^ granularity.toNat < 2 ^ 64 := Nat.pow_lt_pow_right (by decide) hg
  have hsize := size.isLt
  rw [allocGroups, toNat_ushiftRight, Nat.shiftRight_eq_div_pow, toNat_sub,
    toNat_add, toNat_one_shiftLeft hg, show (1#64).toNat = 1 from rfl]
  generalize 2 ^ granularity.toNat = k at *
  congr 1
  omega

lemma RoundsUp.group_lt (h : RoundsUp size granularity) (hg : granularity.toNat < 64) {item : Nat}
    (hitem : item < size.toNat) :
    item / 2 ^ granularity.toNat < (allocGroups size granularity).toNat := by
  have hpos : 0 < 2 ^ granularity.toNat := Nat.two_pow_pos _
  rw [toNat_allocGroups hg, Nat.mod_eq_of_lt h, Nat.div_lt_iff_lt_mul hpos]
  have hround := Nat.div_add_mod (size.toNat + 2 ^ granularity.toNat - 1) (2 ^ granularity.toNat)
  rw [mul_comm]
  omega

variable (h : ¬ RoundsUp size granularity) (hg : granularity.toNat < 64)

include h hg in
lemma allocGroups_of_wrap : (allocGroups size granularity).toNat = 0 := by
  have hpos : 0 < 2 ^ granularity.toNat := Nat.two_pow_pos _
  have hlt : 2 ^ granularity.toNat < 2 ^ 64 := Nat.pow_lt_pow_right (by decide) hg
  have hsize := size.isLt
  rw [toNat_allocGroups hg]
  unfold RoundsUp at h
  generalize 2 ^ granularity.toNat = k at *
  exact Nat.div_eq_of_lt (by omega)

include h hg in
lemma RoundsUp.pos_of_not : 0 < size.toNat := by
  have hlt : 2 ^ granularity.toNat < 2 ^ 64 := Nat.pow_lt_pow_right (by decide) hg
  unfold RoundsUp at h
  generalize 2 ^ granularity.toNat = k at *
  omega
end

lemma iterInit_of_no_group (h : hb.size.toNat = 0) (first : BitVec 64) :
    hbitmapIterInit hb first = none := by
  unfold hbitmapIterInit
  rw [h]
  exact if_neg (Nat.not_lt_zero _)

structure AfterCalls (hb₀ : HBitmap) (calls : List Call) (hb : HBitmap) : Prop where
  wellFormed : hb.WellFormed
  counted : hb.Counted
  size : hb.size = hb₀.size
  granularity : hb.granularity = hb₀.granularity
  leaf : ∀ n, hb.Leaf n ↔ ∃ c, lastCall hb₀.granularity calls n = some c ∧ c.value = true

lemma lastCall_append (g : Nat) (calls : List Call) (c : Call) (n : Nat) :
    lastCall g (calls ++ [c]) n = if c.Covers g n then some c else lastCall g calls n := by
  unfold lastCall
  rw [List.reverse_append, List.reverse_singleton, List.singleton_append, List.find?_cons]
  by_cases hcovers : c.Covers g n
  · rw [if_pos hcovers, decide_eq_true hcovers]
  · rw [if_neg hcovers, decide_eq_false hcovers]

variable {hb₀ : HBitmap}

lemma runCalls_spec (h : hb₀.WellFormed) (hcounted : hb₀.Counted) (hleaf : ∀ n, ¬ hb₀.Leaf n)
    (hgroups : ∀ item, item < size.toNat → item / 2 ^ hb₀.granularity < hb₀.size.toNat)
    (calls : List Call) (hcalls : ∀ c ∈ calls, c.Inside size) :
    ∃ hb, runCalls hb₀ calls = some hb ∧ AfterCalls hb₀ calls hb := by
  induction calls using reverseRecOn with
  | nil =>
    refine ⟨hb₀, rfl, h, hcounted, rfl, rfl, fun n => ?_⟩
    exact iff_of_false (hleaf n) fun ⟨c, hc, _⟩ => nomatch hc
  | append_singleton calls c ih =>
    obtain ⟨hb, hrun, hafter⟩ := ih fun d hd => hcalls d (mem_append_left _ hd)
    have hc := hcalls c (mem_append_right _ (mem_singleton_self c))
    obtain ⟨hb', hstep, hres⟩ := Call.run_spec hafter.wellFormed hafter.counted hc (by
      rw [hafter.granularity, hafter.size]
      exact hgroups _ (by have := hc.1; have := hc.2; omega))
    refine ⟨hb', ?_, hres.wellFormed, hres.counted, hres.size.trans hafter.size,
      hres.granularity.trans hafter.granularity, fun n => ?_⟩
    · unfold runCalls at *
      rw [foldlM_append, hrun]
      simpa using hstep
    rw [hres.leaf n, lastCall_append, hafter.granularity]
    by_cases hcovers : c.Covers hb₀.granularity n
    · rw [if_pos hcovers, if_pos hcovers]
      exact ⟨fun hv => ⟨c, rfl, hv⟩, fun ⟨d, hd, hv⟩ => Option.some.inj hd ▸ hv⟩
    · rw [if_neg hcovers, if_neg hcovers]
      exact hafter.leaf n

/-- What the bitmap shows after some calls. At every level but the last, a bit other than
the sentinel is set when the word of the next level is nonzero; the sentinel is set; an
item reads as the last call on its group left it; the count is the number of bits of the
last level; and the bitmap is empty when there are none. -/
structure CallsSound (size : BitVec 64) (calls : List Call) (hb : HBitmap) : Prop where
  links : ∀ l n, l < hbitmapLevels - 1 → (hb.Entry l n ↔ ∃ w, hb.load (l + 1) n = some w ∧ w ≠ 0#64)
  sentinel : hb.bitAt 0 63 = true
  get : ∀ item : BitVec 64, item.toNat < size.toNat → ∃ v, hbitmapGet hb item = some v ∧
    (v = true ↔ ∃ c, lastCall hb.granularity calls (item.toNat / 2 ^ hb.granularity) = some c ∧
      c.value = true)
  count : hb.count.toNat =
    Nat.count (fun n => hb.bitAt (hbitmapLevels - 1) n = true) (64 * hb.words (hbitmapLevels - 1))
  empty : hbitmapEmpty hb = true ↔
    ∀ n, n < 64 * hb.words (hbitmapLevels - 1) → hb.bitAt (hbitmapLevels - 1) n = false

lemma size_le_words (hb : HBitmap) : hb.size.toNat ≤ 64 * hb.words (hbitmapLevels - 1) := by
  have hwords : hb.words (hbitmapLevels - 1) = max ((hb.size.toNat + 63) / 64) 1 := rfl
  omega

lemma hbitmapGet_eq {item : BitVec 64} (hitem : item.toNat / 2 ^ hb.granularity < hb.size.toNat) :
    hbitmapGet hb item = some (decide (hb.Leaf (item.toNat / 2 ^ hb.granularity))) := by
  have hpos : (item >>> hb.granularity).toNat = item.toNat / 2 ^ hb.granularity := by
    rw [toNat_ushiftRight, Nat.shiftRight_eq_div_pow]
  have hload : hb.load (hbitmapLevels - 1) (item.toNat / 2 ^ hb.granularity / 64) = some _ :=
    load_eq (div_lt_words (by decide) hitem)
  rw [hbitmapGet, hpos, hload, Option.map_some, Option.some_inj, Bool.eq_iff_iff, bne_iff_ne,
    and_one_shiftLeft_ne_zero (Nat.mod_lt _ (by decide)), decide_eq_true_iff]
  exact Iff.rfl

lemma AfterCalls.count_last {calls : List Call} (h : AfterCalls hb₀ calls hb) : hb.count.toNat =
      Nat.count (fun n => hb.bitAt (hbitmapLevels - 1) n = true) (64 * hb.words (hbitmapLevels - 1)) :=
  h.counted.trans (count_stop (size_le_words hb) fun n hn _ hleaf =>
    absurd (h.wellFormed.leaf_lt n hleaf) (Nat.not_lt_of_le hn)).symm

lemma AfterCalls.sound {calls : List Call} (h : AfterCalls hb₀ calls hb)
    (hgroups : ∀ item, item < size.toNat → item / 2 ^ hb₀.granularity < hb₀.size.toNat) :
    CallsSound size calls hb where
  links := by
    intro l n hl
    refine ⟨fun hentry => ?_, fun ⟨w, hload, hw⟩ => (h.wellFormed.linked l n hl).mpr ?_⟩
    · obtain ⟨m, hm, hdiv⟩ := (h.wellFormed.linked.entry_iff hl.le n).mp hentry
      have hload := h.wellFormed.load_of_leaf hm (l + 1)
      rw [show hbitmapLevels - (l + 1) = hbitmapLevels - 1 - l by omega, hdiv] at hload
      exact ⟨_, hload, (h.wellFormed.linked l n hl).mp hentry⟩
    unfold HBitmap.load at hload
    split at hload
    · exact Option.some.inj hload ▸ hw
    · cases hload
  sentinel := h.wellFormed.sentinel
  get := by
    intro item hitem
    refine ⟨_, hbitmapGet_eq ?_, ?_⟩
    · rw [h.granularity, h.size]
      exact hgroups _ hitem
    · rw [decide_eq_true_iff, h.leaf, h.granularity]
  count := h.count_last
  empty := by
    rw [hbitmapEmpty, beq_iff_eq, toNat_eq, h.count_last, show (0#64).toNat = 0 from rfl,
      Nat.count_iff_forall_not]
    exact forall₂_congr fun n _ => iff_of_eq (not_eq_true _)

theorem hbitmap_calls_iff (size : BitVec 64) (granularity : Int) :
    (∀ hb₀, hbitmapAlloc size granularity = some hb₀ → ∀ calls, (∀ c ∈ calls, c.Inside size) →
      ∃ hb, runCalls hb₀ calls = some hb ∧ CallsSound size calls hb) ↔
    (hbitmapAlloc size granularity = none ∨ RoundsUp size granularity) := by
  constructor
  · intro h
    by_contra hnot
    obtain ⟨hsome, hwraps⟩ := not_or.mp hnot
    obtain ⟨hb₀, halloc⟩ := Option.ne_none_iff_exists'.mp hsome
    obtain ⟨rfl, hg, _⟩ := hbitmapAlloc_eq halloc
    have hzero := allocGroups_of_wrap hwraps hg
    -- a size that wraps around is not zero, so the first item is inside of the bitmap
    have hinside : ∀ c ∈ [(⟨true, 0#64, 1#64⟩ : Call)], c.Inside size := by
      intro c hc
      obtain rfl := List.mem_singleton.mp hc
      exact ⟨by decide, RoundsUp.pos_of_not hwraps hg⟩
    obtain ⟨hb, hrun, _⟩ := h _ halloc _ hinside
    have hset : runCalls (freshBitmap (allocGroups size granularity) granularity.toNat)
        [⟨true, 0#64, 1#64⟩] = none := by
      unfold runCalls
      rw [foldlM_cons, Call.run, if_pos rfl, hbitmapSet, hbCountBetween, iterInit_of_no_group hzero]
      rfl
    rw [hset] at hrun
    cases hrun
  · rintro (hnone | hround) hb₀ halloc calls hcalls
    · rw [hnone] at halloc
      cases halloc
    · obtain ⟨rfl, hg, hsize⟩ := hbitmapAlloc_eq halloc
      have hgroups : ∀ item, item < size.toNat →
          item / 2 ^ granularity.toNat < (allocGroups size granularity).toNat := fun item hitem =>
        hround.group_lt hg hitem
      obtain ⟨hb, hrun, hafter⟩ := runCalls_spec (freshBitmap_wellFormed hsize _)
        (freshBitmap_counted _ _) (freshBitmap_leaf _ _) hgroups calls hcalls
      exact ⟨hb, hrun, hafter.sound hgroups⟩

/-- A bitmap of `2^64 - 1` items in groups of two is accepted, and has no group at all:
setting its first item fails an assertion. -/
theorem hbitmap_set_wraps : ((hbitmapAlloc 0xffffffffffffffff#64 1).isSome = true) ∧
    (⟨true, 0#64, 1#64⟩ : Call).Inside 0xffffffffffffffff#64 ∧
    ((hbitmapAlloc 0xffffffffffffffff#64 1).bind fun hb =>
      runCalls hb [⟨true, 0#64, 1#64⟩]).isNone = true := by
  refine ⟨by decide +kernel, ⟨by decide, by decide⟩, by decide +kernel⟩

end QemuVmi.Util
