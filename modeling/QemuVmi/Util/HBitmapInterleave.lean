import QemuVmi.Util.HBitmapCalls

/-!
# Iteration while the bitmap changes

`hbitmap_iter_next` interleaved with `hbitmap_set` calls anywhere, and with
`hbitmap_reset` calls on items before a position that was already returned.

1. `RunInv.next`, `RunInv.call`: what one event keeps; `RunInv.run`: what a whole run
   keeps.
2. `RunInv.sound`: in every state that such a run reaches, no event fails and the next
   result is -1 or the next group.
3. `hbitmap_iteration_iff`: iteration is right in all runs, exactly when the size is at
   most `2^63`. Beyond, the `int64_t` result is negative.
-/

namespace QemuVmi.Util

open BitWords List BitVec Option Nat

structure IterState where
  hb : HBitmap
  hbi : HBitmapIter
  returned : List Int

inductive Event
  | next
  | call (c : Call)

/-- One event. `none` stands for a failed assertion or a bad access. -/
def Event.step (s : IterState) : Event → Option IterState
  | .next => (hbitmapIterNext s.hb s.hbi).map fun r =>
      { s with hbi := r.2, returned := s.returned ++ [r.1] }
  | .call c => (c.run s.hb).map fun hb => { s with hb := hb }

def Event.Allowed (size : BitVec 64) (s : IterState) : Event → Prop
  | .next => True
  | .call c => c.Inside size ∧
      (c.value = false → ∃ r ∈ s.returned, (c.start.toNat + c.count.toNat : Int) ≤ r)

inductive Reaches (size : BitVec 64) (s₀ : IterState) : IterState → Prop
  | start : Reaches size s₀ s₀
  | step {s s' : IterState} {e : Event} : Reaches size s₀ s → e.Allowed size s →
      e.step s = some s' → Reaches size s₀ s'

def position (hb : HBitmap) (n : Nat) : Nat := n * 2 ^ hb.granularity

/-- What a run keeps, from an iterator on `hb₁` that starts at the group `f`. Groups below
`lo` are done. Every group from `f` on that was set at the start has been returned, or is
still set and to be visited. -/
structure RunInv (hb₁ : HBitmap) (f : Nat) (s : IterState) (lo : Nat) : Prop where
  wellFormed : s.hb.WellFormed
  counted : s.hb.Counted
  size : s.hb.size = hb₁.size
  granularity : s.hb.granularity = hb₁.granularity
  iterGranularity : s.hbi.granularity = hb₁.granularity
  iter : s.hbi.Inv s.hb lo
  returned : ∀ r ∈ s.returned, r = -1 ∨ ∃ m, m < lo ∧ r = (position hb₁ m : Int)
  visited : ∀ n, hb₁.Leaf n → f ≤ n →
    (position hb₁ n : Int) ∈ s.returned ∨ (lo ≤ n ∧ s.hb.Leaf n ∧ s.hbi.Todo n)
  ended : -1 ∈ s.returned → ∀ n, ¬ s.hbi.Todo n
  length : -1 ∈ s.returned ∨ s.returned.length ≤ lo

variable {g m lo : Nat}

lemma HBitmapIter.Inv.not_todo {hb : HBitmap} {hbi : HBitmapIter} (h : hbi.Inv hb lo)
    (hnone : ∀ n, hb.Leaf n → ¬ hbi.Todo n) (n : Nat) : ¬ hbi.Todo n := by
  rintro ⟨j, b, hj, hb, hpending, _⟩
  obtain ⟨m, hm, hdiv⟩ := h.cursor.live j b hj hb hpending
  exact hnone m hm ⟨j, b, hj, hb, hpending, hdiv⟩

lemma toInt_item (h : m * 2 ^ g < 2 ^ 63) :
    (BitVec.ofNat 64 m <<< g).toInt = (m * 2 ^ g : Nat) := by
  have hm : m ≤ m * 2 ^ g := Nat.le_mul_of_pos_right m g.two_pow_pos
  have hmod : m % 2 ^ 64 = m := mod_eq_of_lt (by omega)
  have hnat : (BitVec.ofNat 64 m <<< g).toNat = m * 2 ^ g := by
    rw [BitVec.toNat_shiftLeft, BitVec.toNat_ofNat, hmod, Nat.shiftLeft_eq, mod_eq_of_lt (by omega)]
  rw [toInt_eq_toNat_of_lt (by omega), hnat]

section
variable {hb₁ : HBitmap} {f lo : Nat} {s : IterState} {size : BitVec 64}
  (hfit : ∀ m, m < hb₁.size.toNat → position hb₁ m < 2 ^ 63) (h : RunInv hb₁ f s lo)

include hfit h in
/-- One call of `hbitmap_iter_next`. -/
lemma RunInv.next : ∃ r hbi', hbitmapIterNext s.hb s.hbi = some (r, hbi') ∧
      (∃ lo', RunInv hb₁ f { s with hbi := hbi', returned := s.returned ++ [r] } lo') ∧
      ((r = -1 ∧ ∀ n, ¬ s.hbi.Todo n) ∨
        ∃ m, r = (position hb₁ m : Int) ∧ s.hb.Leaf m ∧ lo ≤ m ∧ -1 ∉ s.returned) := by
  obtain ⟨r, hbi', hrun, hg, hcase⟩ := iterNext_spec h.wellFormed h.iter
  refine ⟨r, hbi', hrun, ?_⟩
  rcases hcase with ⟨rfl, rfl, hnone⟩ | ⟨m, hr, hm, hlo, hinv, htodo⟩
  · have hdone := h.iter.not_todo hnone
    refine ⟨⟨lo, ?_⟩, .inl ⟨rfl, hdone⟩⟩
    refine ⟨h.wellFormed, h.counted, h.size, h.granularity, h.iterGranularity, h.iter, ?_, ?_,
      fun _ => hdone, .inl (mem_append_right _ mem_cons_self)⟩
    · intro r hr
      rcases mem_append.mp hr with hr | hr
      · exact h.returned r hr
      · exact .inl (mem_singleton.mp hr)
    intro n hn hf
    rcases h.visited n hn hf with hmem | ⟨_, _, hn⟩
    · exact .inl (mem_append_left _ hmem)
    · exact absurd hn (hdone n)
  · have hnotEnded : -1 ∉ s.returned := fun hend => h.ended hend m ((htodo m hm).mpr (.inl rfl))
    have hpos : m < hb₁.size.toNat := h.size ▸ h.wellFormed.leaf_lt m hm
    rw [h.iterGranularity, toInt_item (hfit m hpos)] at hr
    refine ⟨⟨m + 1, ?_⟩, .inr ⟨m, hr, hm, hlo, hnotEnded⟩⟩
    refine ⟨h.wellFormed, h.counted, h.size, h.granularity, hg.trans h.iterGranularity, hinv, ?_, ?_,
      fun hend => ?_, .inr ?_⟩
    · intro r' hr'
      rcases mem_append.mp hr' with hr' | hr'
      · rcases h.returned r' hr' with hend | ⟨k, hk, hr'⟩
        · exact .inl hend
        · exact .inr ⟨k, by omega, hr'⟩
      · exact .inr ⟨m, lt_succ_self m, (mem_singleton.mp hr').trans hr⟩
    · intro n hn hf
      rcases h.visited n hn hf with hmem | ⟨_, hleaf, hn⟩
      · exact .inl (mem_append_left _ hmem)
      · rcases (htodo n hleaf).mp hn with rfl | hn
        · exact .inl (mem_append_right _ (mem_singleton.mpr hr.symm))
        · exact .inr ⟨hinv.cursor.above n hn, hleaf, hn⟩
    · rcases mem_append.mp hend with hend | hend
      · exact absurd hend hnotEnded
      · have := mem_singleton.mp hend
        omega
    · have := h.length.resolve_left hnotEnded
      rw [length_append, length_singleton]
      omega

include h in
lemma RunInv.reset_lt {c : Call} (hc : c.Inside size)
    (hbefore : ∃ r ∈ s.returned, (c.start.toNat + c.count.toNat : Int) ≤ r) :
    (c.start.toNat + c.count.toNat - 1) / 2 ^ hb₁.granularity < lo := by
  obtain ⟨r, hr, hle⟩ := hbefore
  have hpos := hc.1
  rcases h.returned r hr with rfl | ⟨m, hm, rfl⟩
  · omega
  · refine lt_trans ((div_lt_iff_lt_mul (Nat.two_pow_pos _)).mpr ?_) hm
    unfold position at hle
    omega

include h in
/-- One call of `hbitmap_set` or `hbitmap_reset`. -/
lemma RunInv.call {c : Call}
    (hgroups : ∀ item, item < size.toNat → item / 2 ^ hb₁.granularity < hb₁.size.toNat)
    (hc : (Event.call c).Allowed size s) :
    ∃ hb', c.run s.hb = some hb' ∧ RunInv hb₁ f { s with hb := hb' } lo := by
  obtain ⟨hinside, hbefore⟩ := hc
  have hlast : (c.start.toNat + c.count.toNat - 1) / 2 ^ s.hb.granularity < s.hb.size.toNat := by
    rw [h.granularity, h.size]
    exact hgroups _ (by have := hinside.1; have := hinside.2; omega)
  obtain ⟨hb', hrun, hres⟩ := Call.run_spec h.wellFormed h.counted hinside hlast
  have hkeep : ∀ n, lo ≤ n → s.hb.Leaf n → hb'.Leaf n := by
    intro n hlo hn
    rw [hres.leaf n]
    split
    · next hcovers =>
      cases hvalue : c.value with
      | true => rfl
      | false =>
        have hlt := h.reset_lt hinside (hbefore hvalue)
        have hle := hcovers.2
        rw [h.granularity] at hle
        omega
    · exact hn
  refine ⟨hb', hrun, hres.wellFormed, hres.counted, hres.size.trans h.size,
    hres.granularity.trans h.granularity, h.iterGranularity, h.iter.mono hkeep, h.returned, ?_,
    h.ended, h.length⟩
  intro n hn hf
  rcases h.visited n hn hf with hmem | ⟨hlo, hleaf, hn⟩
  · exact .inl hmem
  · exact .inr ⟨hlo, hkeep n hlo hleaf, hn⟩

lemma RunInv.run {s₀ : IterState} (h : RunInv hb₁ f s₀ f)
    (hgroups : ∀ item, item < size.toNat → item / 2 ^ hb₁.granularity < hb₁.size.toNat)
    (hfit : ∀ m, m < hb₁.size.toNat → position hb₁ m < 2 ^ 63) (hrun : Reaches size s₀ s) :
    ∃ lo, RunInv hb₁ f s lo := by
  induction hrun with
  | start => exact ⟨f, h⟩
  | @step s s' e _ hallowed hstep ih =>
    obtain ⟨lo, ih⟩ := ih
    cases e with
    | next =>
      obtain ⟨r, hbi', hnext, hinv, _⟩ := ih.next hfit
      rw [Event.step, hnext, map_some] at hstep
      exact Option.some.inj hstep ▸ hinv
    | call c =>
      obtain ⟨hb', hcall, hinv⟩ := ih.call hgroups hallowed
      rw [Event.step, hcall, map_some] at hstep
      exact ⟨lo, Option.some.inj hstep ▸ hinv⟩
end

/-- What iteration from `first` on `hb₁` owes in a state. No allowed event fails. The next
result is -1, or an item at the start of a group that is set, beyond all earlier results
and not after a -1. With a -1, every group from `first` on that was set at the start has
been returned. And -1 comes once there were as many results as groups. -/
structure IterationSound (size : BitVec 64) (hb₁ : HBitmap) (first : BitVec 64) (s : IterState) :
    Prop where
  steps : ∀ e, Event.Allowed size s e → ∃ s', e.step s = some s'
  next : ∃ r hbi', hbitmapIterNext s.hb s.hbi = some (r, hbi') ∧
    (r = -1 ∨ ((∃ item : BitVec 64, r = (item.toNat : Int) ∧ item.toNat < size.toNat ∧
        2 ^ hb₁.granularity ∣ item.toNat ∧ hbitmapGet s.hb item = some true) ∧
      ∀ r' ∈ s.returned, r' < r ∧ r' ≠ -1)) ∧
    (r = -1 → ∀ item : BitVec 64, item.toNat < size.toNat →
      first.toNat / 2 ^ hb₁.granularity ≤ item.toNat / 2 ^ hb₁.granularity →
      hbitmapGet hb₁ item = some true →
        (position hb₁ (item.toNat / 2 ^ hb₁.granularity) : Int) ∈ s.returned) ∧
    (hb₁.size.toNat ≤ s.returned.length → r = -1)

variable {size first : BitVec 64}

lemma RunInv.sound {hb₁ : HBitmap} {s : IterState}
    (h : RunInv hb₁ (first.toNat / 2 ^ hb₁.granularity) s lo)
    (hgroups : ∀ item, item < size.toNat → item / 2 ^ hb₁.granularity < hb₁.size.toNat)
    (hfit : ∀ m, m < hb₁.size.toNat → position hb₁ m < size.toNat) (hsize : size.toNat ≤ 2 ^ 63) :
    IterationSound size hb₁ first s := by
  have hfit' : ∀ m, m < hb₁.size.toNat → position hb₁ m < 2 ^ 63 := fun m hm =>
    (hfit m hm).trans_le hsize
  obtain ⟨r, hbi', hnext, _, hcase⟩ := h.next hfit'
  refine ⟨fun e he => ?_, r, hbi', hnext, ?_, fun hr item hitem hfirst hget => ?_, fun hlen => ?_⟩
  · cases e with
    | next => exact ⟨_, by rw [Event.step, hnext, map_some]⟩
    | call c =>
      obtain ⟨hb', hcall, _⟩ := h.call hgroups he
      exact ⟨_, by rw [Event.step, hcall, map_some]⟩
  · rcases hcase with ⟨hr, _⟩ | ⟨m, rfl, hm, hlo, hnotEnded⟩
    · exact .inl hr
    have hpos : m < hb₁.size.toNat := h.size ▸ h.wellFormed.leaf_lt m hm
    have hitem : (BitVec.ofNat 64 (position hb₁ m)).toNat = position hb₁ m := by
      have := hfit' m hpos
      rw [toNat_ofNat, mod_eq_of_lt (by omega)]
    have hgroup : position hb₁ m / 2 ^ hb₁.granularity = m :=
      Nat.mul_div_cancel m (Nat.two_pow_pos _)
    refine .inr ⟨⟨BitVec.ofNat 64 (position hb₁ m), by rw [hitem], ?_, ?_, ?_⟩, fun r' hr' => ?_⟩
    · rw [hitem]
      exact hfit m hpos
    · rw [hitem]
      exact dvd_mul_left _ _
    · rw [hbitmapGet_eq (by rw [hitem, h.granularity, hgroup, h.size]; exact hpos), hitem,
        h.granularity, hgroup, decide_eq_true hm]
    have hne : r' ≠ -1 := fun hend => hnotEnded (hend ▸ hr')
    obtain ⟨k, hk, rfl⟩ := (h.returned r' hr').resolve_left hne
    have hlt : position hb₁ k < position hb₁ m :=
      Nat.mul_lt_mul_of_pos_right (lt_of_lt_of_le hk hlo) (Nat.two_pow_pos _)
    exact ⟨by omega, hne⟩
  · have hdone : ∀ n, ¬ s.hbi.Todo n := by
      rcases hcase with ⟨_, hdone⟩ | ⟨m, hm, _⟩
      · exact hdone
      · omega
    rw [hbitmapGet_eq (hgroups _ hitem), some_inj, decide_eq_true_iff] at hget
    rcases h.visited _ hget hfirst with hmem | ⟨_, _, htodo⟩
    · exact hmem
    · exact absurd htodo (hdone _)
  · rcases hcase with ⟨hr, _⟩ | ⟨m, _, hm, hlo, hnotEnded⟩
    · exact hr
    · have hpos : m < hb₁.size.toNat := h.size ▸ h.wellFormed.leaf_lt m hm
      have := h.length.resolve_left hnotEnded
      omega

lemma runInv_start {hb₁ : HBitmap} (h : hb₁.WellFormed) (hcounted : hb₁.Counted)
    (hfirst : first.toNat / 2 ^ hb₁.granularity < hb₁.size.toNat) :
    ∃ hbi, hbitmapIterInit hb₁ first = some hbi ∧
      RunInv hb₁ (first.toNat / 2 ^ hb₁.granularity) ⟨hb₁, hbi, []⟩
        (first.toNat / 2 ^ hb₁.granularity) := by
  have hgroup : (first >>> hb₁.granularity).toNat = first.toNat / 2 ^ hb₁.granularity := by
    rw [toNat_ushiftRight, shiftRight_eq_div_pow]
  rw [← hgroup] at hfirst ⊢
  obtain ⟨hbi, hinit, hg, hinv, htodo⟩ := iterInit_spec h hfirst
  refine ⟨hbi, hinit, h, hcounted, rfl, rfl, hg, hinv, nofun, fun n hn hf => ?_, nofun, ?_⟩
  · exact .inr ⟨hf, hn, htodo n hn hf⟩
  · exact .inr (zero_le _)

variable {granularity : Int}

lemma position_lt (hround : RoundsUp size granularity)
    (hg : granularity.toNat < 64) (hm : m < (allocGroups size granularity).toNat) :
    m * 2 ^ granularity.toNat < size.toNat := by
  rw [toNat_allocGroups hg, Nat.mod_eq_of_lt hround] at hm
  have hpos : 0 < 2 ^ granularity.toNat := Nat.two_pow_pos _
  have hle := (Nat.le_div_iff_mul_le hpos).mp (Nat.succ_le_of_lt hm)
  rw [Nat.succ_mul] at hle
  omega

lemma roundsUp_of_le {size : BitVec 64} {granularity : Int} (hg : granularity.toNat < 64)
    (hsize : size.toNat ≤ 2 ^ 63) : RoundsUp size granularity := by
  have hle : 2 ^ granularity.toNat ≤ 2 ^ 63 := Nat.pow_le_pow_right (by decide) (by omega)
  unfold RoundsUp
  generalize 2 ^ granularity.toNat = k at *
  omega

/-- Iteration is sound from every position of every bitmap that calls can produce. -/
def IterationsSound (size : BitVec 64) (granularity : Int) : Prop :=
  ∀ hb₀, hbitmapAlloc size granularity = some hb₀ → ∀ calls : List Call,
    (∀ c ∈ calls, c.Inside size) → ∀ hb₁, runCalls hb₀ calls = some hb₁ →
    ∀ first : BitVec 64, first.toNat < size.toNat → ∃ hbi, hbitmapIterInit hb₁ first = some hbi ∧
        ∀ s, Reaches size ⟨hb₁, hbi, []⟩ s → IterationSound size hb₁ first s

lemma iterationsSound_of_le (hsize : size.toNat ≤ 2 ^ 63) : IterationsSound size granularity := by
  intro hb₀ halloc calls hcalls hb₁ hrun first hfirst
  obtain ⟨rfl, hg, hle⟩ := hbitmapAlloc_eq halloc
  have hround := @roundsUp_of_le size granularity hg hsize
  have hgroups : ∀ item, item < size.toNat →
      item / 2 ^ granularity.toNat < (allocGroups size granularity).toNat := fun item hitem =>
    hround.group_lt hg hitem
  obtain ⟨hb, hrun', hafter⟩ := runCalls_spec (freshBitmap_wellFormed hle _)
    (freshBitmap_counted _ _) (freshBitmap_leaf _ _) hgroups calls hcalls
  obtain rfl := Option.some.inj (hrun.symm.trans hrun')
  have hgranularity := hafter.granularity
  have hsize₁ := hafter.size
  have hgroups₁ : ∀ item, item < size.toNat → item / 2 ^ hb₁.granularity < hb₁.size.toNat := by
    rwa [hgranularity, hsize₁]
  have hfit : ∀ m, m < hb₁.size.toNat → position hb₁ m < size.toNat := by
    unfold position
    rw [hgranularity, hsize₁]
    exact fun m hm => position_lt hround hg hm
  obtain ⟨hbi, hinit, hinv⟩ := runInv_start hafter.wellFormed hafter.counted (hgroups₁ _ hfirst)
  refine ⟨hbi, hinit, fun s hs => ?_⟩
  obtain ⟨lo, hs⟩ := hinv.run hgroups₁ (fun m hm => (hfit m hm).trans_le hsize) hs
  exact hs.sound hgroups₁ hfit hsize

lemma toInt_top (hg : g < 64) : (BitVec.ofNat 64 (2 ^ 63 / 2 ^ g) <<< g).toInt = -2 ^ 63 := by
  have hmul := Nat.div_mul_cancel (Nat.pow_dvd_pow 2 (Nat.le_of_lt_succ hg))
  have hle : 2 ^ 63 / 2 ^ g ≤ 2 ^ 63 := div_le_self _ _
  have htop : BitVec.ofNat 64 (2 ^ 63 / 2 ^ g) <<< g = 0x8000000000000000#64 := by
    apply eq_of_toNat_eq
    rw [toNat_shiftLeft, toNat_ofNat, mod_eq_of_lt (hle.trans_lt (by decide)),
      Nat.shiftLeft_eq, hmul]
    rfl
  rw [htop]
  decide

lemma not_iterationsSound {hb₀ : HBitmap}
    (halloc : hbitmapAlloc size granularity = some hb₀) (hsize : 2 ^ 63 < size.toNat)
    (hround : RoundsUp size granularity) : ¬ IterationsSound size granularity := by
  intro h
  obtain ⟨rfl, hg, hle⟩ := hbitmapAlloc_eq halloc
  have hgroups : ∀ item, item < size.toNat →
      item / 2 ^ granularity.toNat < (allocGroups size granularity).toNat := fun item hitem =>
    hround.group_lt hg hitem
  let c : Call := ⟨true, 0x8000000000000000#64, 1#64⟩
  have hcalls : ∀ d ∈ [c], d.Inside size := by
    intro d hd
    obtain rfl := mem_singleton.mp hd
    exact ⟨by decide, hsize⟩
  obtain ⟨hb, hrun, hafter⟩ := runCalls_spec (freshBitmap_wellFormed hle _)
    (freshBitmap_counted _ _) (freshBitmap_leaf _ _) hgroups [c] hcalls
  have hgranularity : hb.granularity = granularity.toNat := hafter.granularity
  have hleaf : ∀ n, hb.Leaf n ↔ n = 2 ^ 63 / 2 ^ granularity.toNat := by
    intro n
    have hlast := lastCall_append granularity.toNat [] c n
    rw [nil_append] at hlast
    have hcovers : c.Covers granularity.toNat n ↔ n = 2 ^ 63 / 2 ^ granularity.toNat :=
      ⟨fun hn => le_antisymm hn.2 hn.1, fun hn => ⟨hn.symm.le, hn.le⟩⟩
    rw [hafter.leaf, ← hcovers]
    refine ⟨fun ⟨d, hd, _⟩ => ?_, fun hn => ⟨c, hlast.trans (if_pos hn), rfl⟩⟩
    by_contra hn
    exact nomatch (hlast.trans (if_neg hn)).symm.trans hd
  have hzero : ((0#64) >>> hb.granularity).toNat = 0 := by
    rw [zero_ushiftRight]
    rfl
  have hfirst : ((0#64) >>> hb.granularity).toNat < hb.size.toNat := by
    rw [hzero, hafter.size]
    exact lt_of_le_of_lt (zero_le _) (hgroups _ hsize)
  obtain ⟨hbi, hinit, hg', hinv, htodo⟩ := iterInit_spec hafter.wellFormed hfirst
  obtain ⟨hbi', hinit', hsound⟩ := h _ halloc [c] hcalls hb hrun 0#64
    (lt_of_le_of_lt (zero_le _) hsize)
  obtain rfl := Option.some.inj (hinit.symm.trans hinit')
  obtain ⟨r, _, hnext, hr, _⟩ := (hsound _ .start).next
  obtain ⟨r', _, hnext', _, hcase⟩ := iterNext_spec hafter.wellFormed hinv
  obtain rfl : r = r' := congrArg Prod.fst (Option.some.inj (hnext.symm.trans hnext'))
  rcases hcase with ⟨_, _, hnone⟩ | ⟨m, hm, hmleaf, _⟩
  · have htop := (hleaf _).mpr rfl
    exact hnone _ htop (htodo _ htop (hzero.trans_le (zero_le _)))
  rw [(hleaf m).mp hmleaf, hg', hgranularity, toInt_top hg] at hm
  rcases hr with hr | ⟨⟨item, hr, _⟩, _⟩
  · omega
  · omega

/-- Iteration is sound exactly when every position is an `int64_t`. -/
theorem hbitmap_iteration_iff (size : BitVec 64) (granularity : Int) :
    IterationsSound size granularity ↔
      (hbitmapAlloc size granularity = none ∨ size.toNat ≤ 2 ^ 63) := by
  constructor
  · intro h
    by_contra hnot
    obtain ⟨hsome, hsize⟩ := not_or.mp hnot
    obtain ⟨hb₀, halloc⟩ := Option.ne_none_iff_exists'.mp hsome
    by_cases hround : RoundsUp size granularity
    · exact not_iterationsSound halloc (not_le.mp hsize) hround h
    -- a size that wrapped around leaves no position to start from
    obtain ⟨rfl, hg, _⟩ := hbitmapAlloc_eq halloc
    obtain ⟨hbi, hinit, _⟩ := h _ halloc [] nofun _ rfl 0#64 (RoundsUp.pos_of_not hround hg)
    rw [iterInit_of_no_group (allocGroups_of_wrap hround hg)] at hinit
    cases hinit
  · rintro (hnone | hsize)
    · intro hb₀ halloc
      rw [hnone] at halloc
      cases halloc
    · exact iterationsSound_of_le hsize

/-- A bitmap of `2^63 + 1` items in groups of `2^40`, with the first and the last group
set: the second result is not above the first one, and no position at all. -/
theorem hbitmap_iteration_negative : (((hbitmapAlloc 0x8000000000000001#64 40).bind fun hb₀ =>
      runCalls hb₀ [⟨true, 0#64, 1#64⟩, ⟨true, 0x8000000000000000#64, 1#64⟩]).bind fun hb =>
        (hbitmapIterInit hb 0#64).bind fun hbi =>
          (hbitmapIterNext hb hbi).bind fun first =>
            (hbitmapIterNext hb first.2).map fun second => (first.1, second.1)) =
    some (0, -9223372036854775808) := by
  decide +kernel

end QemuVmi.Util
