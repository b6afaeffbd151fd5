import Mathlib

/-!
# Discards and dirty bitmaps

`bdrv_co_discard` passes a discard on in pieces. A driver with `bdrv_aio_discard` gets all that is
left in each turn of the loop. Before the loop `bdrv_reset_dirty` resets the sectors in every dirty
bitmap, as it does when one consumer of a bitmap clears sectors for itself.

Results:
1. `discards_exactly_iff`: the devices and limits for which the pieces make up the request.
2. `nothing_hidden_iff`: the runs in which no change is hidden from the consumer of a bitmap.
-/

namespace QemuVmi.Block

open List Int

/-- `BlockLimits`, as far as discards go. -/
structure DiscardLimits where
  maxDiscard : Int
  discardAlignment : Int

/-- The fields of a device that `bdrv_co_discard` and `bdrv_check_request` test. -/
structure DiscardDevice where
  /-- `bs->drv`, and with it whether the driver has `bdrv_aio_discard` only or
  `bdrv_co_discard`. -/
  drv : Option (Option Bool)
  inserted : Bool
  growable : Bool
  /-- `bdrv_getlength`. -/
  length : Int
  readOnly : Bool
  /-- `BDRV_O_UNMAP` -/
  unmap : Bool
  limits : DiscardLimits

section
variable (limits : DiscardLimits)

/-- `max_discard` with `MAX_DISCARD_DEFAULT`. -/
def DiscardLimits.max : Int :=
  if limits.maxDiscard ≠ 0 then limits.maxDiscard else 32768

/-- `num` in a turn of the loop, an `int`; the alignment is an `int64_t`. -/
def discardNum (sector nb : Int) : Int :=
  let align := limits.discardAlignment
  let num :=
    if align ≠ 0 ∧ nb ≥ align ∧ sector.tmod align ≠ 0 then
      ((if nb > align then align.bmod (2 ^ 32) else nb) - sector.tmod align).bmod (2 ^ 32)
    else nb
  if num > limits.max then limits.max else num

/-- The loop of `bdrv_co_discard`: the requests, and what is returned. The driver has
`bdrv_aio_discard` only, or `bdrv_co_discard`. An answer of `-EIO` is also a request that could not
be made. -/
def discardLoop (limits : DiscardLimits) (aio : Bool) :
    Nat → (Nat → Int) → Int → Int → Option (List (Int × Int) × Int)
  | 0, _, _, _ => none
  | fuel + 1, answers, sector, nb =>
    if nb > 0 then
      let num := discardNum limits sector nb
      let request := (sector, if aio then nb else num)
      let ret := answers 0
      -- -ENOTSUP
      if ret ≠ 0 ∧ ret ≠ -95 then some ([request], ret)
      else
        (discardLoop limits aio fuel (fun i => answers (i + 1)) (sector + num) (nb - num)).map
          fun (requests, ret) => (request :: requests, ret)
    else some ([], 0)

/-- `bdrv_check_request` and `bdrv_check_byte_request` let the request pass. The offset in bytes
is computed modulo `2^64`. -/
def bdrvCheckRequest (bs : DiscardDevice) (sector nb : Int) : Bool :=
  let offset := (sector * 512).bmod (2 ^ 64)
  decide (nb ≤ 0x7fffffff / 512) && bs.inserted &&
    (bs.growable || decide (0 ≤ offset ∧ offset ≤ bs.length ∧ nb * 512 ≤ bs.length - offset))

/-- `bdrv_co_discard`, without the dirty bitmaps. -/
def bdrvCoDiscard (bs : DiscardDevice) (fuel : Nat) (answers : Nat → Int) (sector nb : Int) :
    Option (List (Int × Int) × Int) :=
  match bs.drv with
  | none => some ([], -123) -- -ENOMEDIUM
  | some discard =>
    if !bdrvCheckRequest bs sector nb then some ([], -5) -- -EIO
    else if bs.readOnly then some ([], -30) -- -EROFS
    else if !bs.unmap then some ([], 0)
    else match discard with
      | none => some ([], 0)
      | some aio => discardLoop bs.limits aio fuel answers sector nb

def Consecutive : Int → List (Int × Int) → Int → Prop
  | start, [], stop => start = stop
  | start, request :: requests, stop =>
    request.1 = start ∧ Consecutive (start + request.2) requests stop

/-- For all answers of the driver the call ends, with requests of at most `max_discard` sectors
that make up the range if the driver fails in none of them. -/
def Exact (sector nb : Int) (call : Nat → (Nat → Int) → Option (List (Int × Int) × Int)) : Prop :=
  ∀ answers, ∃ fuel requests ret, call fuel answers = some (requests, ret) ∧
    (∀ request ∈ requests, 0 < request.2 ∧ request.2 ≤ limits.max) ∧
    ((∀ i, answers i = 0 ∨ answers i = -95) → Consecutive sector requests (sector + nb))

def LoopExactly (aio : Bool) (sector nb : Int) : Prop :=
  Exact limits sector nb fun fuel answers => discardLoop limits aio fuel answers sector nb

/-- What `bdrv_co_discard` is for. -/
def DiscardsExactly (bs : DiscardDevice) (sector nb : Int) : Prop :=
  Exact bs.limits sector nb fun fuel answers => bdrvCoDiscard bs fuel answers sector nb

/-- The request gets to the loop. -/
def DiscardDevice.Accepts (bs : DiscardDevice) (aio : Bool) (sector nb : Int) : Prop :=
  bs.drv = some (some aio) ∧ bdrvCheckRequest bs sector nb = true ∧ bs.readOnly = false ∧
    bs.unmap = true

/-- Each piece starts where a negative alignment, which makes `num` negative, has no effect. -/
def AlignOk (sector nb : Int) : Prop :=
  0 ≤ limits.discardAlignment ∨ limits.discardAlignment ∣ sector ∧
    (nb ≤ limits.max ∨ limits.discardAlignment ∣ limits.max)

/-- One piece is enough. -/
def OnePiece (sector nb : Int) : Prop :=
  nb ≤ limits.max ∧ (limits.discardAlignment = 0 ∨ nb < limits.discardAlignment ∨
    limits.discardAlignment ∣ sector)
end

section
variable {limits : DiscardLimits} {aio : Bool} {sector nb : Int}

lemma discardNum_of_dvd (h : limits.discardAlignment ∣ sector) :
    discardNum limits sector nb = if nb > limits.max then limits.max else nb := by
  simp [discardNum, tmod_eq_zero_of_dvd h]

section
variable (hsmall : -2 ^ 30 ≤ limits.discardAlignment) (hsector : 0 ≤ sector) (hnb : 0 < nb)
  (hint : nb < 2 ^ 31)
include hsmall hsector hnb hint

/-- Nothing is lost in `num`. -/
lemma discardNum_eq : discardNum limits sector nb = min limits.max
    (if limits.discardAlignment ≠ 0 ∧ nb ≥ limits.discardAlignment ∧
        sector.tmod limits.discardAlignment ≠ 0 then
      min limits.discardAlignment nb - sector.tmod limits.discardAlignment else nb) := by
  have hmod := tmod_nonneg limits.discardAlignment hsector
  have hlt : limits.discardAlignment ≠ 0 →
      sector.tmod limits.discardAlignment < limits.discardAlignment.natAbs := fun h => by
    rw [tmod_eq_emod_of_nonneg hsector]
    exact emod_lt sector h
  have hbmod : ∀ x : Int, -2 ^ 31 ≤ x → x < 2 ^ 31 → x.bmod (2 ^ 32) = x := fun x _ _ =>
    bmod_eq_of_le (by omega) (by omega)
  unfold discardNum
  dsimp only
  by_cases hcut : limits.discardAlignment ≠ 0 ∧ nb ≥ limits.discardAlignment ∧
      sector.tmod limits.discardAlignment ≠ 0
  · have hrem := hlt hcut.1
    rw [if_pos hcut, if_pos hcut]
    split
    · rw [hbmod limits.discardAlignment (by omega) (by omega), hbmod _ (by omega) (by omega)]
      omega
    · rw [hbmod _ (by omega) (by omega)]
      omega
  · rw [if_neg hcut, if_neg hcut]
    omega

lemma discardNum_le :
    discardNum limits sector nb ≤ nb ∧ discardNum limits sector nb ≤ limits.max := by
  have hmod := tmod_nonneg limits.discardAlignment hsector
  rw [discardNum_eq hsmall hsector hnb hint]
  split <;> omega

lemma discardNum_eq_self_iff :
    discardNum limits sector nb = nb ↔ OnePiece limits sector nb := by
  have hmod := tmod_nonneg limits.discardAlignment hsector
  have hdvd : limits.discardAlignment ∣ sector ↔ sector.tmod limits.discardAlignment = 0 :=
    dvd_iff_tmod_eq_zero
  rw [discardNum_eq hsmall hsector hnb hint, OnePiece, hdvd]
  split <;> omega

lemma dvd_of_discardNum_pos (halign : limits.discardAlignment < 0)
    (h : 0 < discardNum limits sector nb) : limits.discardAlignment ∣ sector := by
  by_contra hdvd
  have hmod := tmod_nonneg limits.discardAlignment hsector
  have hne := mt dvd_of_tmod_eq_zero hdvd
  rw [discardNum_eq hsmall hsector hnb hint, if_pos ⟨by omega, by omega, hne⟩] at h
  omega

lemma AlignOk.step (h : AlignOk limits sector nb) (hmax : 0 < limits.max) :
    0 < discardNum limits sector nb ∧ (discardNum limits sector nb < nb → AlignOk limits
      (sector + discardNum limits sector nb) (nb - discardNum limits sector nb)) := by
  rcases h with halign | ⟨hdvd, hpieces⟩
  · refine ⟨?_, fun _ => .inl halign⟩
    have hlt : limits.discardAlignment ≠ 0 →
        sector.tmod limits.discardAlignment < limits.discardAlignment := fun h =>
      tmod_lt_of_pos _ (by omega)
    rw [discardNum_eq hsmall hsector hnb hint]
    split <;> omega
  rw [discardNum_of_dvd hdvd]
  split
  · have hdvd' := hpieces.resolve_left (by omega)
    exact ⟨hmax, fun _ => .inr ⟨Int.dvd_add hdvd hdvd', .inr hdvd'⟩⟩
  · exact ⟨hnb, fun hlt => absurd hlt (lt_irrefl _)⟩
end

lemma loopExactly_zero : LoopExactly limits aio sector 0 := fun _ =>
  ⟨1, [], 0, rfl, by simp, fun _ => (Int.add_zero _).symm⟩

lemma LoopExactly.cons {num : Int} (hnum : discardNum limits sector nb = num) (hnb : 0 < nb)
    (hpos : 0 < num) (hbound : num ≤ limits.max) (hlen : aio = true → nb = num)
    (h : LoopExactly limits aio (sector + num) (nb - num)) : LoopExactly limits aio sector nb := by
  intro answers
  have hrequest : (sector, if aio then nb else num) = (sector, num) := by
    cases aio with
    | false => rfl
    | true => rw [hlen rfl, if_pos rfl]
  by_cases hret : answers 0 ≠ 0 ∧ answers 0 ≠ -95
  · refine ⟨1, [(sector, num)], answers 0, ?_, by simp [hpos, hbound],
      fun hok => absurd (hok 0) (by omega)⟩
    simp only [discardLoop, hnum, hrequest, if_pos hnb, if_pos hret]
  obtain ⟨fuel, requests, ret, hloop, hall, hexact⟩ := h fun i => answers (i + 1)
  refine ⟨fuel + 1, (sector, num) :: requests, ret, ?_, by simpa [hpos, hbound] using hall,
    fun hok => ⟨rfl, ?_⟩⟩
  · simp only [discardLoop, hnum, hrequest, if_pos hnb, if_neg hret, hloop, Option.map_some]
  · rw [show sector + nb = sector + num + (nb - num) by omega]
    exact hexact fun i => hok (i + 1)

lemma AlignOk.loopExactly (hsmall : -2 ^ 30 ≤ limits.discardAlignment) (hmax : 0 < limits.max)
    (hsector : 0 ≤ sector) (hnb : 0 < nb) (hint : nb < 2 ^ 31) (h : AlignOk limits sector nb) :
    LoopExactly limits false sector nb := by
  induction hn : nb.toNat using Nat.strongRecOn generalizing sector nb with
  | ind n ih =>
    obtain ⟨hnum, hnext⟩ := h.step hsmall hsector hnb hint hmax
    obtain ⟨hle, hbound⟩ := discardNum_le hsmall hsector hnb hint
    refine .cons rfl hnb hnum hbound nofun ?_
    rcases lt_or_eq_of_le hle with hlt | heq
    · exact ih _ (by omega) (by omega) (by omega) (by omega) (hnext hlt) rfl
    · rw [heq, Int.sub_self]
      exact loopExactly_zero

lemma discardLoop_cons {fuel : Nat} {requests : List (Int × Int)} {ret : Int} (hnb : 0 < nb)
    (h : discardLoop limits aio fuel (fun _ => 0) sector nb = some (requests, ret)) :
    ∃ fuel' rest, requests = (sector, if aio then nb else discardNum limits sector nb) :: rest ∧
      discardLoop limits aio fuel' (fun _ => 0) (sector + discardNum limits sector nb)
        (nb - discardNum limits sector nb) = some (rest, ret) := by
  cases fuel with
  | zero => cases h
  | succ fuel =>
    rw [discardLoop, if_pos hnb] at h
    simp only [ne_eq, not_true_eq_false, false_and, if_false, Option.map_eq_some_iff] at h
    obtain ⟨⟨rest, _⟩, hloop, heq⟩ := h
    cases heq
    exact ⟨fuel, rest, rfl, hloop⟩

lemma loopExactly_iff (hsmall : -2 ^ 30 ≤ limits.discardAlignment) (hsector : 0 ≤ sector)
    (hnb : 0 < nb) (hint : nb < 2 ^ 31) : LoopExactly limits aio sector nb ↔
      if aio then OnePiece limits sector nb else 0 < limits.max ∧ AlignOk limits sector nb := by
  obtain ⟨hle, hbound⟩ := discardNum_le hsmall hsector hnb hint
  constructor
  · intro h
    obtain ⟨fuel, requests, ret, hloop, hall, hexact⟩ := h fun _ => 0
    have hconsecutive := hexact fun _ => .inl rfl
    obtain ⟨fuel', rest, rfl, hrest⟩ := discardLoop_cons hnb hloop
    cases aio with
    | true =>
      refine (discardNum_eq_self_iff hsmall hsector hnb hint).mp ?_
      by_contra hne
      obtain ⟨_, _, rfl, -⟩ := discardLoop_cons (by omega) hrest
      simp [Consecutive] at hconsecutive
      omega
    | false =>
      have hnum : 0 < discardNum limits sector nb := (hall _ mem_cons_self).1
      refine ⟨by omega, or_iff_not_imp_left.mpr fun halign => ?_⟩
      have hdvd := dvd_of_discardNum_pos hsmall hsector hnb hint (by omega) hnum
      refine ⟨hdvd, or_iff_not_imp_left.mpr fun hmore => ?_⟩
      rw [discardNum_of_dvd hdvd, if_pos (by omega)] at hrest
      obtain ⟨_, _, rfl, -⟩ := discardLoop_cons (by omega) hrest
      have hsecond := dvd_of_discardNum_pos hsmall (by omega) (by omega) (by omega) (by omega)
        (hall _ (mem_cons_of_mem _ mem_cons_self)).1
      exact (Int.dvd_add_right hdvd).mp hsecond
  · intro h
    cases aio with
    | true =>
      have hnum := (discardNum_eq_self_iff hsmall hsector hnb hint).mpr h
      refine .cons hnum hnb hnb (hnum ▸ hbound) (fun _ => rfl) ?_
      rw [Int.sub_self]
      exact loopExactly_zero
    | false => exact h.2.loopExactly hsmall h.1 hsector hnb hint

variable {bs : DiscardDevice}

lemma DiscardDevice.Accepts.call_eq (h : bs.Accepts aio sector nb) (fuel : Nat)
    (answers : Nat → Int) : bdrvCoDiscard bs fuel answers sector nb =
      discardLoop bs.limits aio fuel answers sector nb := by
  simp [bdrvCoDiscard, h.1, h.2.1, h.2.2.1, h.2.2.2]

/-- A request that does not get to the loop returns at once. -/
lemma bdrvCoDiscard_of_not_accepts (h : ∀ aio, ¬ bs.Accepts aio sector nb) :
    ∃ ret, ∀ fuel answers, bdrvCoDiscard bs fuel answers sector nb = some ([], ret) := by
  unfold bdrvCoDiscard
  split
  · exact ⟨_, fun _ _ => rfl⟩
  next discard hdrv =>
    split_ifs with hcheck hread hunmap
    · exact ⟨_, fun _ _ => rfl⟩
    · exact ⟨_, fun _ _ => rfl⟩
    · exact ⟨_, fun _ _ => rfl⟩
    cases discard with
    | none => exact ⟨_, fun _ _ => rfl⟩
    | some aio => exact absurd ⟨hdrv, by simpa using hcheck, by simpa using hread,
        by simpa using hunmap⟩ (h aio)

theorem discards_exactly_iff (bs : DiscardDevice) (hsmall : -2 ^ 30 ≤ bs.limits.discardAlignment)
    (sector nb : Nat) : DiscardsExactly bs sector nb ↔ nb = 0 ∨
      ∃ aio, bs.Accepts aio sector nb ∧ if aio then OnePiece bs.limits sector nb
        else 0 < bs.limits.max ∧ AlignOk bs.limits sector nb := by
  by_cases haccepts : ∃ aio, bs.Accepts aio sector nb
  · obtain ⟨aio, haio⟩ := haccepts
    have hother : ∀ aio', bs.Accepts aio' sector nb → aio = aio' := fun aio' h' => by
      simpa [haio.1] using h'.1
    simp only [DiscardsExactly, haio.call_eq]
    rcases Nat.eq_zero_or_pos nb with rfl | hpos
    · exact iff_of_true loopExactly_zero (.inl rfl)
    have hcheck := haio.2.1
    simp only [bdrvCheckRequest, Bool.and_eq_true, decide_eq_true_eq] at hcheck
    refine (loopExactly_iff hsmall (natCast_nonneg sector) (natCast_pos.mpr hpos)
      (by omega)).trans ⟨fun h => .inr ⟨aio, haio, h⟩, ?_⟩
    rintro (hzero | ⟨aio', h', hcond⟩)
    · omega
    · rwa [hother aio' h']
  · obtain ⟨ret, hret⟩ := bdrvCoDiscard_of_not_accepts (not_exists.mp haccepts)
    simp only [DiscardsExactly, Exact, hret]
    constructor
    · intro h
      obtain ⟨_, _, _, hsome, _, hexact⟩ := h fun _ => 0
      cases hsome
      have hempty : (sector : Int) = sector + nb := hexact fun _ => .inl rfl
      exact .inl (by omega)
    · rintro (rfl | ⟨aio, h, _⟩)
      · exact fun _ => ⟨0, [], ret, rfl, by simp, fun _ => (Int.add_zero _).symm⟩
      · exact absurd ⟨aio, h⟩ haccepts

/-- A device of 64 sectors that passes discards on. -/
def exDevice (aio : Bool) (limits : DiscardLimits) : DiscardDevice :=
  { drv := some (some aio), inserted := true, growable := false, length := 64 * 512
    readOnly := false, unmap := true, limits := limits }

theorem discards_exactly_in_pieces : DiscardsExactly (exDevice false ⟨8, 4⟩) 3 20 :=
  (discards_exactly_iff (exDevice false ⟨8, 4⟩) (by decide) 3 20).mpr
    (.inr ⟨false, ⟨rfl, by decide, rfl, rfl⟩, by decide, .inl (by decide)⟩)

/-- The second request of two is a part of the first one. -/
theorem discards_overlap : ¬ DiscardsExactly (exDevice true ⟨8, 0⟩) 0 16 ∧
    bdrvCoDiscard (exDevice true ⟨8, 0⟩) 3 (fun _ => 0) 0 16 = some ([(0, 16), (8, 8)], 0) := by
  refine ⟨fun h => ?_, by decide⟩
  obtain ⟨fuel, requests, ret, hcall, hall, -⟩ := h fun _ => 0
  have hloop : discardLoop ⟨8, 0⟩ true fuel (fun _ => 0) 0 16 = some (requests, ret) := hcall
  obtain ⟨_, _, rfl, -⟩ := discardLoop_cons (by decide) hloop
  exact absurd (hall _ mem_cons_self).2 (by decide)
end

/-- What happens to the sectors from `first` to `first + more`. -/
inductive DirtyOp (ι : Type*)
  | write (first more : Nat)
  | discard (first more : Nat)
  | clear (i : ι) (first more : Nat)

/-- The dirty bitmap of each consumer, and the granules that were written or discarded since the
consumer has cleared them. -/
structure DirtyBitmaps (ι : Type*) where
  dirty : ι → Nat → Bool
  changed : ι → Nat → Bool

section
variable {ι : Type*} [DecidableEq ι] (granularity : ι → Nat)

/-- The bits of a bitmap that `hbitmap_set` and `hbitmap_reset` change. -/
def touched (first more : Nat) (i : ι) (g : Nat) : Bool :=
  decide (first / 2 ^ granularity i ≤ g) && decide (g ≤ (first + more) / 2 ^ granularity i)

def bdrvSetDirty (dirty : ι → Nat → Bool) (first more : Nat) (i : ι) (g : Nat) : Bool :=
  touched granularity first more i g || dirty i g

def bdrvResetDirty (dirty : ι → Nat → Bool) (first more : Nat) (i : ι) (g : Nat) : Bool :=
  !touched granularity first more i g && dirty i g

section
variable (s : DirtyBitmaps ι)

def dirtyStep : DirtyOp ι → DirtyBitmaps ι
  | .write first more => ⟨bdrvSetDirty granularity s.dirty first more,
      bdrvSetDirty granularity s.changed first more⟩
  | .discard first more => ⟨bdrvResetDirty granularity s.dirty first more,
      bdrvSetDirty granularity s.changed first more⟩
  | .clear j first more => ⟨bdrvResetDirty granularity s.dirty first more, fun i =>
      if i = j then bdrvResetDirty granularity s.changed first more i else s.changed i⟩

def dirtyRun (ops : List (DirtyOp ι)) : DirtyBitmaps ι :=
  ops.foldl (dirtyStep granularity) ⟨fun _ _ => false, fun _ _ => false⟩

def DirtyBitmaps.NothingHidden : Prop :=
  ∀ i g, s.dirty i g = false → s.changed i g = false

def DirtyOp.Apart : DirtyOp ι → Prop
  | .write _ _ => True
  | .discard _ _ => IsEmpty ι
  | .clear j first more => ∀ i, i ≠ j → ∀ g, touched granularity first more i g = true →
      s.changed i g = false
end

lemma nothingHidden_step {s : DirtyBitmaps ι} (h : s.NothingHidden) (op : DirtyOp ι) :
    (dirtyStep granularity s op).NothingHidden ↔ op.Apart granularity s := by
  cases op with
  | write first more =>
    refine iff_of_true (fun i g hclean => ?_) trivial
    simp only [dirtyStep, bdrvSetDirty, Bool.or_eq_false_iff] at hclean ⊢
    exact ⟨hclean.1, h i g hclean.2⟩
  | discard first more =>
    refine ⟨fun hhidden => ⟨fun i => ?_⟩, fun hempty i => hempty.elim i⟩
    have htouched : touched granularity first more i (first / 2 ^ granularity i) = true := by
      simp [touched, Nat.div_le_div_right]
    have hclean := hhidden i (first / 2 ^ granularity i)
    simp [dirtyStep, bdrvSetDirty, bdrvResetDirty, htouched] at hclean
  | clear j first more =>
    constructor
    · intro hhidden i hne g htouched
      have hclean := hhidden i g
      simpa [dirtyStep, bdrvResetDirty, htouched, hne] using hclean
    intro hapart i g hclean
    simp only [dirtyStep, bdrvResetDirty] at hclean ⊢
    cases htouched : touched granularity first more i g with
    | false =>
      simp only [htouched, Bool.not_false, Bool.true_and] at hclean
      split <;> simp [bdrvResetDirty, h i g hclean]
    | true =>
      split
      · simp [bdrvResetDirty, htouched]
      next hne => exact hapart i hne g htouched

theorem nothing_hidden_iff (ops : List (DirtyOp ι)) :
    (∀ done, done <+: ops → (dirtyRun granularity done).NothingHidden) ↔
      ∀ done op, done ++ [op] <+: ops → op.Apart granularity (dirtyRun granularity done) := by
  have hstep (done op) : dirtyRun granularity (done ++ [op]) =
      dirtyStep granularity (dirtyRun granularity done) op := foldl_append ..
  constructor
  · intro h done op hpre
    rw [← nothingHidden_step granularity (h done ((prefix_append _ _).trans hpre)), ← hstep]
    exact h _ hpre
  intro h done hpre
  induction done using reverseRecOn with
  | nil => exact fun _ _ _ => rfl
  | append_singleton done op ih =>
    rw [hstep, nothingHidden_step granularity (ih ((prefix_append _ _).trans hpre))]
    exact h done op hpre

/-- A consumer clears a sector that has been written, and the other one does not see the write. A
discard is seen by none. -/
theorem changes_hidden :
    ¬ (dirtyRun (fun _ : Bool => 7) [.write 0 0, .clear true 0 0]).NothingHidden ∧
    ¬ (dirtyRun (fun _ : Unit => 7) [.discard 0 0]).NothingHidden :=
  ⟨fun h => absurd (h false 0) (by decide), fun h => absurd (h () 0) (by decide)⟩
end

end QemuVmi.Block
