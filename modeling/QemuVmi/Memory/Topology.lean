import QemuVmi.Memory.FlatView

/-!
# The flat view of a hierarchy

What a flat view says about each address, `FlatView.at`, against the rule by which a
hierarchy resolves an address, `resolve`.

Results:
1. `fillGaps_spec`: a region is rendered into the gaps of a view and nowhere else.
2. `mergeRanges_spec`: merging ranges changes nothing for any address.
3. `renderMemoryRegion_spec`: rendering adds what the region resolves, behind what is
   there already.
4. `generateMemoryTopology_resolves`: the flat view agrees with `resolve` at every address.
-/

namespace QemuVmi.Memory

open SortedRanges Option List

structure Resolved where
  mr : Rid
  offset : HwAddr
  readonly : Bool
  dirtyLogMask : BitVec 8
  romdMode : Bool
deriving DecidableEq, Repr

def FlatRange.resolved (r : FlatRange) (a : Int) : Resolved :=
  ⟨r.mr, r.offsetInRegion + BitVec.ofInt 64 (a - r.addr.start), r.readonly, r.dirtyLogMask,
    r.romdMode⟩

abbrev FlatRange.lo (r : FlatRange) : Int := r.addr.start

abbrev FlatRange.hi (r : FlatRange) : Int := r.addr.endAddr

def FlatView.at (view : FlatView) (a : Int) : Option Resolved :=
  (lookup FlatRange.lo FlatRange.hi view a).map fun r => r.resolved a

/-- The rule for an address in the region `mr` at `base`: an alias passes it on, and
otherwise the first subregion that resolves it decides, or the region itself if it
terminates. -/
def resolveIn (regions : Regions) (inner : Rid → Int → Bool → Int → Option Resolved) (mr : Rid)
    (base : Int) (readonly : Bool) (a : Int) : Option Resolved :=
  let m := regions mr
  match m.aliasMr with
  | some target =>
    inner target (base - int128Make64 (regions target).addr - int128Make64 m.aliasOffset) readonly a
  | none =>
    (m.subregions.findSome? fun sub => inner sub base readonly a).or (if m.terminates then
        some ⟨mr, BitVec.ofInt 64 (a - base), readonly, m.dirtyLogMask, m.romdMode⟩
      else none)

/-- The rule for an address, with the parent of the region `mr` at `base`: the region is
enabled and contains the address. -/
def resolve (regions : Regions) : Nat → Rid → Int → Bool → Int → Option Resolved
  | 0, _, _, _, _ => none
  | fuel + 1, mr, base, readonly, a =>
      let base := base + int128Make64 (regions mr).addr
      if (regions mr).enabled ∧ base ≤ a ∧ a < base + (regions mr).size then
        resolveIn regions (resolve regions fuel) mr base (readonly || (regions mr).readonly) a
      else none

/-- Sorted, nonempty and disjoint ranges between `b` and `u`. -/
structure ViewIn (b u : Int) (view : FlatView) : Prop where
  sorted : SortedFrom FlatRange.lo FlatRange.hi b view
  le : ∀ r ∈ view, r.hi ≤ u

section
variable {view : FlatView} {r fr : FlatRange} {c c' : Cursor} {a b u now : Int}

lemma at_nil (a : Int) : FlatView.at [] a = none := rfl

lemma at_cons (r : FlatRange) (view : FlatView) (a : Int) :
    FlatView.at (r :: view) a = if r.lo ≤ a ∧ a < r.hi then some (r.resolved a) else view.at a := by
  rw [FlatView.at, lookup_cons]
  split <;> rfl

lemma ViewIn.nil (b u : Int) : ViewIn b u [] := ⟨trivial, nofun⟩

lemma ViewIn.cons (hb : b ≤ r.lo) (hne : r.lo < r.hi) (hu : r.hi ≤ u) (h : ViewIn r.hi u view) :
    ViewIn b u (r :: view) :=
  ⟨⟨hb, hne, h.sorted⟩, fun s hs => by
    rcases List.mem_cons.mp hs with rfl | hs
    · exact hu
    · exact h.le s hs⟩

lemma ViewIn.tail (h : ViewIn b u (r :: view)) : ViewIn r.hi u view :=
  ⟨h.sorted.2.2, fun s hs => h.le s (mem_cons_of_mem r hs)⟩

lemma ViewIn.at_eq_none (h : ViewIn b u view) (ha : a < b) : view.at a = none := by
  rw [FlatView.at, h.sorted.lookup_eq_none ha, map_none]

def Cursor.fill (c : Cursor) (fr : FlatRange) (a : Int) : Resolved :=
  ⟨fr.mr, c.offset + BitVec.ofInt 64 (a - c.base), fr.readonly, fr.dirtyLogMask, fr.romdMode⟩

lemma Cursor.resolved_piece (c : Cursor) (fr : FlatRange) (now a : Int) :
    (c.piece fr now).resolved a = c.fill fr a := rfl

lemma Cursor.piece_lo (c : Cursor) (fr : FlatRange) (now : Int) : (c.piece fr now).lo = c.base := rfl

lemma Cursor.piece_hi (c : Cursor) (fr : FlatRange) (now : Int) :
    (c.piece fr now).hi = c.base + now := rfl

lemma Cursor.advance_eq (hnow : 0 ≤ now) (hlt : now < 2 ^ 64) :
    c.advance now = some ⟨c.base + now, c.remain - now, c.offset + BitVec.ofInt 64 now⟩ := by
  rw [Cursor.advance, int128Get64, if_pos ⟨hnow, hlt⟩, map_some]

lemma Cursor.advance_some (h : c.advance now = some c') :
    c'.base = c.base + now ∧ c'.remain = c.remain - now ∧ ∀ fr a, c'.fill fr a = c.fill fr a := by
  obtain ⟨n, hn, rfl⟩ := map_eq_some_iff.mp h
  refine ⟨rfl, rfl, fun fr a => ?_⟩
  unfold int128Get64 at hn
  split at hn
  · cases hn
    have hsum : BitVec.ofInt 64 now + BitVec.ofInt 64 (a - (c.base + now)) =
        BitVec.ofInt 64 (a - c.base) := by
      rw [← BitVec.ofInt_add]
      congr 1
      omega
    simp only [Cursor.fill, BitVec.add_assoc, hsum]
  · cases hn

def Cursor.over (c : Cursor) (fr : FlatRange) (view : FlatView) (a : Int) : Option Resolved :=
  (view.at a).or (if c.base ≤ a ∧ a < c.base + c.remain then some (c.fill fr a) else none)

lemma over_congr (hfill : c'.fill fr a = c.fill fr a)
    (hiff : (c'.base ≤ a ∧ a < c'.base + c'.remain) ↔ (c.base ≤ a ∧ a < c.base + c.remain)) :
    c'.over fr view a = c.over fr view a := by
  rw [Cursor.over, Cursor.over, hfill]
  simp only [hiff]

lemma over_cons (c : Cursor) (fr r : FlatRange) (view : FlatView) (a : Int) :
    c.over fr (r :: view) a =
      if r.lo ≤ a ∧ a < r.hi then some (r.resolved a) else c.over fr view a := by
  rw [Cursor.over, Cursor.over, at_cons]
  split
  · rw [some_or]
  · rfl

lemma fillGaps_spec (hview : ViewIn b u view) (hbase : c.remain ≠ 0 → b ≤ c.base)
    (hremain : 0 ≤ c.remain) (hu : c.base + c.remain ≤ u) {out : FlatView}
    (hrun : fillGaps fr view c = some out) : ViewIn b u out ∧ ∀ a, out.at a = c.over fr view a := by
  induction view generalizing b c out with
  | nil =>
    cases hrun
    by_cases hzero : c.remain = 0
    · rw [if_neg (not_not.mpr hzero)]
      refine ⟨ViewIn.nil b u, fun a => ?_⟩
      rw [Cursor.over, if_neg (by omega), at_nil, or_none]
    rw [if_pos hzero]
    refine ⟨.cons (hbase hzero) ?_ hu (ViewIn.nil _ u), fun a => ?_⟩
    · rw [c.piece_lo, c.piece_hi]
      omega
    · rw [at_cons, at_nil, c.resolved_piece, Cursor.over, at_nil, none_or, c.piece_lo, c.piece_hi]
  | cons r rs ih =>
    obtain ⟨hb, hne, _⟩ := hview.sorted
    have hru : r.hi ≤ u := hview.le r mem_cons_self
    have hrest := hview.tail
    rw [fillGaps] at hrun
    by_cases hzero : c.remain = 0
    · -- nothing is left of the region
      rw [if_pos hzero] at hrun
      cases hrun
      refine ⟨hview, fun a => ?_⟩
      rw [Cursor.over, if_neg (by omega), or_none]
    rw [if_neg hzero] at hrun
    by_cases hpast : r.hi ≤ c.base
    · -- the range is before the region
      rw [if_pos hpast] at hrun
      obtain ⟨rest, hrest', rfl⟩ := map_eq_some_iff.mp hrun
      obtain ⟨hout, hat⟩ := ih hrest (fun _ => hpast) hremain hu hrest'
      refine ⟨.cons hb hne hru hout, fun a => ?_⟩
      rw [at_cons, over_cons, hat]
    rw [if_neg hpast] at hrun
    by_cases hgap : c.base < r.lo
    · -- the region starts in the gap before the range
      rw [if_pos hgap] at hrun
      obtain ⟨c', hadvance, hrun⟩ := bind_eq_some_iff.mp hrun
      obtain ⟨c'', hskip, hrun⟩ := bind_eq_some_iff.mp hrun
      obtain ⟨rest, hrest', rfl⟩ := map_eq_some_iff.mp hrun
      obtain ⟨hbase', hremain', hfill'⟩ := Cursor.advance_some hadvance
      obtain ⟨hbase'', hremain'', hfill''⟩ := Cursor.advance_some hskip
      change c'.base = c.base + min c.remain (r.lo - c.base) at hbase'
      change c'.remain = c.remain - min c.remain (r.lo - c.base) at hremain'
      change c''.base = c'.base + (min (c'.base + c'.remain) r.hi - c'.base) at hbase''
      change c''.remain = c'.remain - (min (c'.base + c'.remain) r.hi - c'.base) at hremain''
      obtain ⟨hout, hat⟩ := @ih c'' r.hi hrest (by omega) (by omega) (by omega) rest hrest'
      refine ⟨.cons (hbase hzero) ?_ ?_ (.cons ?_ hne hru hout), fun a => ?_⟩
      · change c.base < c.base + min c.remain (r.lo - c.base)
        omega
      · change c.base + min c.remain (r.lo - c.base) ≤ u
        omega
      · change c.base + min c.remain (r.lo - c.base) ≤ r.lo
        omega
      rw [at_cons, at_cons, over_cons, hat, c.resolved_piece]
      change (if c.base ≤ a ∧ a < c.base + min c.remain (r.lo - c.base) then _ else _) = _
      by_cases hin : c.base ≤ a ∧ a < c.base + min c.remain (r.lo - c.base)
      · -- the piece is in front of all ranges of the view
        rw [if_pos hin, if_neg (by omega), Cursor.over, (hrest.at_eq_none (by omega)),
          none_or, if_pos (by omega)]
      rw [if_neg hin]
      split
      · rfl
      · next hr => exact over_congr ((hfill'' fr a).trans (hfill' fr a)) (by omega)
    · -- the range obscures the start of the region
      rw [if_neg hgap] at hrun
      obtain ⟨c', hskip, hrun⟩ := bind_eq_some_iff.mp hrun
      obtain ⟨rest, hrest', rfl⟩ := map_eq_some_iff.mp hrun
      obtain ⟨hbase', hremain', hfill'⟩ := Cursor.advance_some hskip
      change c'.base = c.base + (min (c.base + c.remain) r.hi - c.base) at hbase'
      change c'.remain = c.remain - (min (c.base + c.remain) r.hi - c.base) at hremain'
      obtain ⟨hout, hat⟩ := @ih c' r.hi hrest (by omega) (by omega) (by omega) rest hrest'
      refine ⟨.cons hb hne hru hout, fun a => ?_⟩
      rw [at_cons, over_cons, hat]
      split
      · rfl
      · next hr => exact over_congr (hfill' fr a) (by omega)

lemma Cursor.skip_eq (hne : c.base < r.hi) (hremain : 0 ≤ c.remain) (hlt : c.remain < 2 ^ 64) :
    ∃ c', c.skip r = some c' ∧ 0 ≤ c'.remain ∧ c'.remain ≤ c.remain := by
  refine ⟨_, Cursor.advance_eq ?_ ?_, ?_, ?_⟩ <;> (try dsimp only) <;>
    (simp only [FlatRange.hi] at hne; omega)

lemma fillGaps_isSome (hview : ViewIn b u view) (hremain : 0 ≤ c.remain)
    (hlt : c.remain < 2 ^ 64) (fr : FlatRange) : ∃ out, fillGaps fr view c = some out := by
  induction view generalizing b c with
  | nil => exact ⟨_, rfl⟩
  | cons r rs ih =>
    obtain ⟨_, hne, _⟩ := hview.sorted
    rw [fillGaps]
    split
    · exact ⟨_, rfl⟩
    split
    · obtain ⟨out, hout⟩ := ih hview.tail hremain hlt
      exact ⟨_, map_eq_some_iff.mpr ⟨out, hout, rfl⟩⟩
    split
    · next _ _ hgap =>
      change c.base < r.lo at hgap
      have hadvance := @Cursor.advance_eq c (min c.remain (r.lo - c.base)) (by omega) (by omega)
      obtain ⟨c'', hskip, hnonneg, hle⟩ := @Cursor.skip_eq r ⟨_, _, _⟩
        (show c.base + min c.remain (r.lo - c.base) < r.hi by omega)
        (show 0 ≤ c.remain - min c.remain (r.lo - c.base) by omega)
        (show c.remain - min c.remain (r.lo - c.base) < 2 ^ 64 by omega)
      obtain ⟨out, hout⟩ := @ih c'' r.hi hview.tail hnonneg (by dsimp only at hle; omega)
      exact ⟨_, bind_eq_some_iff.mpr ⟨_, hadvance, bind_eq_some_iff.mpr
        ⟨c'', hskip, map_eq_some_iff.mpr ⟨out, hout, rfl⟩⟩⟩⟩
    · next _ hpast _ =>
      obtain ⟨c', hskip, hnonneg, hle⟩ := Cursor.skip_eq (not_le.mp hpast) hremain hlt
      obtain ⟨out, hout⟩ := ih hview.tail hnonneg (by omega)
      exact ⟨_, bind_eq_some_iff.mpr ⟨c', hskip, map_eq_some_iff.mpr ⟨out, hout, rfl⟩⟩⟩

/-- `first` is `prev` with ranges merged into it from the front. -/
structure Extends (first prev : FlatRange) : Prop where
  mr : first.mr = prev.mr
  dirtyLogMask : first.dirtyLogMask = prev.dirtyLogMask
  romdMode : first.romdMode = prev.romdMode
  readonly : first.readonly = prev.readonly
  hi : first.hi = prev.hi
  offset : int128Make64 first.offsetInRegion + (prev.lo - first.lo) =
    int128Make64 prev.offsetInRegion

lemma ofInt_int128Make64 (x : HwAddr) : BitVec.ofInt 64 (int128Make64 x) = x := by
  rw [int128Make64, BitVec.ofInt_natCast, BitVec.ofNat_toNat, BitVec.setWidth_eq]

variable {first prev : FlatRange}

lemma Extends.resolved (h : Extends first prev) (a : Int) :
    first.resolved a = prev.resolved a := by
  have hoffset : first.offsetInRegion + BitVec.ofInt 64 (a - first.lo) =
      prev.offsetInRegion + BitVec.ofInt 64 (a - prev.lo) := by
    rw [← ofInt_int128Make64 first.offsetInRegion, ← ofInt_int128Make64 prev.offsetInRegion,
      ← h.offset, ← BitVec.ofInt_add, ← BitVec.ofInt_add]
    congr 1
    omega
  rw [FlatRange.resolved, FlatRange.resolved, h.mr, h.readonly, h.dirtyLogMask, h.romdMode, hoffset]

lemma Extends.refl (r : FlatRange) : Extends r r :=
  ⟨rfl, rfl, rfl, rfl, rfl, by rw [sub_self, add_zero]⟩

lemma Extends.merge (h : Extends first prev) (hmerge : canMerge prev r = true) :
    Extends { first with addr := ⟨first.addr.start, first.addr.size + r.addr.size⟩ } r ∧
      first.hi = r.lo := by
  simp only [canMerge, Bool.and_eq_true, beq_iff_eq] at hmerge
  obtain ⟨⟨⟨⟨⟨hend, hmr⟩, hoffset⟩, hmask⟩, hromd⟩, hreadonly⟩ := hmerge
  have hhi := h.hi
  have hoff := h.offset
  simp only [FlatRange.hi, FlatRange.lo, AddrRange.endAddr] at hhi hoff hend
  refine ⟨⟨h.mr.trans hmr, h.dirtyLogMask.trans hmask, h.romdMode.trans hromd,
    h.readonly.trans hreadonly, ?_, ?_⟩, ?_⟩
  · simp only [FlatRange.hi, AddrRange.endAddr]
    omega
  · simp only [FlatRange.lo]
    omega
  · simp only [FlatRange.hi, FlatRange.lo, AddrRange.endAddr]
    omega

lemma mergeRanges_spec (hext : Extends first prev) (hb : b ≤ first.lo) (hne : first.lo < first.hi)
    (hu : first.hi ≤ u) (hview : ViewIn prev.hi u view) :
    ViewIn b u (mergeRanges first prev view) ∧ ∀ a, (mergeRanges first prev view).at a =
      if first.lo ≤ a ∧ a < first.hi then some (first.resolved a) else view.at a := by
  induction view generalizing first prev b with
  | nil => exact ⟨.cons hb hne hu (ViewIn.nil _ u), fun a => at_cons first [] a⟩
  | cons r rs ih =>
    obtain ⟨hlo, hr, _⟩ := hview.sorted
    have hru := hview.le r mem_cons_self
    rw [mergeRanges]
    by_cases hmerge : canMerge prev r = true
    · obtain ⟨hext', htouch⟩ := hext.merge hmerge
      have hhi := hext'.hi
      obtain ⟨hout, hat⟩ := ih hext' hb (by rw [hhi]; dsimp only [FlatRange.lo] at *; omega)
        (by rw [hhi]; exact hru) hview.tail
      rw [if_pos hmerge]
      refine ⟨hout, fun a => ?_⟩
      rw [hat, hhi, at_cons]
      change (if first.lo ≤ a ∧ a < r.hi then some (first.resolved a) else
        FlatView.at rs a) = _
      by_cases hin : first.lo ≤ a ∧ a < first.hi
      · rw [if_pos hin, if_pos (by omega)]
      rw [if_neg hin]
      by_cases hinr : r.lo ≤ a ∧ a < r.hi
      · rw [if_pos hinr, if_pos (by omega)]
        exact congrArg some (hext'.resolved a)
      · rw [if_neg hinr, if_neg (by omega)]
    · obtain ⟨hout, hat⟩ := ih (Extends.refl r) (hext.hi ▸ hlo) hr hru hview.tail
      rw [if_neg hmerge]
      refine ⟨.cons hb hne hu hout, fun a => ?_⟩
      rw [at_cons, hat, at_cons]

lemma flatviewSimplify_spec (hview : ViewIn b u view) :
    ViewIn b u (flatviewSimplify view) ∧ ∀ a, (flatviewSimplify view).at a = view.at a := by
  cases view with
  | nil => exact ⟨hview, fun _ => rfl⟩
  | cons r rs =>
    obtain ⟨hb, hne, _⟩ := hview.sorted
    obtain ⟨hout, hat⟩ := mergeRanges_spec (Extends.refl r) hb hne (hview.le r mem_cons_self)
      hview.tail
    exact ⟨hout, fun a => (hat a).trans (at_cons r rs a).symm⟩
end

/-- The hierarchy has no cycle, through subregions and aliases: a region is above all
that it is rendered from. -/
def Ranked (regions : Regions) (rank : Rid → Nat) : Prop :=
  ∀ mr, (∀ sub ∈ (regions mr).subregions, rank sub < rank mr) ∧
    ∀ target, (regions mr).aliasMr = some target → rank target < rank mr

def TerminatesSmall (regions : Regions) : Prop :=
  ∀ mr, (regions mr).terminates = true → (regions mr).size < 2 ^ 64

variable {r tmp clip : AddrRange} {view view' : FlatView} {g : Int → Option Resolved}
  {step : FlatView → Rid → Option FlatView}

section
variable {regions : Regions} {rank : Rid → Nat}

lemma AddrRange.contains_iff {a : Int} : r.contains a = true ↔ r.start ≤ a ∧ a < r.endAddr := by
  rw [AddrRange.contains, Bool.and_eq_true, decide_eq_true_iff, decide_eq_true_iff]

lemma AddrRange.intersects_iff {s : AddrRange} : r.intersects s = true ↔
    (r.start ≤ s.start ∧ s.start < r.endAddr) ∨ (s.start ≤ r.start ∧ r.start < s.endAddr) := by
  rw [AddrRange.intersects, Bool.or_eq_true, contains_iff, contains_iff]

def Renders (view view' : FlatView) (clip : AddrRange) (f : Int → Option Resolved) : Prop :=
  ViewIn 0 (2 ^ 64) view' ∧
    ∀ a, view'.at a = (view.at a).or (if clip.start ≤ a ∧ a < clip.endAddr then f a else none)

structure ClipOk (clip : AddrRange) : Prop where
  start : 0 ≤ clip.start
  size : 0 ≤ clip.size
  endAddr : clip.endAddr ≤ 2 ^ 64

lemma clipOk_all : ClipOk ⟨0, 2 ^ 64⟩ := ⟨by decide, by decide, by decide⟩

variable {f : Int → Option Resolved}

lemma Renders.none (hview : ViewIn 0 (2 ^ 64) view)
    (hf : ∀ a, clip.start ≤ a ∧ a < clip.endAddr → f a = none) : Renders view view clip f := by
  refine ⟨hview, fun a => ?_⟩
  split
  · next h => rw [hf a h, or_none]
  · rw [or_none]

lemma Renders.trans {view₁ view₂ : FlatView}
    (h : Renders view view₁ clip f) (h' : Renders view₁ view₂ clip g) :
    Renders view view₂ clip fun a => (f a).or (g a) := by
  refine ⟨h'.1, fun a => ?_⟩
  rw [h'.2, h.2, Option.or_assoc]
  split
  · rfl
  · rw [or_none]

lemma renders_foldlM {f : Rid → Int → Option Resolved} {subs : List Rid} {out : FlatView}
    (hstep : ∀ sub ∈ subs, ∀ view view', ViewIn 0 (2 ^ 64) view → step view sub = some view' →
      Renders view view' clip (f sub))
    (hview : ViewIn 0 (2 ^ 64) view) (hrun : subs.foldlM step view = some out) :
    Renders view out clip fun a => subs.findSome? fun sub => f sub a := by
  induction subs generalizing view with
  | nil =>
    cases hrun
    exact Renders.none hview fun _ _ => rfl
  | cons sub subs ih =>
    obtain ⟨view₁, hfirst, hrest⟩ := bind_eq_some_iff.mp (List.foldlM_cons.symm.trans hrun)
    have hrender := hstep sub mem_cons_self view view₁ hview hfirst
    have hrender' := ih (fun sub hsub => hstep sub (mem_cons_of_mem _ hsub)) hrender.1 hrest
    simp only [List.findSome?_cons]
    convert hrender.trans hrender' using 2 with a
    cases f sub a with
    | none | some x => rfl

lemma foldlM_isSome {subs : List Rid} (hstep : ∀ sub ∈ subs, ∀ view, ViewIn 0 (2 ^ 64) view →
      ∃ view', step view sub = some view' ∧ ViewIn 0 (2 ^ 64) view')
    (hview : ViewIn 0 (2 ^ 64) view) :
    ∃ view', subs.foldlM step view = some view' ∧ ViewIn 0 (2 ^ 64) view' := by
  induction subs generalizing view with
  | nil => exact ⟨view, rfl, hview⟩
  | cons sub subs ih =>
    obtain ⟨view₁, hfirst, hview₁⟩ := hstep sub mem_cons_self view hview
    obtain ⟨view₂, hrest, hview₂⟩ :=
      ih (fun sub hsub => hstep sub (mem_cons_of_mem _ hsub)) hview₁
    refine ⟨view₂, ?_, hview₂⟩
    rwa [foldlM_cons, hfirst]

lemma renderSelf_spec {mr : Rid} {m : MemoryRegion} {base : Int}
    {readonly : Bool} (hview : ViewIn 0 (2 ^ 64) view) (hclip : ClipOk clip)
    (hrun : renderSelf mr m view base clip readonly = some view') :
    Renders view view' clip fun a =>
      some ⟨mr, BitVec.ofInt 64 (a - base), readonly, m.dirtyLogMask, m.romdMode⟩ := by
  obtain ⟨offset, hoffset, hrun⟩ := bind_eq_some_iff.mp hrun
  obtain ⟨hout, hat⟩ := @fillGaps_spec _ _ ⟨clip.start, clip.size, offset⟩ _ _ hview
    (fun _ => hclip.start) hclip.size hclip.endAddr _ hrun
  refine ⟨hout, fun a => ?_⟩
  unfold int128Get64 at hoffset
  split at hoffset
  · have hsum : offset + BitVec.ofInt 64 (a - clip.start) = BitVec.ofInt 64 (a - base) := by
      rw [← Option.some.inj hoffset, ← BitVec.ofInt_add]
      congr 1
      omega
    rw [hat, Cursor.over, Cursor.fill, hsum]
    rfl
  · cases hoffset

lemma renderSelf_isSome {mr : Rid} {m : MemoryRegion} {base : Int}
    (hview : ViewIn 0 (2 ^ 64) view) (hclip : ClipOk clip)
    (hbase : base ≤ clip.start) (hstart : clip.start ≤ base + m.size)
    (hend : clip.size ≤ m.size) (hsize : m.size < 2 ^ 64) (readonly : Bool) :
    ∃ view', renderSelf mr m view base clip readonly = some view' := by
  have hnonneg := hclip.size
  obtain ⟨out, hrun⟩ :=
    @fillGaps_isSome view ⟨clip.start, clip.size, BitVec.ofInt 64 (clip.start - base)⟩ 0 (2 ^ 64)
      hview hnonneg (by dsimp only; omega)
      ⟨mr, 0#64, ⟨0, 0⟩, m.dirtyLogMask, m.romdMode, readonly⟩
  refine ⟨out, ?_⟩
  rw [renderSelf, int128Get64, if_pos (by omega), bind_some, hrun]

lemma Renders.clipped (h : Renders view view' (tmp.intersection clip) g)
    (hf : ∀ a, f a = if tmp.start ≤ a ∧ a < tmp.endAddr then g a else Option.none) :
    Renders view view' clip f := by
  refine ⟨h.1, fun a => ?_⟩
  have hiff : ((tmp.intersection clip).start ≤ a ∧ a < (tmp.intersection clip).endAddr) ↔
      (clip.start ≤ a ∧ a < clip.endAddr) ∧ tmp.start ≤ a ∧ a < tmp.endAddr := by
    simp only [AddrRange.intersection, AddrRange.endAddr]
    omega
  rw [h.2 a, hf a, ← ite_and]
  simp only [hiff]

lemma ClipOk.intersection (h : ClipOk clip)
    (hinter : tmp.intersects clip = true) (hsize : 0 ≤ tmp.size) :
    ClipOk (tmp.intersection clip) := by
  have hcase := AddrRange.intersects_iff.mp hinter
  obtain ⟨hstart, hclip, hend⟩ := h
  simp only [AddrRange.endAddr] at hcase hend
  refine ⟨?_, ?_, ?_⟩
  · simp only [AddrRange.intersection]
    omega
  · simp only [AddrRange.intersection, AddrRange.endAddr]
    omega
  · simp only [AddrRange.intersection, AddrRange.endAddr]
    omega

lemma resolve_of_enabled {mr : Rid} (henabled : (regions mr).enabled = true) (fuel : Nat)
    (base : Int) (readonly : Bool) (a : Int) :
    resolve regions (fuel + 1) mr base readonly a = if base + int128Make64 (regions mr).addr ≤ a ∧
          a < base + int128Make64 (regions mr).addr + (regions mr).size then
        resolveIn regions (resolve regions fuel) mr (base + int128Make64 (regions mr).addr)
          (readonly || (regions mr).readonly) a
      else none := by
  rw [resolve]
  simp only [henabled, true_and]

lemma renderMemoryRegion_spec {fuel : Nat} {mr : Rid} {base : Int} {clip : AddrRange}
    {readonly : Bool} {view view' : FlatView} (hview : ViewIn 0 (2 ^ 64) view) (hclip : ClipOk clip)
    (hrun : renderMemoryRegion regions fuel view mr base clip readonly = some view') :
    Renders view view' clip (resolve regions fuel mr base readonly) := by
  induction fuel generalizing mr base clip readonly view view' with
  | zero => cases hrun
  | succ fuel ih =>
    rw [renderMemoryRegion] at hrun
    by_cases henabled : (regions mr).enabled = true
    swap
    · obtain rfl : view = view' := by simpa [henabled] using hrun
      refine Renders.none hview fun a _ => ?_
      rw [resolve]
      exact if_neg fun h => henabled h.1
    simp only [henabled, Bool.not_true, Bool.false_eq_true, if_false] at hrun
    by_cases hinter : AddrRange.intersects ⟨base + int128Make64 (regions mr).addr, (regions mr).size⟩
        clip = true
    swap
    · obtain rfl : view = view' := by simpa [hinter] using hrun
      refine Renders.none hview fun a ha => ?_
      rw [resolve]
      refine if_neg fun h => hinter (AddrRange.intersects_iff.mpr ?_)
      simp only [AddrRange.endAddr] at ha ⊢
      omega
    simp only [hinter, Bool.not_true, Bool.false_eq_true, if_false] at hrun
    have hclip' := hclip.intersection hinter (Int.natCast_nonneg _)
    have hresolve := resolve_of_enabled henabled fuel base readonly
    cases hal : (regions mr).aliasMr with
    | some target =>
      rw [hal] at hrun
      refine (ih hview hclip' hrun).clipped fun a => ?_
      rw [hresolve, resolveIn, hal]
      rfl
    | none =>
      rw [hal] at hrun
      obtain ⟨view₁, hfold, hself⟩ := bind_eq_some_iff.mp hrun
      have hrender := renders_foldlM (fun sub _ view view' hview hrun =>
        @ih sub _ _ (readonly || (regions mr).readonly) view view' hview hclip' hrun) hview hfold
      cases hterm : (regions mr).terminates with
      | false =>
        obtain rfl : view₁ = view' := by simpa [hterm] using hself
        refine hrender.clipped fun a => ?_
        rw [hresolve, resolveIn]
        simp only [hal, hterm, Bool.false_eq_true, if_false, or_none]
        rfl
      | true =>
        simp only [hterm, Bool.not_true, Bool.false_eq_true, if_false] at hself
        refine (hrender.trans (renderSelf_spec hrender.1 hclip' hself)).clipped fun a => ?_
        rw [hresolve, resolveIn]
        simp only [hal, hterm, if_true]
        rfl

lemma renderMemoryRegion_isSome (hrank : Ranked regions rank) (hsmall : TerminatesSmall regions)
    {fuel : Nat} {mr : Rid} {base : Int} {clip : AddrRange} {readonly : Bool} {view : FlatView}
    (hfuel : rank mr < fuel) (hview : ViewIn 0 (2 ^ 64) view) (hclip : ClipOk clip) :
    ∃ view', renderMemoryRegion regions fuel view mr base clip readonly = some view' := by
  induction fuel generalizing mr base clip readonly view with
  | zero => omega
  | succ fuel ih =>
    obtain ⟨hsubs, halias⟩ := hrank mr
    rw [renderMemoryRegion]
    by_cases henabled : (regions mr).enabled = true
    swap
    · exact ⟨view, by simp [henabled]⟩
    by_cases hinter : AddrRange.intersects ⟨base + int128Make64 (regions mr).addr, (regions mr).size⟩
        clip = true
    swap
    · exact ⟨view, by simp [hinter]⟩
    simp only [henabled, hinter, Bool.not_true, Bool.false_eq_true, if_false]
    have hclip' := hclip.intersection hinter (Int.natCast_nonneg _)
    split
    · next target hal =>
      exact ih ((halias target hal).trans_le (Nat.le_of_lt_succ hfuel)) hview hclip'
    have hstep : ∀ sub ∈ (regions mr).subregions, ∀ view, ViewIn 0 (2 ^ 64) view →
        ∃ view', renderMemoryRegion regions fuel view sub (base + int128Make64 (regions mr).addr)
          (AddrRange.intersection ⟨base + int128Make64 (regions mr).addr, (regions mr).size⟩ clip)
          (readonly || (regions mr).readonly) = some view' ∧ ViewIn 0 (2 ^ 64) view' := by
      intro sub hsub view hview
      obtain ⟨view', hrun⟩ :=
        ih ((hsubs sub hsub).trans_le (Nat.le_of_lt_succ hfuel)) hview hclip'
      exact ⟨view', hrun, (renderMemoryRegion_spec hview hclip' hrun).1⟩
    obtain ⟨view₁, hfold, hview₁⟩ := foldlM_isSome hstep hview
    simp only [hfold, bind_some]
    split
    · exact ⟨_, rfl⟩
    next hterm =>
    have hcase := AddrRange.intersects_iff.mp hinter
    exact renderSelf_isSome hview₁ hclip' (by simp only [AddrRange.intersection]; omega)
      (by simp only [AddrRange.intersection, AddrRange.endAddr] at hcase ⊢; omega)
      (by simp only [AddrRange.intersection, AddrRange.endAddr]; omega)
      (hsmall mr (by simpa using hterm)) _

lemma generateMemoryTopology_spec {fuel : Nat} {root : Rid}
    (hrun : generateMemoryTopology regions fuel (some root) = some view) : ViewIn 0 (2 ^ 64) view ∧
      ∀ a, 0 ≤ a → a < 2 ^ 64 → view.at a = resolve regions fuel root 0 false a := by
  obtain ⟨rendered, hrender, rfl⟩ := map_eq_some_iff.mp hrun
  obtain ⟨hview, hat⟩ := renderMemoryRegion_spec (ViewIn.nil 0 _) clipOk_all hrender
  obtain ⟨hsimple, hsame⟩ := flatviewSimplify_spec hview
  refine ⟨hsimple, fun a h0 h64 => ?_⟩
  rw [hsame, hat, at_nil, none_or, if_pos]
  exact ⟨h0, h64⟩
end

/-- For every hierarchy without cycles whose terminating regions are smaller than `2^64`,
the ranges of the topology are nonempty, inside of `[0, 2^64)`, sorted and disjoint. An
address is in a range exactly when it resolves, and the range names what it resolves
to. -/
theorem generateMemoryTopology_resolves {regions : Regions} {rank : Rid → Nat}
    (hrank : Ranked regions rank) (hsmall : TerminatesSmall regions) (root : Rid) {fuel : Nat}
    (hfuel : rank root < fuel) :
    ∃ view, generateMemoryTopology regions fuel (some root) = some view ∧
      (∀ r ∈ view, 0 ≤ r.addr.start ∧ 0 < r.addr.size ∧ r.addr.endAddr ≤ 2 ^ 64) ∧
      view.Pairwise (fun r s => r.addr.endAddr ≤ s.addr.start) ∧
      ∀ a : Int, 0 ≤ a → a < 2 ^ 64 → ∀ x, resolve regions fuel root 0 false a = some x ↔
          ∃ r ∈ view, r.addr.contains a = true ∧ r.resolved a = x := by
  obtain ⟨view, hrun⟩ := @renderMemoryRegion_isSome regions rank hrank hsmall fuel root 0
    ⟨0, 2 ^ 64⟩ false [] hfuel (ViewIn.nil 0 _) clipOk_all
  have hgenerate : generateMemoryTopology regions fuel (some root) = some (flatviewSimplify view) :=
    map_eq_some_iff.mpr ⟨view, hrun, rfl⟩
  obtain ⟨hview, hat⟩ := generateMemoryTopology_spec hgenerate
  refine ⟨flatviewSimplify view, hgenerate, fun r hr => ?_, hview.sorted.pairwise,
    fun a h0 h64 x => ?_⟩
  · have hne := hview.sorted.lo_lt_hi hr
    refine ⟨hview.sorted.le_lo hr, ?_, hview.le r hr⟩
    simp only [FlatRange.lo, FlatRange.hi, AddrRange.endAddr] at hne
    omega
  · rw [← hat a h0 h64, FlatView.at, map_eq_some_iff]
    simp only [hview.sorted.lookup_eq_some_iff, AddrRange.contains_iff, and_assoc]

/-- The hierarchy that `docs/memory.txt` draws: `A` is 0 and contains `B` (1) and `C` (2),
and `B` contains `D` (3) and `E` (4). -/
def docsRegions : Regions := fun mr =>
  let container := memoryRegionInit
  let io := fun size => { memoryRegionInit size with terminates := true }
  match mr with
  | 0 => { container 0x8000#64 with subregions := [1, 2] }
  | 1 => { container 0x4000#64 with addr := 0x2000#64, subregions := [3, 4] }
  | 2 => io 0x6000#64
  | 3 => io 0x1000#64
  | 4 => { io 0x1000#64 with addr := 0x2000#64 }
  | _ => container 0#64

/-- In that hierarchy the last of the `D` addresses is offset `0xfff` of `D`. -/
theorem generateMemoryTopology_resolves_docs :
    ∃ view, generateMemoryTopology docsRegions 3 (some 0) = some view ∧
      ∃ r ∈ view, r.addr.contains 0x2fff = true ∧ r.resolved 0x2fff = ⟨3, 0xfff#64, false, 0#8, true⟩ := by
  have hrank : Ranked docsRegions fun mr => if mr = 0 then 2 else if mr = 1 then 1 else 0 := by
    intro mr
    match mr with
    | 0 | 1 | 2 | 3 | 4 => decide
    | _ + 5 => exact ⟨nofun, nofun⟩
  have hsmall : TerminatesSmall docsRegions := by
    intro mr
    match mr with
    | 0 | 1 | 2 | 3 | 4 => decide
    | _ + 5 => exact nofun
  obtain ⟨view, hrun, _, _, hresolves⟩ :=
    generateMemoryTopology_resolves hrank hsmall 0 (by decide : _ < 3)
  exact ⟨view, hrun, (hresolves 0x2fff (by decide) (by decide) _).mp (by decide +kernel)⟩

end QemuVmi.Memory
