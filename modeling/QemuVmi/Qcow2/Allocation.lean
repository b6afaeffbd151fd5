import QemuVmi.Qcow2.References

/-!
# Allocation keeps the counts

What the functions of `block/qcow2-refcount.c` do to the invariant: an allocation takes clusters
without references and holds them, freeing gives back references that are gone. The refcount
blocks that are allocated on the way are references of the metadata.
-/

namespace QemuVmi.Qcow2.Image

open Function Option List Nat

variable {img img' : Image} {extra held freed : Nat → Nat} {c n start : Nat}

def SameTables (img img' : Image) : Prop :=
  ∃ refcounts freeClusterIndex refcountTable, refcountTable.length = img.refcountTable.length ∧
    img' = { img with
      refcounts := refcounts, freeClusterIndex := freeClusterIndex, refcountTable := refcountTable }

lemma SameTables.refl (img : Image) : SameTables img img := ⟨_, _, _, rfl, rfl⟩

variable {img'' : Image}

lemma SameTables.trans (h : SameTables img img') (h' : SameTables img' img'') :
    SameTables img img'' := by
  obtain ⟨_, _, _, hlen, rfl⟩ := h
  obtain ⟨_, _, _, hlen', rfl⟩ := h'
  exact ⟨_, _, _, hlen'.trans hlen, rfl⟩

structure Extends (img img' : Image) : Prop where
  tables : SameTables img img'
  counts : ∀ c, img.getRefcount c ≠ 0 → img'.getRefcount c = img.getRefcount c

lemma Extends.trans (h : Extends img img') (h' : Extends img' img'') : Extends img img'' where
  tables := h.tables.trans h'.tables
  counts c hc := by
    have hfirst := h.counts c hc
    rw [h'.counts c (hfirst ▸ hc), hfirst]

lemma hasBlock_of_getRefcount (h : img.getRefcount c ≠ 0) : img.hasBlock c = true := by
  by_contra hblock
  exact h (if_neg hblock)

lemma getRefcount_with (img : Image) (r : Nat → UInt16) (f x : Nat) :
    getRefcount { img with refcounts := r, freeClusterIndex := f } x =
      if img.hasBlock x then (r x).toNat else 0 := rfl

lemma getRefcount_le (img : Image) (x : Nat) : img.getRefcount x ≤ 0xffff := by
  unfold getRefcount
  split
  · exact le_of_lt_succ (UInt16.toNat_lt _)
  · omega

variable {addend : Int} {fuel i offset : Nat}

lemma setRefcount_spec (hblock : img.hasBlock c = true)
    (hset : img.setRefcount c addend = some img') :
    (∃ r f, img' = { img with refcounts := r, freeClusterIndex := f }) ∧
      ∀ x, (img'.getRefcount x : Int) = img.getRefcount x + if x = c then addend else 0 := by
  simp only [setRefcount] at hset
  split at hset
  · cases hset
  rename_i hrange
  cases hset
  refine ⟨⟨_, _, rfl⟩, fun x => ?_⟩
  rw [getRefcount_with, getRefcount]
  have hlt : ((img.refcounts c).toNat + addend : Int).toNat < 2 ^ 16 := by omega
  by_cases hx : x = c
  · rw [hx, if_pos hblock, if_pos hblock, if_pos rfl, update_self, UInt16.toNat_ofNat_of_lt' hlt]
    omega
  · rw [update_of_ne hx, if_neg hx, add_zero]

lemma setRefcount_isSome (addend : Int) (hblock : img.hasBlock c = true)
    (hlow : 0 ≤ (img.getRefcount c : Int) + addend)
    (hhigh : (img.getRefcount c : Int) + addend ≤ 0xffff) :
    ∃ img', img.setRefcount c addend = some img' := by
  rw [getRefcount, if_pos hblock] at hlow hhigh
  exact ⟨_, if_neg (by omega)⟩

variable (h : img.Inv extra held freed)

include h in
lemma Inv.recount {held' freed' : Nat → Nat}
    (hsame : ∃ r f, img' = { img with refcounts := r, freeClusterIndex := f })
    (hcounts : ∀ x, img'.getRefcount x + held x + freed x = img.getRefcount x + held' x + freed' x)
    (hfresh : ∀ x, held' x ≠ 0 → img'.getRefcount x = 1)
    (hgone : ∀ x, freed' x ≠ 0 → freed x ≠ 0)
    (hpoints : ∀ x, img.Points img.activeL1 x → img'.getRefcount x = img.getRefcount x) :
    img'.Inv extra held' freed' := by
  obtain ⟨r, f, rfl⟩ := hsame
  refine h.step_same (.of_entries rfl rfl rfl fun _ _ => rfl) rfl
    (fun sn _ => .of_entries rfl rfl rfl fun _ _ => rfl) ?_
    (fun x => .inl (le_refl (img.metaRefs x))) hfresh (fun x hx => h.gone x (hgone x hx))
    (h.copied.of_counts rfl rfl rfl fun x hx => by rw [hpoints x hx]) h.synced
  intro x
  have hx := hcounts x
  change getRefcount _ x + _ = _ + (img.metaRefs x + _ + _)
  omega

include h in
lemma Inv.with_freeClusterIndex (f : Nat) :
    Inv { img with freeClusterIndex := f } extra held freed :=
  h.recount ⟨_, f, rfl⟩ (fun _ => rfl) h.fresh (fun _ hx => hx) fun _ _ => rfl

lemma Extends.with_freeClusterIndex (img : Image) (f : Nat) :
    Extends img { img with freeClusterIndex := f } :=
  ⟨⟨_, f, _, rfl, rfl⟩, fun _ _ => rfl⟩

/-! ## `update_refcount` -/

/-- What `update_refcount` needs of the function that loads or allocates a refcount block. -/
structure AllocatesBlock (allocBlock : Nat → Image → Res) : Prop where
  loaded : ∀ c img, img.hasBlock c = true → allocBlock c img = .ok img
  ok : ∀ c img img', allocBlock c img = .ok img' → img' = img ∧ img.hasBlock c = true
  again : ∀ c img img', allocBlock c img = .again img' →
    ∀ extra held freed, img.Inv extra held freed →
    img'.Inv extra held freed ∧ Extends img img'

variable {allocBlock : Nat → Image → Res}

def Free (img : Image) (start n : Nat) : Prop :=
  ∀ x, start ≤ x → x < start + n → img.getRefcount x = 0

include h in
lemma Inv.hold (hfree : img.Free start n)
    (hsame : ∃ r f, img' = { img with refcounts := r, freeClusterIndex := f })
    (hcounts : ∀ x, (img'.getRefcount x : Int) = img.getRefcount x + 1 * rangeRefs start n x) :
    img'.Inv extra (held + rangeRefs start n) freed ∧ Extends img img' ∧
      img'.refcountTable = img.refcountTable := by
  have hother : ∀ x, img.getRefcount x ≠ 0 → img'.getRefcount x = img.getRefcount x := by
    intro x hx
    have hcount := hcounts x
    rw [show rangeRefs start n x = 0 from if_neg fun hin => hx (hfree x hin.1 hin.2)] at hcount
    omega
  refine ⟨h.recount hsame ?_ ?_ (fun _ hx => hx) ?_, ⟨?_, hother⟩, ?_⟩
  · intro x
    have hcount := hcounts x
    rw [Pi.add_apply]
    omega
  · intro x hheld
    rw [Pi.add_apply] at hheld
    by_cases hin : start ≤ x ∧ x < start + n
    · have hcount := hcounts x
      rw [hfree x hin.1 hin.2, rangeRefs, if_pos hin] at hcount
      omega
    · rw [rangeRefs, if_neg hin] at hheld
      have hfresh := h.fresh x hheld
      rw [hother x (by omega), hfresh]
  · exact fun x hx => hother x fun hzero => not_points_of_refs (h.of_free hzero) mem_cons_self hx
  · obtain ⟨r, f, rfl⟩ := hsame
    exact ⟨r, f, _, rfl, rfl⟩
  · obtain ⟨r, f, rfl⟩ := hsame
    rfl

variable (hcounted : ∀ x, start ≤ x → x < start + n → img.getRefcount x ≠ 0)

section
variable (hblocks : AllocatesBlock allocBlock)
include hblocks

lemma updateLoop_counts {stop : Nat}
    (hrun : updateLoop allocBlock addend n start img = (.ok img', stop)) :
    (∃ r f, img' = { img with refcounts := r, freeClusterIndex := f }) ∧
      ∀ x, (img'.getRefcount x : Int) = img.getRefcount x + addend * rangeRefs start n x := by
  induction n generalizing start img with
  | zero =>
    cases hrun
    exact ⟨⟨_, _, rfl⟩, fun x => by rw [rangeRefs_zero]; simp⟩
  | succ n ih =>
    unfold updateLoop at hrun
    cases hblock : allocBlock start img with
    | again img'' | fail img'' =>
      rw [hblock] at hrun
      cases hrun
    | ok img'' =>
      rw [hblock] at hrun
      obtain ⟨rfl, hloaded⟩ := hblocks.ok start img img'' hblock
      cases hset : img''.setRefcount start addend with
      | none =>
        simp only [hset] at hrun
        cases hrun
      | some next =>
        simp only [hset] at hrun
        obtain ⟨⟨r, f, rfl⟩, hfirst⟩ := setRefcount_spec hloaded hset
        obtain ⟨⟨r', f', rfl⟩, hrest⟩ := ih hrun
        refine ⟨⟨r', f', rfl⟩, fun x => ?_⟩
        rw [hrest x, hfirst x, rangeRefs_succ, Pi.add_apply]
        by_cases hx : x = start
        · rw [if_pos hx, hx, rangeRefs_self one_pos]
          push_cast
          ring
        · rw [if_neg hx, rangeRefs_one_eq_zero (Ne.symm hx)]
          push_cast
          ring

include hcounted in
lemma updateLoop_down :
    ∃ img', updateLoop allocBlock (-1) n start img = (.ok img', start + n) := by
  induction n generalizing start img with
  | zero => exact ⟨img, rfl⟩
  | succ n ih =>
    have hcount := hcounted start (le_refl _) (by omega)
    have hblock : img.hasBlock start = true := hasBlock_of_getRefcount hcount
    have hle := img.getRefcount_le start
    obtain ⟨next, hset⟩ := setRefcount_isSome (-1) hblock (by omega) (by omega)
    obtain ⟨_, hspec⟩ := setRefcount_spec hblock hset
    have hrest : ∀ x, start + 1 ≤ x → x < start + 1 + n → next.getRefcount x ≠ 0 := by
      intro x hlow hhigh
      have hx := hspec x
      have hold := hcounted x (by omega) (by omega)
      rw [if_neg (by omega)] at hx
      omega
    obtain ⟨img', hrun⟩ := ih hrest
    refine ⟨img', ?_⟩
    simp only [updateLoop, hblocks.loaded start img hblock, hset, hrun]
    rw [add_right_comm, add_assoc]
end

lemma Inv.drop (h : img.Inv extra held (freed + rangeRefs start n))
    (hsame : ∃ r f, img' = { img with refcounts := r, freeClusterIndex := f })
    (hcounts : ∀ x, (img'.getRefcount x : Int) = img.getRefcount x + -1 * rangeRefs start n x) :
    img'.Inv extra held freed := by
  have hother : ∀ x, rangeRefs start n x = 0 → img'.getRefcount x = img.getRefcount x := by
    intro x hx
    have hcount := hcounts x
    rw [hx] at hcount
    omega
  refine h.recount hsame ?_ ?_ ?_ ?_
  · intro x
    have hx := hcounts x
    rw [Pi.add_apply]
    omega
  · intro x hheld
    have hfreed := (h.of_held hheld).2.2
    rw [Pi.add_apply] at hfreed
    rw [hother x (by omega), h.fresh x hheld]
  · intro x hx
    rw [Pi.add_apply]
    omega
  intro x hx
  refine hother x ?_
  by_contra hne
  exact h.gone x (by rw [Pi.add_apply]; omega) hx

lemma Inv.counted (h : img.Inv extra held (freed + rangeRefs start n)) {x : Nat}
    (hlow : start ≤ x) (hhigh : x < start + n) : img.getRefcount x ≠ 0 := by
  have hcounts := h.counts x
  rw [Pi.add_apply, show rangeRefs start n x = 1 from if_pos ⟨hlow, hhigh⟩] at hcounts
  omega

lemma updateRefcountWith_one (allocBlock : Nat → Image → Res) (c : Nat) (img : Image) :
    updateRefcountWith allocBlock c 1 1 img = match allocBlock c img with
      | .ok next => ((next.setRefcount c 1).map Res.ok).getD (.fail next)
      | res => res := by
  unfold updateRefcountWith updateLoop
  cases allocBlock c img with
  | ok next =>
    cases hset : next.setRefcount c 1 with
    | none =>
      simp only [hset, Nat.sub_self]
      rfl
    | some last =>
      simp only [hset, updateLoop]
      rfl
  | again next | fail next =>
    simp only [Nat.sub_self]
    rfl

lemma norefLoop_spec {next stop : Nat} (hrun : img.norefLoop n fuel i next = some stop)
    (hi : i ≤ next) (hfree : img.Free (next - i) i) : n ≤ stop ∧ img.Free (stop - n) n := by
  induction fuel generalizing i next with
  | zero => cases hrun
  | succ fuel ih =>
    unfold norefLoop at hrun
    split at hrun
    next hin =>
      cases hrun
      exact hin ▸ ⟨hi, hfree⟩
    split at hrun
    next hnext =>
      refine ih hrun (by omega) fun x hlow hhigh => ?_
      by_cases hx : x = next
      · rw [hx, hnext]
      · exact hfree x (by omega) (by omega)
    · exact ih hrun (by omega) fun x hlow hhigh => absurd hhigh (by omega)

lemma allocClustersNoref_spec (hrun : img.allocClustersNoref n = some (offset, img')) :
    img.Free offset n ∧ ∃ f, img' = { img with freeClusterIndex := f } := by
  obtain ⟨next, hloop, heq⟩ := Option.bind_eq_some_iff.mp hrun
  cases heq
  exact ⟨(norefLoop_spec hloop (zero_le _) fun x hlow hhigh => absurd hhigh (by omega)).2, _, rfl⟩

section
variable {index block : Nat} (hindex : index < img.refcountTable.length)
include hindex

variable (hblock : block ≠ 0)
include hblock

lemma hasBlock_hookBlock (x : Nat) : (img.hookBlock index block).hasBlock x =
      if x / img.refcountBlockSize = index then true else img.hasBlock x := by
  change ((img.refcountTable.set index block).getD (x / img.refcountBlockSize) 0 != 0) = _
  split
  next hx =>
    rw [hx, getD_eq_getElem?_getD, List.getElem?_set_self hindex]
    simpa using hblock
  next hx =>
    rw [getD_eq_getElem?_getD, List.getElem?_set_ne (Ne.symm hx), hasBlock, getD_eq_getElem?_getD]

variable (hempty : img.refcountTable.getD index 0 = 0)
include hempty

lemma getRefcount_hookBlock (x : Nat) :
    (img.hookBlock index block).getRefcount x = img.getRefcount x := by
  rw [getRefcount, getRefcount, hasBlock_hookBlock hindex hblock]
  change (if _ then (if x / img.refcountBlockSize = index then 0 else img.refcounts x).toNat else 0) = _
  by_cases hx : x / img.refcountBlockSize = index
  · have hnone : img.hasBlock x = false := by
      rw [hasBlock, hx, hempty]
      rfl
    rw [if_pos hx, if_pos hx, if_pos rfl, hnone]
    rfl
  · rw [if_neg hx, if_neg hx]

lemma getRefcount_hookBlock_self
    (hself : block / img.refcountBlockSize = index) (hfree : img.getRefcount block = 0) (x : Nat) :
    getRefcount { img.hookBlock index block with
        refcounts := update (img.hookBlock index block).refcounts block 1 } x =
      img.getRefcount x + rangeRefs block 1 x := by
  have hhook := getRefcount_hookBlock hindex hblock hempty x
  rw [getRefcount] at hhook
  refine (getRefcount_with (img.hookBlock index block) _ _ x).trans ?_
  by_cases hx : x = block
  · rw [hx, hasBlock_hookBlock hindex hblock, if_pos hself, if_pos rfl, update_self, hfree,
      rangeRefs_self one_pos]
    rfl
  · rw [update_of_ne hx, rangeRefs_one_eq_zero (Ne.symm hx), hhook, add_zero]

lemma blockRefs_hookBlock (x : Nat) :
    (img.hookBlock index block).blockRefs x = img.blockRefs x + rangeRefs block 1 x := by
  unfold blockRefs
  by_cases hx : x = 0
  · rw [if_pos hx, if_pos hx, rangeRefs_one_eq_zero (hx ▸ hblock)]
  rw [if_neg hx, if_neg hx]
  change (img.refcountTable.set index block).count x = _
  have hzero : img.refcountTable[index] = 0 := by
    rwa [getD_eq_getElem?_getD, List.getElem?_eq_getElem hindex] at hempty
  rw [count_set hindex, hzero, if_neg (by simpa using Ne.symm hx)]
  by_cases hbx : block = x
  · rw [if_pos (by simpa using hbx), hbx, rangeRefs_self one_pos, Nat.sub_zero]
  · rw [if_neg (by simpa using hbx), rangeRefs_one_eq_zero hbx, Nat.sub_zero]
end

include h in
lemma Inv.ne_zero_of_free (hfree : img.getRefcount c = 0) : c ≠ 0 := by
  rintro rfl
  have hrefs := h.of_free hfree
  rw [refs_eq, metaRefs, rangeRefs_self one_pos] at hrefs
  omega

structure Gains (img img' : Image) : Prop where
  tables : SameTables img img'
  counts : ∀ x, img'.getRefcount x + img.blockRefs x = img.getRefcount x + img'.blockRefs x
  blocks : ∀ x, img.blockRefs x ≤ img'.blockRefs x
  hasBlock : ∀ x, img.hasBlock x = true → img'.hasBlock x = true
  kept : ∀ x, img.getRefcount x ≠ 0 → img'.getRefcount x = img.getRefcount x

/-- Refcount blocks have been allocated, each in a free cluster. -/
structure GainsBlocks (img img' : Image) : Prop extends Gains img img' where
  fresh : ∀ x, img.getRefcount x = 0 → img'.getRefcount x ≤ 1

lemma GainsBlocks.trans (h : GainsBlocks img img') (h' : GainsBlocks img' img'') :
    GainsBlocks img img'' where
  tables := h.tables.trans h'.tables
  counts x := by
    have hfirst := h.counts x
    have hsecond := h'.counts x
    omega
  blocks x := (h.blocks x).trans (h'.blocks x)
  hasBlock x hx := h'.hasBlock x (h.hasBlock x hx)
  kept x hx := by
    have hfirst := h.kept x hx
    rw [h'.kept x (hfirst ▸ hx), hfirst]
  fresh x hx := by
    by_cases hx' : img'.getRefcount x = 0
    · exact h'.fresh x hx'
    · rw [h'.kept x hx']
      exact h.fresh x hx

lemma GainsBlocks.le_getRefcount (h : GainsBlocks img img') (x : Nat) :
    img.getRefcount x ≤ img'.getRefcount x := by
  have hcounts := h.counts x
  have hblocks := h.blocks x
  omega

lemma GainsBlocks.with_freeClusterIndex (img : Image) (f : Nat) :
    GainsBlocks img { img with freeClusterIndex := f } :=
  ⟨⟨⟨_, f, _, rfl, rfl⟩, fun _ => rfl, fun _ => le_refl _, fun _ h => h, fun _ _ => rfl⟩,
    fun _ hx => (le_of_eq hx).trans (zero_le _)⟩

lemma GainsBlocks.hookBlock {index block : Nat} {r : Nat → UInt16} {mid : Image}
    (hmid : ∃ r f, mid = { img with refcounts := r, freeClusterIndex := f })
    (hindex : index < img.refcountTable.length) (hblock : block ≠ 0)
    (hempty : img.refcountTable.getD index 0 = 0) (hfree : img.getRefcount block = 0)
    (hcounts : ∀ x, getRefcount { mid.hookBlock index block with refcounts := r } x =
      img.getRefcount x + rangeRefs block 1 x) :
    GainsBlocks img { mid.hookBlock index block with refcounts := r } := by
  obtain ⟨r', f, rfl⟩ := hmid
  have hblocks := blockRefs_hookBlock hindex hblock hempty
  refine ⟨⟨⟨_, _, _, length_set, rfl⟩, fun x => ?_, fun x => ?_, fun x hx => ?_,
    fun x hx => ?_⟩, fun x hx => ?_⟩
  · rw [hcounts x]
    change _ = img.getRefcount x + (img.hookBlock index block).blockRefs x
    rw [hblocks x]
    omega
  · change _ ≤ (img.hookBlock index block).blockRefs x
    rw [hblocks x]
    omega
  · refine (hasBlock_hookBlock hindex hblock x).trans ?_
    split
    · rfl
    · exact hx
  · have hne : block ≠ x := fun heq => hx (heq ▸ hfree)
    rw [hcounts x, rangeRefs_one_eq_zero hne, add_zero]
  · rw [hcounts x, hx, zero_add]
    exact rangeRefs_le_one block 1 x

lemma allocRefcountBlock_ok (hrun : allocRefcountBlock fuel c img = .ok img') :
    img' = img ∧ img.hasBlock c = true := by
  rw [allocRefcountBlock] at hrun
  split at hrun
  · cases hrun
    exact ⟨rfl, ‹_›⟩
  -- a block that is allocated makes the caller start again
  exfalso
  cases fuel with
  | zero => cases hrun
  | succ fuel =>
    cases hnoref : img.allocClustersNoref 1 with
    | none =>
      simp only [hnoref] at hrun
      cases hrun
    | some found =>
      simp only [hnoref] at hrun
      split at hrun
      · cases hrun
      split at hrun
      · cases hrun
      split at hrun
      · cases hrun
      next hne => exact hne _ hrun

lemma allocRefcountBlock_gains (hheader : img.getRefcount 0 ≠ 0)
    (hrun : allocRefcountBlock fuel c img = .again img') : GainsBlocks img img' := by
  induction fuel generalizing c img with
  | zero =>
    rw [allocRefcountBlock] at hrun
    split at hrun <;> cases hrun
  | succ fuel ih =>
    rw [allocRefcountBlock] at hrun
    split at hrun
    · cases hrun
    rename_i hnone
    have hempty : img.refcountTable.getD (c / img.refcountBlockSize) 0 = 0 := by
      simpa [hasBlock] using hnone
    cases hnoref : img.allocClustersNoref 1 with
    | none =>
      simp only [hnoref] at hrun
      cases hrun
    | some found =>
      obtain ⟨block, next⟩ := found
      obtain ⟨hfree, f, rfl⟩ := allocClustersNoref_spec hnoref
      have hcount : img.getRefcount block = 0 := hfree block (le_refl _) (lt_succ_self _)
      have hblock : block ≠ 0 := by
        rintro rfl
        exact hheader hcount
      simp only [hnoref] at hrun
      split at hrun
      · cases hrun
      rename_i hlen
      have hindex := not_le.mp hlen
      split at hrun
      · -- the block describes itself
        rename_i hself
        cases hrun
        exact GainsBlocks.hookBlock ⟨_, f, rfl⟩ hindex hblock hempty hcount
          (@getRefcount_hookBlock_self { img with freeClusterIndex := f } _ _
            hindex hblock hempty hself hcount)
      -- the block is described by another one
      rw [updateRefcountWith_one] at hrun
      cases hcall : allocRefcountBlock fuel block { img with freeClusterIndex := f } with
      | fail last =>
        simp only [hcall] at hrun
        cases hrun
      | again last =>
        simp only [hcall] at hrun
        cases hrun
        exact (GainsBlocks.with_freeClusterIndex img f).trans (ih hheader hcall)
      | ok last =>
        obtain ⟨rfl, hhas⟩ := allocRefcountBlock_ok hcall
        cases hset : setRefcount { img with freeClusterIndex := f } block 1 with
        | none =>
          simp only [hcall, hset, map_none, getD_none] at hrun
          cases hrun
        | some mid =>
          simp only [hcall, hset, map_some, getD_some] at hrun
          cases hrun
          obtain ⟨⟨r, f', rfl⟩, hcounts⟩ := setRefcount_spec hhas hset
          refine GainsBlocks.hookBlock ⟨r, f', rfl⟩ hindex hblock hempty hcount fun x => ?_
          refine (@getRefcount_hookBlock { img with refcounts := r, freeClusterIndex := f' } _
            block hindex hblock hempty x).trans ?_
          have hx := hcounts x
          by_cases hxb : x = block
          · rw [hxb, rangeRefs_self one_pos]
            rw [hxb, if_pos rfl] at hx
            exact Int.ofNat_inj.mp hx
          · rw [rangeRefs_one_eq_zero (Ne.symm hxb)]
            rw [if_neg hxb] at hx
            exact Int.ofNat_inj.mp hx

include h in
lemma Inv.of_gains (hgains : GainsBlocks img img') :
    img'.Inv extra held freed ∧ Extends img img' := by
  refine ⟨?_, hgains.tables, hgains.kept⟩
  have hcounts := hgains.counts
  have hkept := hgains.kept
  have hfresh := hgains.fresh
  obtain ⟨r, f, t, hlen, rfl⟩ := hgains.tables
  have hmeta : ∀ x, metaRefs { img with refcounts := r, freeClusterIndex := f, refcountTable := t } x +
      img.blockRefs x = img.metaRefs x + blockRefs { img with
        refcounts := r, freeClusterIndex := f, refcountTable := t } x := by
    intro x
    change rangeRefs 0 1 x + rangeRefs img.refcountTableOffset (img.sizeToClusters (t.length * 8)) x +
      _ + rangeRefs img.snapshotsOffset (img.sizeToClusters img.snapshotsSize) x +
      rangeRefs img.l1TableOffset (img.l1Clusters img.l1Size) x +
      (img.snapshots.map fun sn => rangeRefs sn.l1TableOffset (img.l1Clusters sn.l1Size) x).sum + _ = _
    rw [hlen]
    unfold metaRefs
    omega
  refine h.step_same (.of_entries rfl rfl rfl fun _ _ => rfl) rfl
    (fun sn _ => .of_entries rfl rfl rfl fun _ _ => rfl) ?_ ?_ ?_ h.gone
    (h.copied.of_counts rfl rfl rfl fun x hx => ?_) h.synced
  · intro x
    have hx := hcounts x
    have hm := hmeta x
    omega
  · intro x
    have hx := hcounts x
    have hm := hmeta x
    by_cases hzero : img.getRefcount x = 0
    · have hrefs := h.of_free hzero
      have hle := hfresh x hzero
      refine .inr ⟨?_, hrefs⟩
      rw [refs_eq] at hrefs
      omega
    · have hsame := hkept x hzero
      exact .inl (by omega)
  · intro x hx
    have hone := h.fresh x hx
    rw [hkept x (by omega), hone]
  · rw [hkept x fun hzero => not_points_of_refs (h.of_free hzero) mem_cons_self hx]

lemma allocatesBlock (fuel : Nat) : AllocatesBlock (allocRefcountBlock fuel) where
  loaded c img hblock := by rw [allocRefcountBlock, if_pos hblock]
  ok c img img' := allocRefcountBlock_ok
  again c img img' hrun extra held freed h :=
    h.of_gains (allocRefcountBlock_gains (fun hzero => h.ne_zero_of_free hzero rfl) hrun)

/-- The loop with addend 1 when it has to start again: the clusters in front of the place at which
it leaves have been counted, then blocks have been allocated. -/
lemma updateLoop_again {stop : Nat} (hheader : img.getRefcount 0 ≠ 0)
    (hrun : updateLoop (allocRefcountBlock fuel) 1 n start img = (.again img', stop)) :
    start ≤ stop ∧ ∃ mid, (∃ r f, mid = { img with refcounts := r, freeClusterIndex := f }) ∧
      (∀ x, mid.getRefcount x = img.getRefcount x + rangeRefs start (stop - start) x) ∧
      GainsBlocks mid img' := by
  induction n generalizing start img with
  | zero => cases hrun
  | succ n ih =>
    unfold updateLoop at hrun
    cases hblock : allocRefcountBlock fuel start img with
    | fail next =>
      rw [hblock] at hrun
      cases hrun
    | again next =>
      rw [hblock] at hrun
      cases hrun
      refine ⟨le_refl _, img, ⟨_, _, rfl⟩, fun x => ?_, allocRefcountBlock_gains hheader hblock⟩
      rw [Nat.sub_self, rangeRefs_zero]
      rfl
    | ok next =>
      rw [hblock] at hrun
      obtain ⟨rfl, hloaded⟩ := allocRefcountBlock_ok hblock
      cases hset : next.setRefcount start 1 with
      | none =>
        simp only [hset] at hrun
        cases hrun
      | some first =>
        simp only [hset] at hrun
        obtain ⟨⟨r, f, rfl⟩, hfirst⟩ := setRefcount_spec hloaded hset
        have hcounted : ∀ x, getRefcount { next with refcounts := r, freeClusterIndex := f } x =
            next.getRefcount x + rangeRefs start 1 x := by
          intro x
          have hx := hfirst x
          by_cases hxs : x = start
          · rw [if_pos hxs] at hx
            rw [hxs, rangeRefs_self one_pos]
            rw [hxs] at hx
            omega
          · rw [if_neg hxs] at hx
            rw [rangeRefs_one_eq_zero (Ne.symm hxs)]
            omega
        obtain ⟨hle, mid, ⟨r', f', rfl⟩, hcounts, hgains⟩ := ih (by rw [hcounted 0]; omega) hrun
        refine ⟨by omega, _, ⟨r', f', rfl⟩, fun x => ?_, hgains⟩
        have hsub : stop - start = stop - (start + 1) + 1 := by omega
        rw [hcounts x, hcounted x, hsub, rangeRefs_succ start (stop - (start + 1)), Pi.add_apply,
          add_assoc]

lemma sameBlocks (h : ∃ r f, img' = { img with refcounts := r, freeClusterIndex := f }) :
    SameTables img img' ∧ img'.blockRefs = img.blockRefs ∧ img'.hasBlock = img.hasBlock := by
  obtain ⟨r, f, rfl⟩ := h
  exact ⟨⟨r, f, _, rfl, rfl⟩, rfl, rfl⟩

lemma updateRefcount_again (hheader : img.getRefcount 0 ≠ 0)
    (hrun : updateRefcount start n 1 img = .again img') : GainsBlocks img img' := by
  rw [updateRefcount, updateRefcountWith] at hrun
  cases hloop : updateLoop (allocRefcountBlock blockFuel) 1 n start img with
  | mk res stop =>
    cases res with
    | ok next | fail next =>
      simp only [hloop] at hrun
      cases hrun
    | again next =>
      simp only [hloop] at hrun
      obtain ⟨_, mid, hsame, hmid, hgains⟩ := updateLoop_again hheader hloop
      have hcounted : ∀ x, start ≤ x → x < start + (stop - start) → next.getRefcount x ≠ 0 := by
        intro x hlow hhigh
        have hle := hgains.le_getRefcount x
        rw [hmid x, rangeRefs, if_pos ⟨hlow, hhigh⟩] at hle
        omega
      obtain ⟨last, hundo⟩ := updateLoop_down hcounted (allocatesBlock blockFuel)
      obtain ⟨hsame', hlast⟩ := updateLoop_counts (allocatesBlock blockFuel) hundo
      rw [hundo] at hrun
      cases hrun
      obtain ⟨htables, hblocks, hhas⟩ := sameBlocks hsame
      obtain ⟨htables', hblocks', hhas'⟩ := sameBlocks hsame'
      refine ⟨⟨htables.trans (hgains.tables.trans htables'), fun x => ?_, fun x => ?_,
        fun x hx => ?_, fun x hx => ?_⟩, fun x hx => ?_⟩
      · have hx := hgains.counts x
        have hx' := hlast x
        rw [hmid x, hblocks] at hx
        rw [Res.image, hblocks']
        omega
      · rw [Res.image, hblocks', ← hblocks]
        exact hgains.blocks x
      · rw [Res.image, hhas']
        exact hgains.hasBlock x (hhas ▸ hx)
      · have hx' := hlast x
        have hkept := hgains.kept x (by rw [hmid x]; omega)
        rw [hmid x] at hkept
        rw [Res.image]
        omega
      have hx' := hlast x
      have hfresh := hgains.fresh x
      have hkept := hgains.kept x
      rw [hmid x, hx, zero_add] at hfresh hkept
      rw [Res.image]
      omega

lemma updateRefcount_counts (hrun : updateRefcount start n addend img = .ok img') :
    (∃ r f, img' = { img with refcounts := r, freeClusterIndex := f }) ∧
      ∀ x, (img'.getRefcount x : Int) = img.getRefcount x + addend * rangeRefs start n x := by
  rw [updateRefcount, updateRefcountWith] at hrun
  revert hrun
  cases hloop : updateLoop (allocRefcountBlock blockFuel) addend n start img with
  | mk res stop =>
    cases res with
    | again img'' | fail img'' => exact fun hrun => by cases hrun
    | ok img'' =>
      intro hrun
      cases hrun
      exact updateLoop_counts (allocatesBlock blockFuel) hloop

include h in
/-- `update_refcount` with addend 1 on free clusters: they are held, or a block was allocated. -/
lemma updateRefcount_up (hfree : img.Free start n) :
    match updateRefcount start n 1 img with
    | .ok img' => img'.Inv extra (held + rangeRefs start n) freed ∧ Extends img img' ∧
        img'.refcountTable = img.refcountTable
    | .again img' => img'.Inv extra held freed ∧ Extends img img'
    | .fail _ => True := by
  cases hrun : updateRefcount start n 1 img with
  | fail img' => trivial
  | again img' =>
    exact h.of_gains (updateRefcount_again (fun hzero => h.ne_zero_of_free hzero rfl) hrun)
  | ok img' =>
    obtain ⟨hsame, hcounts⟩ := updateRefcount_counts hrun
    exact h.hold hfree hsame hcounts

include hcounted in
lemma updateRefcount_down : ∃ img', updateRefcount start n (-1) img = .ok img' := by
  obtain ⟨img', hrun⟩ := updateLoop_down hcounted (allocatesBlock blockFuel)
  refine ⟨img', ?_⟩
  rw [updateRefcount, updateRefcountWith]
  simp only [hrun]

lemma allocClustersLoop_inv (hrun : allocClustersLoop n fuel img = some (offset, img'))
    (h : img.Inv extra held freed) :
    img'.Inv extra (held + rangeRefs offset n) freed ∧ Extends img img' := by
  induction fuel generalizing img with
  | zero => cases hrun
  | succ fuel ih =>
    obtain ⟨⟨found, next⟩, hnoref, hrun⟩ := Option.bind_eq_some_iff.mp hrun
    obtain ⟨hfree, f, rfl⟩ := allocClustersNoref_spec hnoref
    have hmove := Extends.with_freeClusterIndex img f
    have hup := updateRefcount_up (h.with_freeClusterIndex f)
      (show Free { img with freeClusterIndex := f } found n from hfree)
    dsimp only at hrun
    revert hup hrun
    cases updateRefcount found n 1 { img with freeClusterIndex := f } with
    | fail img'' => exact fun hrun => by cases hrun
    | ok img'' =>
      intro hrun hup
      cases hrun
      exact ⟨hup.1, hmove.trans hup.2.1⟩
    | again img'' =>
      intro hrun hup
      obtain ⟨hinv, hext⟩ := ih hrun hup.1
      exact ⟨hinv, (hmove.trans hup.2).trans hext⟩

/-- `qcow2_alloc_clusters`: the clusters that it returns were free and are held. -/
lemma allocClusters_inv (hrun : img.allocClusters n = some (offset, img'))
    (h : img.Inv extra held freed) :
    img'.Inv extra (held + rangeRefs offset n) freed ∧ Extends img img' :=
  allocClustersLoop_inv hrun h

lemma countFree_free (img : Image) (n c : Nat) : img.Free c (img.countFree n c) := by
  induction n generalizing c with
  | zero => exact fun x hlow hhigh => absurd hhigh (not_lt.mpr hlow)
  | succ n ih =>
    intro x hlow hhigh
    unfold countFree at hhigh
    split at hhigh
    next hc =>
      by_cases hx : x = c
      · rw [hx, hc]
      · exact ih (c + 1) x (by omega) (by omega)
    · omega

lemma allocClustersAtLoop_inv (hrun : allocClustersAtLoop c n fuel img = some (i, img'))
    (h : img.Inv extra held freed) : img'.Inv extra (held + rangeRefs c i) freed := by
  induction fuel generalizing img with
  | zero => cases hrun
  | succ fuel ih =>
    have hup := updateRefcount_up h (img.countFree_free n c)
    rw [allocClustersAtLoop] at hrun
    revert hup hrun
    cases updateRefcount c (img.countFree n c) 1 img with
    | fail img'' => exact fun hrun => by cases hrun
    | ok img'' =>
      intro hrun hup
      cases hrun
      exact hup.1
    | again img'' => exact fun hrun hup => ih hrun hup.1

lemma allocClustersAt_inv (hrun : img.allocClustersAt c n = some (i, img'))
    (h : img.Inv extra held freed) : img'.Inv extra (held + rangeRefs c i) freed := by
  unfold allocClustersAt at hrun
  split at hrun
  · cases hrun
    rwa [rangeRefs_zero, add_zero]
  · exact allocClustersAtLoop_inv hrun h

include hcounted in
lemma freeClusters_counts :
    (∃ r f, img.freeClusters start n = { img with refcounts := r, freeClusterIndex := f }) ∧
      ∀ x, ((img.freeClusters start n).getRefcount x : Int) =
        img.getRefcount x + -1 * rangeRefs start n x := by
  obtain ⟨img', hrun⟩ := updateRefcount_down hcounted
  rw [freeClusters, hrun]
  exact updateRefcount_counts hrun

lemma freeClusters_inv (h : img.Inv extra held (freed + rangeRefs start n)) :
    (img.freeClusters start n).Inv extra held freed ∧
      SameTables img (img.freeClusters start n) := by
  obtain ⟨hsame, hcounts⟩ := freeClusters_counts fun x => h.counted
  refine ⟨h.drop hsame hcounts, ?_⟩
  obtain ⟨r, f, heq⟩ := hsame
  exact ⟨r, f, _, rfl, heq⟩

end QemuVmi.Qcow2.Image
