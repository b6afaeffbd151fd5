import QemuVmi.Qcow2.AllocationCounts
import QemuVmi.Qcow2.SnapshotInvariant

/-!
# Compressed extents

`qcow2_alloc_bytes` packs compressed data into clusters. `free_byte_offset` remembers where the
last cluster is filled up to, and it is kept when the extents in that cluster are freed: the
cluster can then be handed out by `qcow2_alloc_clusters` and be filled further all the same.

Results:
1. `Extent.compressedRange_eq`: the sectors that are freed with a compressed extent lie in its
   clusters.
2. `Heap.Valid.step`: what a step keeps, if it allocates no cluster while the cluster of
   `free_byte_offset` has no count.
3. `extents_disjoint_and_counted`: the same for a run; `extents_overlap`: a run in which the
   cluster of `free_byte_offset` is handed out again.
-/

namespace QemuVmi.Qcow2

open List Option Nat

/-- A range of bytes that has been allocated: by `qcow2_alloc_bytes` for compressed data, or by
`qcow2_alloc_clusters`. -/
structure Extent where
  offset : Nat
  size : Nat
  compressed : Bool
deriving DecidableEq, Repr

/-- The image and `free_byte_offset`. -/
structure Allocator where
  image : Image
  freeByteOffset : Nat

namespace Allocator

variable (a : Allocator)

/-- `qcow2_alloc_bytes` if there is enough space in the current cluster. The result of
`qcow2_update_cluster_refcount` is not looked at. -/
def takeFromCluster (size : Nat) : Nat × Allocator :=
  let clusterSize := a.image.clusterSize
  let freeInCluster := clusterSize - a.freeByteOffset % clusterSize
  let image :=
    if a.freeByteOffset % clusterSize ≠ 0 then
      (Image.updateRefcount (a.freeByteOffset / clusterSize) 1 1 a.image).image
    else a.image
  (a.freeByteOffset, ⟨image, if freeInCluster - size = 0 then 0 else a.freeByteOffset + size⟩)

/-- `qcow2_alloc_bytes`. After `goto redo` a whole cluster is free. -/
def allocBytes (size : Nat) : Option (Nat × Allocator) :=
  let clusterSize := a.image.clusterSize
  if size = 0 ∨ clusterSize < size then none
  else if a.freeByteOffset = 0 then do
    let (cluster, image) ← a.image.allocClusters 1
    some (takeFromCluster ⟨image, cluster * clusterSize⟩ size)
  else if size ≤ clusterSize - a.freeByteOffset % clusterSize then some (a.takeFromCluster size)
  else do
    let (cluster, image) ← a.image.allocClusters 1
    let start := a.freeByteOffset / clusterSize * clusterSize
    if start + clusterSize = cluster * clusterSize then
      -- contiguous data
      some (a.freeByteOffset,
        ⟨(Image.updateRefcount (a.freeByteOffset / clusterSize) 1 1 image).image,
          a.freeByteOffset + size⟩)
    else some (takeFromCluster ⟨image, cluster * clusterSize⟩ size)

/-- `qcow2_alloc_clusters` of `size` bytes. -/
def allocClusters (size : Nat) : Option (Nat × Allocator) := do
  let (cluster, image) ← a.image.allocClusters (a.image.sizeToClusters size)
  some (cluster * a.image.clusterSize, ⟨image, a.freeByteOffset⟩)

/-- `qcow2_free_any_clusters` with the L2 entry of a compressed extent, `qcow2_free_clusters` for
the others. -/
def free (e : Extent) : Allocator :=
  if e.compressed then
    let nbCsectors := (e.offset + e.size - 1) / 512 - e.offset / 512
    { a with image := a.image.freeAnyClusters (.compressed e.offset (nbCsectors + 1)) }
  else
    let start := e.offset / a.image.clusterSize
    let n := if e.size = 0 then 0 else (e.offset + e.size - 1) / a.image.clusterSize - start + 1
    { a with image := a.image.freeClusters start n }

end Allocator

structure Heap where
  allocator : Allocator
  live : List Extent

inductive HeapOp
  | allocBytes (size : Nat)
  | allocClusters (size : Nat)
  | free (e : Extent)
deriving DecidableEq, Repr

section
variable (heap : Heap)

def Heap.step : HeapOp → Option Heap
  | .allocBytes size => do
    let (offset, allocator) ← heap.allocator.allocBytes size
    some ⟨allocator, ⟨offset, size, true⟩ :: heap.live⟩
  | .allocClusters size => do
    let (offset, allocator) ← heap.allocator.allocClusters size
    some ⟨allocator, ⟨offset, size, false⟩ :: heap.live⟩
  | .free e => if e ∈ heap.live then some ⟨heap.allocator.free e, heap.live.erase e⟩ else none

inductive Heap.Reaches (cond : Heap → HeapOp → Prop) (start : Heap) : Heap → Prop
  | refl : Reaches cond start start
  | step {heap heap' : Heap} {op : HeapOp} : Reaches cond start heap → cond heap op →
      heap.step op = some heap' → Reaches cond start heap'

def Extent.Has (e : Extent) (b : Nat) : Prop := e.offset ≤ b ∧ b < e.offset + e.size

def Extent.Disjoint (e e' : Extent) : Prop := ∀ b, e.Has b → ¬ e'.Has b

def Extent.touches (e : Extent) (clusterSize x : Nat) : Nat :=
  if e.offset < (x + 1) * clusterSize ∧ x * clusterSize < e.offset + e.size ∧ 0 < e.size then 1 else 0

def Heap.liveRefs (x : Nat) : Nat :=
  (heap.live.map fun e => e.touches heap.allocator.image.clusterSize x).sum

def Heap.NoOverflow : Prop := ∀ x, heap.allocator.image.getRefcount x < 0xffff

/-- The cluster of `free_byte_offset` has a count. -/
def Heap.CursorCounted : Prop :=
  heap.allocator.freeByteOffset = 0 ∨ heap.allocator.image.getRefcount
    (heap.allocator.freeByteOffset / heap.allocator.image.clusterSize) ≠ 0

/-- An operation that has to allocate a cluster finds a count in the cluster of
`free_byte_offset`. -/
def Heap.CursorKept : HeapOp → Prop
  | .allocBytes size => size ≤ heap.allocator.image.clusterSize -
      heap.allocator.freeByteOffset % heap.allocator.image.clusterSize ∨ heap.CursorCounted
  | .allocClusters _ => heap.CursorCounted
  | .free _ => True
end

variable {img : Image}

namespace Extent

variable {e : Extent} {cs : Nat}

lemma touches_eq_rangeRefs (hcs : 0 < cs) (x : Nat) : e.touches cs x = rangeRefs (e.offset / cs)
      (if e.size = 0 then 0 else (e.offset + e.size - 1) / cs - e.offset / cs + 1) x := by
  have hfirst : e.offset < (x + 1) * cs ↔ e.offset / cs < x + 1 := (div_lt_iff_lt_mul hcs).symm
  unfold touches
  by_cases hsize : e.size = 0
  · rw [if_pos hsize, rangeRefs_zero, if_neg (by omega)]
    rfl
  have hlast : x * cs < e.offset + e.size ↔ x ≤ (e.offset + e.size - 1) / cs := by
    rw [le_div_iff_mul_le hcs]
    omega
  have hmono : e.offset / cs ≤ (e.offset + e.size - 1) / cs := Nat.div_le_div_right (by omega)
  rw [if_neg hsize, rangeRefs]
  simp only [hfirst, hlast]
  by_cases hx : e.offset / cs ≤ x ∧ x ≤ (e.offset + e.size - 1) / cs
  · rw [if_pos (by omega), if_pos (by omega)]
  · rw [if_neg (by omega), if_neg (by omega)]

lemma touches_eq_of_last (hcs : 0 < cs) {n : Nat} (hsize : 0 < e.size)
    (hlow : (e.offset / cs + n) * cs < e.offset + e.size)
    (hhigh : e.offset + e.size ≤ (e.offset / cs + n + 1) * cs) (x : Nat) :
    e.touches cs x = rangeRefs (e.offset / cs) (n + 1) x := by
  have hlast : (e.offset + e.size - 1) / cs = e.offset / cs + n :=
    Nat.div_eq_of_lt_le (by omega) (by omega)
  rw [touches_eq_rangeRefs hcs, if_neg (by omega), hlast, Nat.add_sub_cancel_left]

lemma touches_of_has (hcs : 0 < cs) {b : Nat} (h : e.Has b) : e.touches cs (b / cs) = 1 := by
  have hlow := div_mul_le_self b cs
  have hhigh := lt_mul_div_succ b hcs
  rw [mul_comm] at hhigh
  obtain ⟨hstart, hstop⟩ := h
  exact if_pos ⟨by omega, by omega, by omega⟩

lemma touches_clusters (cluster size : Nat) (compressed : Bool) (x : Nat) :
    touches ⟨cluster * img.clusterSize, size, compressed⟩ img.clusterSize x =
      rangeRefs cluster (img.sizeToClusters size) x := by
  have hcs : 0 < img.clusterSize := Nat.two_pow_pos _
  rw [touches_eq_rangeRefs hcs, Image.sizeToClusters]
  rw [Nat.mul_div_cancel _ hcs]
  by_cases hsize : size = 0
  · rw [if_pos hsize, div_eq_of_lt (by omega)]
  have hlast : (cluster * img.clusterSize + size - 1) / img.clusterSize =
      (size - 1) / img.clusterSize + cluster := by
    rw [← add_mul_div_right _ _ hcs]
    congr 1
    omega
  have hround : (size + (img.clusterSize - 1)) / img.clusterSize =
      (size - 1) / img.clusterSize + 1 := by
    rw [← add_div_right _ hcs]
    congr 1
    omega
  rw [if_neg hsize, hlast, hround, Nat.add_sub_cancel]

lemma compressedRange_eq (hbits : 9 ≤ img.clusterBits) (hsize : 0 < e.size) :
    img.compressedRange e.offset ((e.offset + e.size - 1) / 512 - e.offset / 512 + 1) =
      (e.offset / img.clusterSize,
        (e.offset + e.size - 1) / img.clusterSize - e.offset / img.clusterSize + 1) := by
  obtain ⟨k, hk⟩ := Nat.exists_eq_add_of_le hbits
  have hcs : img.clusterSize = 512 * 2 ^ k := by rw [Image.clusterSize, hk, Nat.pow_add]
  have hdiv : ∀ y, y / img.clusterSize = y / 512 / 2 ^ k := by
    intro y
    rw [hcs, Nat.div_div_eq_div_mul]
  have hfirst : e.offset / 512 * 512 / 512 = e.offset / 512 := by omega
  have hlast : (e.offset / 512 * 512 + ((e.offset + e.size - 1) / 512 - e.offset / 512 + 1) * 512 - 1) /
      512 = (e.offset + e.size - 1) / 512 := by omega
  simp only [Image.compressedRange, hdiv, hfirst, hlast]
  rw [if_neg (by omega)]

end Extent

lemma Image.updateRefcount_one_isSome {c : Nat} (hblock : img.hasBlock c = true)
    (hcount : img.getRefcount c < 0xffff) : ∃ img', updateRefcount c 1 1 img = .ok img' := by
  obtain ⟨img', hset⟩ := setRefcount_isSome 1 hblock (by omega) (by omega)
  refine ⟨img', ?_⟩
  rw [updateRefcount, updateRefcountWith_one, (allocatesBlock blockFuel).loaded c img hblock]
  simp only [hset, map_some, getD_some]

variable {e : Extent}

namespace Heap

variable {start : Image} {heap heap' : Heap}

/-- The clusters keep what they had at the start, the blocks that the refcount table has got since
have a count, and each live extent counts once in every cluster it intersects. -/
structure Valid (start : Image) (heap : Heap) : Prop where
  clusterBits : heap.allocator.image.clusterBits = start.clusterBits
  counts : ∀ x, heap.allocator.image.getRefcount x + start.blockRefs x =
    start.getRefcount x + heap.allocator.image.blockRefs x + heap.liveRefs x
  blocks : ∀ x, start.blockRefs x ≤ heap.allocator.image.blockRefs x
  disjoint : heap.live.Pairwise Extent.Disjoint
  sized : ∀ e ∈ heap.live, e.compressed = true → 0 < e.size
  cursor : heap.allocator.freeByteOffset ≠ 0 →
    heap.allocator.freeByteOffset % heap.allocator.image.clusterSize ≠ 0 ∧
    heap.allocator.image.hasBlock
      (heap.allocator.freeByteOffset / heap.allocator.image.clusterSize) = true ∧
    ∀ e ∈ heap.live, ∀ b, heap.allocator.freeByteOffset ≤ b → b / heap.allocator.image.clusterSize =
        heap.allocator.freeByteOffset / heap.allocator.image.clusterSize → ¬ e.Has b

lemma valid_start (img : Image) : Valid img ⟨⟨img, 0⟩, []⟩ where
  clusterBits := rfl
  counts _ := rfl
  blocks _ := le_refl _
  disjoint := .nil
  sized _ he := absurd he not_mem_nil
  cursor h := absurd rfl h

lemma clusterSize_pos (img : Image) : 0 < img.clusterSize := Nat.two_pow_pos _

lemma touches_le_liveRefs (he : e ∈ heap.live) (x : Nat) :
    e.touches heap.allocator.image.clusterSize x ≤ heap.liveRefs x :=
  single_le_sum (fun _ _ => zero_le _) _ (mem_map_of_mem he)

namespace Valid

variable (h : Valid start heap)
include h

lemma liveRefs_le (x : Nat) : heap.liveRefs x ≤ heap.allocator.image.getRefcount x := by
  have hcounts := h.counts x
  have hblocks := h.blocks x
  omega

variable (hstart : start.getRefcount 0 ≠ 0)

include hstart in
lemma header : heap.allocator.image.getRefcount 0 ≠ 0 := by
  have hcounts := h.counts 0
  have hblocks := h.blocks 0
  omega

lemma not_has_of_free {b : Nat} (he : e ∈ heap.live)
    (hfree : heap.allocator.image.getRefcount (b / heap.allocator.image.clusterSize) = 0) :
    ¬ e.Has b := by
  intro hb
  have htouches := Extent.touches_of_has (clusterSize_pos heap.allocator.image) hb
  have hlive := touches_le_liveRefs he (b / heap.allocator.image.clusterSize)
  have hcount := h.liveRefs_le (b / heap.allocator.image.clusterSize)
  omega

lemma push {a : Allocator} (hbits : a.image.clusterBits = heap.allocator.image.clusterBits)
    (hcounts : ∀ x, a.image.getRefcount x + heap.allocator.image.blockRefs x =
      heap.allocator.image.getRefcount x + a.image.blockRefs x +
        e.touches heap.allocator.image.clusterSize x)
    (hblocks : ∀ x, heap.allocator.image.blockRefs x ≤ a.image.blockRefs x)
    (hdisjoint : ∀ b, e.Has b → ∀ e' ∈ heap.live, ¬ e'.Has b)
    (hsized : e.compressed = true → 0 < e.size)
    (hcursor : a.freeByteOffset ≠ 0 → a.freeByteOffset % heap.allocator.image.clusterSize ≠ 0 ∧
      a.image.hasBlock (a.freeByteOffset / heap.allocator.image.clusterSize) = true ∧
      ∀ b, a.freeByteOffset ≤ b → b / heap.allocator.image.clusterSize =
        a.freeByteOffset / heap.allocator.image.clusterSize →
          ¬ e.Has b ∧ ∀ e' ∈ heap.live, ¬ e'.Has b) : Valid start ⟨a, e :: heap.live⟩ := by
  have hsize : a.image.clusterSize = heap.allocator.image.clusterSize := by
    rw [Image.clusterSize, hbits, Image.clusterSize]
  refine ⟨hbits.trans h.clusterBits, fun x => ?_, fun x => (h.blocks x).trans (hblocks x), ?_, ?_, ?_⟩
  · have hold := h.counts x
    have hnew := hcounts x
    have hlive : liveRefs ⟨a, e :: heap.live⟩ x =
        e.touches heap.allocator.image.clusterSize x + heap.liveRefs x := by
      simp only [liveRefs, hsize, map_cons, sum_cons]
    rw [hlive]
    dsimp only
    omega
  · exact .cons (fun e' he' b hb => hdisjoint b hb e' he') h.disjoint
  · intro e' he'
    rcases mem_cons.mp he' with rfl | he'
    · exact hsized
    · exact h.sized e' he'
  · intro hne
    rw [hsize]
    obtain ⟨hmod, hblock, hrest⟩ := hcursor hne
    refine ⟨hmod, hblock, fun e' he' b hlow hsame => ?_⟩
    rcases mem_cons.mp he' with rfl | he'
    · exact (hrest b hlow hsame).1
    · exact (hrest b hlow hsame).2 e' he'

variable {img' : Image} {cluster size : Nat}

include hstart in
lemma push_fresh
    (hrun : heap.allocator.image.allocClusters 1 = some (cluster, img')) (hpos : 0 < size)
    (hle : size ≤ heap.allocator.image.clusterSize) :
    Valid start ⟨(Allocator.takeFromCluster ⟨img', cluster * heap.allocator.image.clusterSize⟩ size).2,
      ⟨(Allocator.takeFromCluster ⟨img', cluster * heap.allocator.image.clusterSize⟩ size).1,
        size, true⟩ :: heap.live⟩ := by
  have halloc := Image.allocClusters_counts (h.header hstart) hrun
  have hcs := clusterSize_pos heap.allocator.image
  have hsize : img'.clusterSize = heap.allocator.image.clusterSize := by
    rw [Image.clusterSize, halloc.clusterBits, Image.clusterSize]
  have hfree := halloc.free cluster (le_refl _) (lt_succ_self _)
  simp only [Allocator.takeFromCluster, hsize, mul_mod_left, ne_eq, not_true_eq_false, if_false]
  generalize hcsdef : heap.allocator.image.clusterSize = cs at hcs hle
  have hdiv : cluster * cs / cs = cluster := Nat.mul_div_cancel _ hcs
  refine h.push halloc.clusterBits (fun x => ?_) halloc.blocks (fun b hb e' he' => ?_) (fun _ => hpos)
    fun hne => ?_
  · have htouches := Extent.touches_eq_of_last (e := ⟨cluster * cs, size, true⟩) (n := 0) hcs hpos
      (by dsimp only; rw [hdiv, add_zero]; omega)
      (by dsimp only; rw [hdiv, succ_mul]; omega) x
    rw [hcsdef, htouches, hdiv]
    exact halloc.counts x
  · have hcluster : b / cs = cluster :=
      Nat.div_eq_of_lt_le hb.1 (by have := hb.2; dsimp only at this; rw [succ_mul]; omega)
    exact h.not_has_of_free he' (by rw [hcsdef, hcluster, hfree])
  dsimp only at hne ⊢
  have hlt : size < cs := by
    by_contra hge
    exact hne (if_pos (by omega))
  have hcursor : (cluster * cs + size) / cs = cluster :=
    Nat.div_eq_of_lt_le (by omega) (by rw [succ_mul]; omega)
  rw [hcsdef, if_neg (by omega), hcursor]
  refine ⟨?_, ?_, fun b hlow hsame => ⟨fun hb => ?_, fun e' he' => ?_⟩⟩
  · rw [mul_add_mod_self_right, mod_eq_of_lt hlt]
    omega
  · have hcount := halloc.counts cluster
    have hblocks := halloc.blocks cluster
    rw [rangeRefs_self one_pos] at hcount
    exact Image.hasBlock_of_getRefcount (by omega)
  · exact absurd hb.2 (not_lt.mpr hlow)
  · exact h.not_has_of_free he' (by rw [hcsdef, hsame, hfree])

lemma push_cursor (hoverflow : heap.NoOverflow) (hne : heap.allocator.freeByteOffset ≠ 0)
    (hpos : 0 < size) (hle : size ≤ heap.allocator.image.clusterSize -
      heap.allocator.freeByteOffset % heap.allocator.image.clusterSize) :
    Valid start ⟨(heap.allocator.takeFromCluster size).2,
      ⟨(heap.allocator.takeFromCluster size).1, size, true⟩ :: heap.live⟩ := by
  obtain ⟨hmod, hblock, hrest⟩ := h.cursor hne
  have hcs := clusterSize_pos heap.allocator.image
  obtain ⟨img', hok⟩ := Image.updateRefcount_one_isSome hblock (hoverflow _)
  obtain ⟨hsame, hcounts⟩ := Image.updateRefcount_counts hok
  obtain ⟨htables, hblocks, hhas⟩ := Image.sameBlocks hsame
  have hbits : img'.clusterBits = heap.allocator.image.clusterBits := by
    obtain ⟨_, _, rfl⟩ := hsame
    rfl
  simp only [Allocator.takeFromCluster, ne_eq, hmod, not_false_eq_true, if_true, hok, Image.Res.image]
  generalize hcsdef : heap.allocator.image.clusterSize = cs at *
  generalize hfbo : heap.allocator.freeByteOffset = fbo at *
  have hsplit := div_add_mod fbo cs
  rw [mul_comm] at hsplit
  refine h.push hbits (fun x => ?_) (fun x => ?_) (fun b hb e' he' => ?_) (fun _ => hpos) fun hne' => ?_
  · have htouches := Extent.touches_eq_of_last (e := ⟨fbo, size, true⟩) (n := 0) hcs hpos
      (by dsimp only; rw [add_zero]; omega)
      (by dsimp only; rw [add_zero, succ_mul]; omega) x
    have hx := hcounts x
    dsimp only at htouches ⊢
    rw [hcsdef, htouches, hblocks, zero_add]
    omega
  · rw [hblocks]
  · have hcluster : b / cs = fbo / cs := by
      have hlow := hb.1
      have hhigh := hb.2
      dsimp only at hlow hhigh
      exact Nat.div_eq_of_lt_le (by omega) (by rw [succ_mul]; omega)
    exact hrest e' he' b hb.1 hcluster
  · dsimp only at hne' ⊢
    have hroom : ¬ cs - fbo % cs - size = 0 := fun hfull => hne' (if_pos hfull)
    have hcursor : (fbo + size) / cs = fbo / cs :=
      Nat.div_eq_of_lt_le (by omega) (by rw [succ_mul]; omega)
    have hcursorMod := div_add_mod (fbo + size) cs
    rw [mul_comm, hcursor] at hcursorMod
    rw [hcsdef, if_neg hroom, hcursor, hhas]
    refine ⟨by omega, hblock, fun b hlow hcluster => ⟨fun hb => ?_, fun e' he' => ?_⟩⟩
    · exact absurd hb.2 (not_lt.mpr hlow)
    · exact hrest e' he' b (by omega) hcluster

include hstart in
lemma push_contiguous (hoverflow : heap.NoOverflow)
    (hkept : heap.CursorCounted) (hne : heap.allocator.freeByteOffset ≠ 0)
    (hrun : heap.allocator.image.allocClusters 1 = some (cluster, img'))
    (hlt : heap.allocator.image.clusterSize -
      heap.allocator.freeByteOffset % heap.allocator.image.clusterSize < size)
    (hle : size ≤ heap.allocator.image.clusterSize)
    (hnext : heap.allocator.freeByteOffset / heap.allocator.image.clusterSize *
      heap.allocator.image.clusterSize + heap.allocator.image.clusterSize =
      cluster * heap.allocator.image.clusterSize) : Valid start ⟨⟨(Image.updateRefcount
        (heap.allocator.freeByteOffset / heap.allocator.image.clusterSize) 1 1 img').image,
        heap.allocator.freeByteOffset + size⟩,
      ⟨heap.allocator.freeByteOffset, size, true⟩ :: heap.live⟩ := by
  obtain ⟨hmod, hblock, hrest⟩ := h.cursor hne
  have halloc := Image.allocClusters_counts (h.header hstart) hrun
  have hcs := clusterSize_pos heap.allocator.image
  have hcounted := hkept.resolve_left hne
  have hroom := hoverflow (heap.allocator.freeByteOffset / heap.allocator.image.clusterSize)
  rw [← halloc.kept _ hcounted] at hroom
  obtain ⟨img'', hok⟩ := Image.updateRefcount_one_isSome (halloc.hasBlock _ hblock) hroom
  obtain ⟨hsame, hcounts⟩ := Image.updateRefcount_counts hok
  obtain ⟨htables, hblocks, hhas⟩ := Image.sameBlocks hsame
  have hbits : img''.clusterBits = heap.allocator.image.clusterBits := by
    obtain ⟨_, _, rfl⟩ := hsame
    exact halloc.clusterBits
  simp only [hok, Image.Res.image]
  generalize hcsdef : heap.allocator.image.clusterSize = cs at *
  generalize hfbo : heap.allocator.freeByteOffset = fbo at *
  have hcluster : cluster = fbo / cs + 1 := by
    rw [← succ_mul] at hnext
    exact (eq_of_mul_eq_mul_right hcs hnext).symm
  subst hcluster
  have hfree := halloc.free _ (le_refl _) (lt_succ_self _)
  have hsplit := div_add_mod fbo cs
  rw [mul_comm] at hsplit
  have hmodlt := mod_lt fbo hcs
  have hend : (fbo / cs + 1 + 1) * cs = fbo / cs * cs + cs + cs := by rw [succ_mul, succ_mul]
  have hpos : 0 < size := by omega
  refine h.push hbits (fun x => ?_) (fun x => ?_) (fun b hb e' he' => ?_) (fun _ => hpos)
    fun hne' => ?_
  · have htouches := Extent.touches_eq_of_last (e := ⟨fbo, size, true⟩) (n := 1) hcs hpos
      (by dsimp only; omega) (by dsimp only; omega) x
    have hx := hcounts x
    have hx' := halloc.counts x
    rw [rangeRefs_succ, Pi.add_apply] at htouches
    dsimp only at htouches ⊢
    rw [hcsdef, htouches, hblocks]
    omega
  · rw [hblocks]
    exact halloc.blocks x
  · obtain ⟨hlow, hhigh⟩ := hb
    dsimp only at hlow hhigh
    by_cases hin : b < (fbo / cs + 1) * cs
    · exact hrest e' he' b hlow (Nat.div_eq_of_lt_le (by omega) hin)
    · have hcluster : b / cs = fbo / cs + 1 := Nat.div_eq_of_lt_le (by omega) (by omega)
      exact h.not_has_of_free he' (by rw [hcsdef, hcluster, hfree])
  · dsimp only at hne' ⊢
    have hcursor : (fbo + size) / cs = fbo / cs + 1 := Nat.div_eq_of_lt_le (by omega) (by omega)
    have hcursorMod := div_add_mod (fbo + size) cs
    rw [mul_comm, hcursor] at hcursorMod
    rw [hcsdef, hcursor, hhas]
    refine ⟨by omega, ?_, fun b hlow hcluster => ⟨fun hb => ?_, fun e' he' => ?_⟩⟩
    · have hcount := halloc.counts (fbo / cs + 1)
      have hgrown := halloc.blocks (fbo / cs + 1)
      rw [rangeRefs_self one_pos] at hcount
      exact Image.hasBlock_of_getRefcount (by omega)
    · exact absurd hb.2 (not_lt.mpr hlow)
    · exact h.not_has_of_free he' (by rw [hcsdef, hcluster, hfree])

include hstart in
lemma push_clusters (hkept : heap.CursorCounted)
    (hrun : heap.allocator.image.allocClusters (heap.allocator.image.sizeToClusters size) = some (cluster, img')) :
    Valid start ⟨⟨img', heap.allocator.freeByteOffset⟩,
      ⟨cluster * heap.allocator.image.clusterSize, size, false⟩ :: heap.live⟩ := by
  have halloc := Image.allocClusters_counts (h.header hstart) hrun
  have hcs := clusterSize_pos heap.allocator.image
  have htouches : ∀ x, Extent.touches
      ⟨cluster * heap.allocator.image.clusterSize, size, false⟩ heap.allocator.image.clusterSize x =
        rangeRefs cluster (heap.allocator.image.sizeToClusters size) x :=
    Extent.touches_clusters cluster size false
  have hfree : ∀ b, Extent.Has ⟨cluster * heap.allocator.image.clusterSize, size, false⟩ b →
      heap.allocator.image.getRefcount (b / heap.allocator.image.clusterSize) = 0 := by
    intro b hb
    have hone := Extent.touches_of_has hcs hb
    rw [htouches] at hone
    by_contra hcounted
    have hout : rangeRefs cluster (heap.allocator.image.sizeToClusters size)
        (b / heap.allocator.image.clusterSize) = 0 :=
      if_neg fun hin => hcounted (halloc.free _ hin.1 hin.2)
    omega
  refine h.push halloc.clusterBits (fun x => ?_) halloc.blocks
    (fun b hb e' he' => h.not_has_of_free he' (hfree b hb)) (fun hc => by cases hc) fun hne => ?_
  · rw [htouches x]
    exact halloc.counts x
  obtain ⟨hmod, hblock, hrest⟩ := h.cursor hne
  refine ⟨hmod, halloc.hasBlock _ hblock, fun b hlow hcluster => ⟨fun hb => ?_, fun e' he' => ?_⟩⟩
  · exact hkept.resolve_left hne (hcluster ▸ hfree b hb)
  · exact hrest e' he' b hlow hcluster

section
variable (hbits : 9 ≤ start.clusterBits)
include hbits

lemma free_eq (he : e ∈ heap.live) : ∃ first n, heap.allocator.free e =
        ⟨heap.allocator.image.freeClusters first n, heap.allocator.freeByteOffset⟩ ∧
      ∀ x, e.touches heap.allocator.image.clusterSize x = rangeRefs first n x := by
  refine ⟨_, _, ?_, Extent.touches_eq_rangeRefs (clusterSize_pos heap.allocator.image)⟩
  unfold Allocator.free
  cases hc : e.compressed with
  | true =>
    have hpos := h.sized e he hc
    have hsector : 9 ≤ heap.allocator.image.clusterBits := h.clusterBits.symm ▸ hbits
    have hrange := Extent.compressedRange_eq hsector hpos
    simp only [if_true, Image.freeAnyClusters, hrange]
    rw [if_neg (by omega)]
  | false => simp only [Bool.false_eq_true, if_false]

lemma erase (he : e ∈ heap.live) : Valid start ⟨heap.allocator.free e, heap.live.erase e⟩ := by
  obtain ⟨first, n, hfree, htouches⟩ := h.free_eq hbits he
  have hcounted : ∀ x, first ≤ x → x < first + n → heap.allocator.image.getRefcount x ≠ 0 := by
    intro x hlow hhigh
    have hone : rangeRefs first n x = 1 := if_pos ⟨hlow, hhigh⟩
    have hlive := touches_le_liveRefs he x
    have hle := h.liveRefs_le x
    rw [htouches x] at hlive
    omega
  obtain ⟨hsame, hcounts⟩ := Image.freeClusters_counts hcounted
  rw [hfree]
  generalize heap.allocator.image.freeClusters first n = img' at hsame hcounts
  obtain ⟨_, hblocks, hhas⟩ := Image.sameBlocks hsame
  have hcb : img'.clusterBits = heap.allocator.image.clusterBits := by
    obtain ⟨_, _, rfl⟩ := hsame
    rfl
  have hsize : img'.clusterSize = heap.allocator.image.clusterSize := by
    rw [Image.clusterSize, hcb, Image.clusterSize]
  refine ⟨hcb.trans h.clusterBits, fun x => ?_, fun x => ?_,
    h.disjoint.sublist erase_sublist, fun e' he' => h.sized e' (mem_of_mem_erase he'), ?_⟩
  · have hold := h.counts x
    have hnew := hcounts x
    have hlive : heap.liveRefs x = rangeRefs first n x +
        liveRefs ⟨⟨img', heap.allocator.freeByteOffset⟩, heap.live.erase e⟩ x := by
      rw [← htouches x]
      simp only [liveRefs, hsize]
      exact ((perm_cons_erase he).map _).sum_eq
    dsimp only
    rw [hblocks]
    omega
  · rw [hblocks]
    exact h.blocks x
  · intro hne
    obtain ⟨hmod, hblock, hrest⟩ := h.cursor hne
    rw [hsize, hhas]
    exact ⟨hmod, hblock, fun e' he' => hrest e' (mem_of_mem_erase he')⟩

include hstart in
lemma step {op : HeapOp}
    (hoverflow : heap.NoOverflow) (hkept : heap.CursorKept op) (hrun : heap.step op = some heap') :
    Valid start heap' := by
  cases op with
  | allocBytes size =>
    obtain ⟨⟨offset, a⟩, hbytes, heq⟩ := Option.bind_eq_some_iff.mp hrun
    cases heq
    unfold Allocator.allocBytes at hbytes
    dsimp only at hbytes
    split at hbytes
    · cases hbytes
    rename_i hsize
    push Not at hsize
    have hpos : 0 < size := pos_of_ne_zero hsize.1
    split at hbytes
    · -- there is no cluster to fill
      obtain ⟨⟨cluster, img'⟩, halloc, hbytes⟩ := Option.bind_eq_some_iff.mp hbytes
      cases hbytes
      exact h.push_fresh hstart halloc hpos hsize.2
    rename_i hne
    split at hbytes
    next hroom =>
      cases hbytes
      exact h.push_cursor hoverflow hne hpos hroom
    rename_i hroom
    obtain ⟨⟨cluster, img'⟩, halloc, hbytes⟩ := Option.bind_eq_some_iff.mp hbytes
    have hcounted : heap.CursorCounted := hkept.resolve_left hroom
    split at hbytes
    next hnext =>
      cases hbytes
      exact h.push_contiguous hstart hoverflow hcounted hne halloc (not_le.mp hroom)
        hsize.2 hnext
    · cases hbytes
      exact h.push_fresh hstart halloc hpos hsize.2
  | allocClusters size =>
    obtain ⟨⟨offset, a⟩, hrun, heq⟩ := Option.bind_eq_some_iff.mp hrun
    obtain ⟨⟨cluster, img'⟩, halloc, hrun⟩ := Option.bind_eq_some_iff.mp hrun
    cases hrun
    cases heq
    exact h.push_clusters hstart hkept halloc
  | free e =>
    unfold Heap.step at hrun
    dsimp only at hrun
    split at hrun
    next he =>
      cases hrun
      exact h.erase hbits he
    · cases hrun
end

end Valid

lemma Reaches.valid (hbits : 9 ≤ img.clusterBits) (hheader : img.getRefcount 0 ≠ 0)
    (hrun : Reaches (fun heap op => heap.NoOverflow ∧ heap.CursorKept op) ⟨⟨img, 0⟩, []⟩ heap) :
    Valid img heap := by
  induction hrun with
  | refl => exact valid_start img
  | step _ hcond hstep ih => exact ih.step hheader hbits hcond.1 hcond.2 hstep

end Heap

/-- As long as no cluster is allocated while the cluster of `free_byte_offset` has no count, the
live extents are disjoint, and what a cluster has gained since the start are the live extents in it
(and its count as a refcount block). -/
theorem extents_disjoint_and_counted {img : Image} {heap : Heap} (hbits : 9 ≤ img.clusterBits)
    (hheader : img.getRefcount 0 ≠ 0)
    (hrun : Heap.Reaches (fun heap op => heap.NoOverflow ∧ heap.CursorKept op) ⟨⟨img, 0⟩, []⟩ heap) :
    heap.live.Pairwise Extent.Disjoint ∧ ∀ x, heap.allocator.image.getRefcount x + img.blockRefs x =
        img.getRefcount x + heap.allocator.image.blockRefs x + heap.liveRefs x :=
  have hvalid := hrun.valid hbits hheader
  ⟨hvalid.disjoint, hvalid.counts⟩

namespace Heap

def next (heap : Heap) (op : HeapOp) : Heap := (heap.step op).getD heap

lemma Reaches.next {cond : Heap → HeapOp → Prop} {start heap : Heap} {op : HeapOp}
    (h : Reaches cond start heap) (hcond : cond heap op) (hsome : (heap.step op).isSome = true) :
    Reaches cond start (heap.next op) := by
  obtain ⟨heap', hstep⟩ := Option.isSome_iff_exists.mp hsome
  have hnext : heap.next op = heap' := by rw [Heap.next, hstep, getD_some]
  exact hnext ▸ h.step hcond hstep

lemma noOverflow_of_table {heap : Heap} (htable : heap.allocator.image.refcountTable = [2])
    (hbits : heap.allocator.image.clusterBits = 9)
    (hcounts : ∀ x < 256, heap.allocator.image.getRefcount x < 0xffff) : heap.NoOverflow := by
  intro x
  by_cases hx : x < 256
  · exact hcounts x hx
  have hsize : heap.allocator.image.refcountBlockSize = 256 := by
    rw [Image.refcountBlockSize, hbits]
    rfl
  obtain ⟨i, hi⟩ : ∃ i, x / 256 = i + 1 := ⟨x / 256 - 1, by omega⟩
  have hnone : heap.allocator.image.hasBlock x = false := by
    rw [Image.hasBlock, htable, hsize, hi]
    rfl
  rw [Image.getRefcount, if_neg (by rw [hnone]; exact Bool.false_ne_true)]
  decide

def empty : Heap := ⟨⟨Image.emptyImage, 0⟩, []⟩

lemma noOverflow_empty : empty.NoOverflow := noOverflow_of_table rfl rfl (by decide +kernel)

end Heap

/-- The second extent goes over into the next cluster. -/
theorem extents_disjoint_and_counted_contiguous :
    ∃ heap : Heap, heap.live = [⟨2148, 450, true⟩, ⟨2048, 100, true⟩] ∧
      heap.live.Pairwise Extent.Disjoint ∧
      ∀ x, heap.allocator.image.getRefcount x + Image.emptyImage.blockRefs x =
        Image.emptyImage.getRefcount x + heap.allocator.image.blockRefs x + heap.liveRefs x := by
  refine ⟨(Heap.empty.next (.allocBytes 100)).next (.allocBytes 450), by decide +kernel,
    extents_disjoint_and_counted (by decide) (by decide) (.next (.next .refl ⟨?_, ?_⟩ ?_) ⟨?_, ?_⟩ ?_)⟩
  · exact Heap.noOverflow_empty
  · exact .inr (.inl rfl)
  · decide +kernel
  · exact Heap.noOverflow_of_table (by decide +kernel) (by decide +kernel) (by decide +kernel)
  · exact .inr (.inr (by decide +kernel))
  · decide +kernel

/-- The first extent is freed, and its cluster is handed out: the next compressed extent is put
into it. -/
theorem extents_overlap :
    ∃ heap : Heap, Heap.Reaches (fun heap _ => heap.NoOverflow) Heap.empty heap ∧
      heap.live = [⟨2148, 100, true⟩, ⟨2048, 512, false⟩] ∧
      ¬ heap.live.Pairwise Extent.Disjoint := by
  have hlive : ((((Heap.empty.next (.allocBytes 100)).next (.free ⟨2048, 100, true⟩)).next
      (.allocClusters 512)).next (.allocBytes 100)).live =
        [⟨2148, 100, true⟩, ⟨2048, 512, false⟩] := by decide +kernel
  refine ⟨_, .next (.next (.next (.next .refl Heap.noOverflow_empty ?_) ?_ ?_) ?_ ?_) ?_ ?_,
    hlive, ?_⟩
  · decide +kernel
  · exact Heap.noOverflow_of_table (by decide +kernel) (by decide +kernel) (by decide +kernel)
  · decide +kernel
  · exact Heap.noOverflow_of_table (by decide +kernel) (by decide +kernel) (by decide +kernel)
  · decide +kernel
  · exact Heap.noOverflow_of_table (by decide +kernel) (by decide +kernel) (by decide +kernel)
  · decide +kernel
  rw [hlive]
  intro hpairwise
  have hdisjoint := rel_of_pairwise_cons hpairwise (mem_singleton_self _)
  exact hdisjoint 2148 ⟨by decide, by decide⟩ ⟨by decide, by decide⟩

end QemuVmi.Qcow2
