import QemuVmi.Qcow2.TableEdits

/-!
# Growing the refcount table

`alloc_refcount_block` when the refcount table has no entry for the block: the new table and the
refcount blocks that describe it and themselves are placed behind the last block that is needed so
far. `blocks_used` counts the blocks in front of the cluster index, so the range of the index
itself is included only if the index is not the first one of that range.

Results:
1. `tableSizeLoop_isSome`: the loop that computes the size of the new table ends.
2. `table_size_suffices`: the new table has room for the index and for the new blocks.
3. `growth_sound_iff`: the new structures are disjoint, unused before and counted once, and all
   other counts stay, unless the index is the first one of a range and the new refcount block lies
   in that range too.
-/

namespace QemuVmi.Qcow2

open List Option Bool Nat

/-- `QCOW_MAX_REFTABLE_SIZE`. -/
def maxReftableSize : Nat := 0x800000

/-- What a call that has switched refcount tables has placed, and the index that it was called
for. -/
structure Growth where
  cluster : Nat
  newBlock : Nat
  metaOffset : Nat
  blocksClusters : Nat
  tableOffset : Nat
  tableClusters : Nat
deriving DecidableEq, Repr

/-- What `alloc_refcount_block` returns: 0, `-EAGAIN` (with the new table, if it has switched
tables) or another error. -/
inductive GrowRes
  | ok (img : Image)
  | again (img : Image) (growth : Option Growth)
  | fail

def GrowRes.growth : GrowRes → Option Growth
  | .again _ growth => growth
  | .ok _ | .fail => none

def Growth.uses (growth : Growth) (x : Nat) : Nat :=
  rangeRefs growth.newBlock 1 x + rangeRefs growth.metaOffset growth.blocksClusters x +
    rangeRefs growth.tableOffset growth.tableClusters x

/-- The new block, the additional blocks and the new table are disjoint, have no references before
and are counted once, and all other counts stay; the old table is freed. -/
structure Growth.Sound (growth : Growth) (img img' : Image) : Prop where
  disjoint : ∀ x, growth.uses x ≤ 1
  unused : ∀ x, growth.uses x ≠ 0 → img.refs x = 0
  counted : ∀ x, growth.uses x ≠ 0 → img'.getRefcount x = 1
  kept : ∀ x, growth.uses x = 0 → img'.getRefcount x + rangeRefs img.refcountTableOffset
    (img.sizeToClusters (img.refcountTable.length * 8)) x = img.getRefcount x

variable {m x min fuel size blocks tableSize : Nat}

namespace Image

variable (img : Image)

/-- `next_refcount_table_size`. The loop is the one of `qcow2_grow_l1_table`; a cluster has
`l2Size` entries of 8 bytes. -/
def nextRefcountTableSize (minSize : Nat) : Nat :=
  let minClusters := minSize / img.l2Size + 1
  growL1Size minClusters minClusters (max 1 (img.refcountTable.length / img.l2Size)) * img.l2Size

/-- `blocks_clusters` for a table with `tableSize` entries. -/
def blocksClusters (tableSize : Nat) : Nat :=
  1 + (img.sizeToClusters (tableSize * 8) + img.refcountBlockSize - 1) / img.refcountBlockSize

/-- The loop that computes the size of the new table. -/
def tableSizeLoop (blocksUsed : Nat) : Nat → Nat → Option Nat
  | 0, _ => none
  | fuel + 1, lastTableSize =>
    let metaClusters := img.sizeToClusters (lastTableSize * 8) + img.blocksClusters lastTableSize
    let tableSize := img.nextRefcountTableSize
      (blocksUsed + (metaClusters + img.refcountBlockSize - 1) / img.refcountBlockSize)
    if lastTableSize = tableSize then some tableSize else tableSizeLoop blocksUsed fuel tableSize

/-- The new table: the old one, the new block and the blocks for the new metadata, in the order
in which they are filled in. -/
def newTable (tableSize index newBlock blocksUsed blocks metaOffset : Nat) : List Nat :=
  let table := img.refcountTable ++ replicate (tableSize - img.refcountTable.length) 0
  (range blocks).foldl (fun table i => table.set (blocksUsed + i) (metaOffset + i))
    (table.set index newBlock)

/-- What the blocks of the new table hold. The first blocks of the metadata have a count of 1 for
each of its `clusters`; the new block is still in the cache. -/
def newCounts (table : List Nat) (index newBlock metaOffset blocks clusters x : Nat) : UInt16 :=
  let block := table.getD (x / img.refcountBlockSize) 0
  let i := x % img.refcountBlockSize
  if block = newBlock then
    if newBlock / img.refcountBlockSize = index ∧ newBlock % img.refcountBlockSize = i then 1 else 0
  else if metaOffset ≤ block ∧ block < metaOffset + blocks then
    if (block - metaOffset) * img.refcountBlockSize + i < clusters then 1 else 0
  else img.refcounts x

/-- `alloc_refcount_block` from `BLKDBG_REFTABLE_GROW` on. -/
def growRefcountTable (cluster newBlock : Nat) : Option (Growth × Image) :=
  let index := cluster / img.refcountBlockSize
  let blocksUsed := (cluster + img.refcountBlockSize - 1) / img.refcountBlockSize
  if blocksUsed > maxReftableSize / 8 then none
  else do
    let tableSize ← img.tableSizeLoop blocksUsed (maxReftableSize / 8)
      (img.nextRefcountTableSize (blocksUsed + 1))
    let blocks := img.blocksClusters tableSize
    let metaOffset := blocksUsed * img.refcountBlockSize
    let tableOffset := metaOffset + blocks
    let table := img.newTable tableSize index newBlock blocksUsed blocks metaOffset
    let tableClusters := img.sizeToClusters (tableSize * 8)
    let switched := { img with
      refcountTableOffset := tableOffset
      refcountTable := table
      refcounts := img.newCounts table index newBlock metaOffset blocks (tableClusters + blocks) }
    some (⟨cluster, newBlock, metaOffset, blocks, tableOffset, tableClusters⟩,
      switched.freeClusters img.refcountTableOffset
        (img.sizeToClusters (img.refcountTable.length * 8)))

/-- The table points at the new block, which is empty or describes itself. Without an entry for
it the table grows. -/
def placeBlock (cluster newBlock : Nat) : GrowRes :=
  let index := cluster / img.refcountBlockSize
  if index < img.refcountTable.length then
    let next := img.hookBlock index newBlock
    .again (if newBlock / img.refcountBlockSize = index then
      { next with refcounts := Function.update next.refcounts newBlock 1 } else next) none
  else
    match img.growRefcountTable cluster newBlock with
    | some (growth, img) => .again img (some growth)
    | none => .fail

/-- `alloc_refcount_block`. The count of the new block is in the block itself, or it is updated
by `update_refcount` for one cluster, which undoes nothing if it fails. -/
def allocRefcountBlockGrow : Nat → Nat → Image → GrowRes
  | fuel, cluster, img =>
    if img.hasBlock cluster then .ok img
    else
      let index := cluster / img.refcountBlockSize
      match fuel, img.allocClustersNoref 1 with
      | fuel + 1, some (newBlock, img) =>
        let described : GrowRes :=
          if newBlock / img.refcountBlockSize = index then .ok img
          else
            match allocRefcountBlockGrow fuel newBlock img with
            | .ok img => ((img.setRefcount newBlock 1).map GrowRes.ok).getD .fail
            | res => res
        match described with
        | .ok img => img.placeBlock cluster newBlock
        | res => res
      | _, _ => .fail

/-- The cluster index and the new block of the innermost call: its new block describes itself or
is described by a block that exists. -/
def lastCall : Nat → Nat → Image → Option (Nat × Nat)
  | 0, _, _ => none
  | fuel + 1, cluster, img => do
    let (newBlock, next) ← img.allocClustersNoref 1
    if newBlock / img.refcountBlockSize = cluster / img.refcountBlockSize ∨
        img.hasBlock newBlock = true then some (cluster, newBlock)
    else lastCall fuel newBlock next

variable {img : Image} (hbits : 9 ≤ img.clusterBits)

section
include hbits

lemma sizes_of_clusterBits :
    img.clusterSize = 8 * img.l2Size ∧ img.refcountBlockSize = 4 * img.l2Size ∧
      64 ≤ img.l2Size := by
  obtain ⟨k, hk⟩ := Nat.exists_eq_add_of_le hbits
  have hl2 : img.clusterBits - 3 = k + 6 := by omega
  have hblock : img.clusterBits - 1 = k + 6 + 2 := by omega
  have hpos := k.two_pow_pos
  rw [clusterSize, l2Size, refcountBlockSize, hl2, hblock, hk, show 9 + k = k + 6 + 3 by omega]
  simp only [pow_add]
  omega

lemma sizeToClusters_table (k : Nat) : img.sizeToClusters (k * img.l2Size * 8) = k := by
  obtain ⟨hsize, _, hlow⟩ := sizes_of_clusterBits hbits
  rw [sizeToClusters, hsize, mul_assoc, mul_comm img.l2Size 8, mul_comm k,
    mul_add_div (by omega), div_eq_of_lt (by omega), add_zero]

lemma blocksClusters_table (k : Nat) : img.blocksClusters (k * img.l2Size) =
      1 + (k + img.refcountBlockSize - 1) / img.refcountBlockSize := by
  rw [blocksClusters, sizeToClusters_table hbits]
end

lemma growL1Size_mono {min' fuel' : Nat} (hmin : min ≤ min') (hpos : 0 < size)
    (hfuel' : min' ≤ size + fuel') : growL1Size min fuel size ≤ growL1Size min' fuel' size := by
  induction fuel generalizing fuel' size with
  | zero => exact le_growL1Size min' fuel' size
  | succ fuel ih =>
    rw [growL1Size]
    split
    · cases fuel' with
      | zero => omega
      | succ fuel' =>
        rw [growL1Size, if_pos (by omega)]
        exact ih (by omega) (by omega)
    · exact le_growL1Size min' fuel' size

lemma growL1Size_le {bound : Nat} (hsize : 2 * size ≤ bound)
    (hmin : 3 * min ≤ bound + 2) : 2 * growL1Size min fuel size ≤ bound := by
  induction fuel generalizing size with
  | zero => exact hsize
  | succ fuel ih =>
    rw [growL1Size]
    split
    · exact ih (by omega)
    · exact hsize

lemma nextRefcountTableSize_mono {m' : Nat} (h : m ≤ m') :
    img.nextRefcountTableSize m ≤ img.nextRefcountTableSize m' := by
  refine mul_le_mul_right _ (growL1Size_mono ?_ (by omega) (le_add_left _ _))
  exact Nat.add_le_add_right (Nat.div_le_div_right h) 1

include hbits in
lemma nextRefcountTableSize_spec (hm : img.refcountTable.length ≤ m) :
    ∃ k, img.nextRefcountTableSize m = k * img.l2Size ∧ m < k * img.l2Size ∧ 0 < k ∧
      2 * k ≤ 3 * (m / img.l2Size) + 3 := by
  obtain ⟨_, _, hlow⟩ := sizes_of_clusterBits hbits
  have hstart := Nat.div_le_div_right (c := img.l2Size) hm
  refine ⟨_, rfl, ?_, ?_, growL1Size_le ?_ ?_⟩
  · have hle : m / img.l2Size + 1 ≤ growL1Size (m / img.l2Size + 1) (m / img.l2Size + 1)
        (max 1 (img.refcountTable.length / img.l2Size)) :=
      minSize_le_growL1Size (by omega) (by omega)
    calc m < img.l2Size * (m / img.l2Size + 1) := lt_mul_div_succ m (by omega)
      _ = (m / img.l2Size + 1) * img.l2Size := mul_comm _ _
      _ ≤ _ := mul_le_mul_right _ hle
  · exact lt_of_lt_of_le (by omega) (le_growL1Size _ _ _)
  · omega
  · omega

variable {E blocksUsed k : Nat} {mid : Image}

lemma divUp_le (hE : 256 ≤ E) (x : Nat) : (x + E - 1) / E ≤ x / 256 + 1 := by
  calc (x + E - 1) / E ≤ (x + E) / E := Nat.div_le_div_right (by omega)
    _ = x / E + 1 := add_div_right x (by omega)
    _ ≤ x / 256 + 1 := Nat.add_le_add_right (Nat.div_le_div_left hE (by omega)) 1

/-- What the loop asks for after a table of `k` clusters: the blocks used so far and those for the
new metadata. -/
def loopSize (img : Image) (blocksUsed k : Nat) : Nat :=
  blocksUsed + (k + (1 + (k + img.refcountBlockSize - 1) / img.refcountBlockSize) +
    img.refcountBlockSize - 1) / img.refcountBlockSize

lemma loopSize_mono {k' : Nat} (h : k ≤ k') :
    img.loopSize blocksUsed k ≤ img.loopSize blocksUsed k' := by
  have hblocks : (k + img.refcountBlockSize - 1) / img.refcountBlockSize ≤
      (k' + img.refcountBlockSize - 1) / img.refcountBlockSize := Nat.div_le_div_right (by omega)
  exact Nat.add_le_add_left (Nat.div_le_div_right (by omega)) _

section
include hbits

lemma loopSize_le (blocksUsed k : Nat) :
    img.loopSize blocksUsed k ≤ blocksUsed + ((k + k / 256 + 2) / 256 + 1) := by
  obtain ⟨_, hblock, hlow⟩ := sizes_of_clusterBits hbits
  have hblocks := divUp_le (show 256 ≤ img.refcountBlockSize by omega) k
  have hmeta := divUp_le (show 256 ≤ img.refcountBlockSize by omega)
    (k + (1 + (k + img.refcountBlockSize - 1) / img.refcountBlockSize))
  unfold loopSize
  omega

variable (hlength : img.refcountTable.length ≤ blocksUsed)
include hlength

lemma tableSizeLoop_round (k fuel : Nat) :
    ∃ k', img.nextRefcountTableSize (img.loopSize blocksUsed k) = k' * img.l2Size ∧
      img.loopSize blocksUsed k < k' * img.l2Size ∧
      2 * k' ≤ 3 * (img.loopSize blocksUsed k / 64) + 3 ∧
      img.tableSizeLoop blocksUsed (fuel + 1) (k * img.l2Size) =
        if k = k' then some (k' * img.l2Size)
        else img.tableSizeLoop blocksUsed fuel (k' * img.l2Size) := by
  obtain ⟨_, _, hlow⟩ := sizes_of_clusterBits hbits
  obtain ⟨k', heq, hlt, _, hle⟩ := nextRefcountTableSize_spec hbits
    (show img.refcountTable.length ≤ img.loopSize blocksUsed k from
      hlength.trans (le_add_right _ _))
  have hdiv : img.loopSize blocksUsed k / img.l2Size ≤ img.loopSize blocksUsed k / 64 :=
    div_le_div_left hlow (by omega)
  refine ⟨k', heq, hlt, by omega, ?_⟩
  rw [tableSizeLoop, sizeToClusters_table hbits, blocksClusters_table hbits]
  change (if k * img.l2Size = img.nextRefcountTableSize (img.loopSize blocksUsed k) then
    some (img.nextRefcountTableSize (img.loopSize blocksUsed k)) else
    img.tableSizeLoop blocksUsed fuel (img.nextRefcountTableSize (img.loopSize blocksUsed k))) = _
  rw [heq]
  by_cases hk : k = k'
  · rw [if_pos hk, if_pos (by rw [hk])]
  · rw [if_neg hk, if_neg fun hmul => hk (eq_of_mul_eq_mul_right (by omega) hmul)]

variable (hused : blocksUsed ≤ maxReftableSize / 8)

include hused in
lemma tableSizeLoop_isSome (hk : k ≤ 24700) (hfuel : 24700 < k + fuel)
    (hgrows : k * img.l2Size ≤ img.nextRefcountTableSize (img.loopSize blocksUsed k)) :
    (img.tableSizeLoop blocksUsed fuel (k * img.l2Size)).isSome := by
  induction fuel generalizing k with
  | zero => omega
  | succ fuel ih =>
    obtain ⟨_, _, hlow⟩ := sizes_of_clusterBits hbits
    obtain ⟨k', heq, _, hle, hround⟩ := tableSizeLoop_round hbits hlength k fuel
    rw [hround]
    split
    · rfl
    rename_i hne
    rw [heq] at hgrows
    have hlt : k < k' :=
      lt_of_le_of_ne (le_of_mul_le_mul_right hgrows (by omega)) hne
    have hsize := loopSize_le hbits blocksUsed k
    refine ih ?_ (by omega) ?_
    · unfold maxReftableSize at hused
      omega
    · rw [← heq]
      exact nextRefcountTableSize_mono (loopSize_mono hlt.le)

include hused in
lemma tableSizeLoop_spec
    (hrun : img.tableSizeLoop blocksUsed fuel (k * img.l2Size) = some tableSize) :
    blocksUsed + img.blocksClusters tableSize ≤ tableSize ∧
      img.sizeToClusters (tableSize * 8) + img.blocksClusters tableSize ≤
        img.blocksClusters tableSize * img.refcountBlockSize := by
  induction fuel generalizing k with
  | zero => cases hrun
  | succ fuel ih =>
    obtain ⟨_, hblock, hlow⟩ := sizes_of_clusterBits hbits
    obtain ⟨k', heq, hlt, hle, hround⟩ := tableSizeLoop_round hbits hlength k fuel
    rw [hround] at hrun
    split at hrun
    next hk =>
      subst hk
      cases hrun
      rw [blocksClusters_table hbits, sizeToClusters_table hbits]
      have hsize := loopSize_le hbits blocksUsed k
      have hfew := divUp_le (show 256 ≤ img.refcountBlockSize by omega) k
      have hdiv := div_add_mod (k + img.refcountBlockSize - 1) img.refcountBlockSize
      have hmod := mod_lt (k + img.refcountBlockSize - 1)
        (show 0 < img.refcountBlockSize by omega)
      constructor
      · have hblocks : (k + img.refcountBlockSize - 1) / img.refcountBlockSize ≤
            (k + (1 + (k + img.refcountBlockSize - 1) / img.refcountBlockSize) +
              img.refcountBlockSize - 1) / img.refcountBlockSize :=
          Nat.div_le_div_right
            (Nat.sub_le_sub_right (Nat.add_le_add_right (Nat.le_add_right _ _) _) _)
        unfold loopSize at hlt
        omega
      · -- less than 24700 clusters, so the blocks describe themselves in the first one
        unfold maxReftableSize at hused
        rw [add_mul, one_mul, mul_comm _ img.refcountBlockSize]
        omega
    · exact ih hrun

include hused in
/-- The loop ends, and the table has room for the blocks, which describe the new metadata. -/
lemma tableSizeLoop_ends : ∃ tableSize, img.tableSizeLoop blocksUsed (maxReftableSize / 8)
        (img.nextRefcountTableSize (blocksUsed + 1)) = some tableSize ∧
      blocksUsed + img.blocksClusters tableSize ≤ tableSize ∧
      img.sizeToClusters (tableSize * 8) + img.blocksClusters tableSize ≤
        img.blocksClusters tableSize * img.refcountBlockSize := by
  obtain ⟨_, hblock, hlow⟩ := sizes_of_clusterBits hbits
  obtain ⟨k, hstart, _, hkpos, hk⟩ := nextRefcountTableSize_spec hbits
    (hlength.trans (le_add_right _ 1))
  have hdiv : (blocksUsed + 1) / img.l2Size ≤ (blocksUsed + 1) / 64 :=
    div_le_div_left hlow (by omega)
  have hgrows : k * img.l2Size ≤ img.nextRefcountTableSize (img.loopSize blocksUsed k) := by
    rw [← hstart]
    refine nextRefcountTableSize_mono (Nat.add_le_add_left (Nat.div_pos ?_ (by omega)) _)
    generalize (k + img.refcountBlockSize - 1) / img.refcountBlockSize = blocks
    omega
  obtain ⟨tableSize, hloop⟩ := isSome_iff_exists.mp (@tableSizeLoop_isSome (maxReftableSize / 8) _ hbits
    _ k hlength hused (by unfold maxReftableSize at hused; omega)
    (by unfold maxReftableSize; omega) hgrows)
  rw [hstart]
  exact ⟨tableSize, hloop, tableSizeLoop_spec hbits hlength hused hloop⟩
end

/-! ## The new table -/

lemma foldl_set_spec (table : List Nat) {start first : Nat} (n : Nat)
    (hroom : start + n ≤ table.length) :
    let filled := (range n).foldl (fun table i => table.set (start + i) (first + i)) table
    filled.length = table.length ∧ ∀ i, filled.getD i 0 =
      if start ≤ i ∧ i < start + n then first + (i - start) else table.getD i 0 := by
  induction n with
  | zero =>
    refine ⟨rfl, fun i => ?_⟩
    rw [if_neg (by omega)]
    rfl
  | succ n ih =>
    obtain ⟨hlength, hget⟩ := ih (by omega)
    simp only [range_succ, foldl_append, foldl_cons, foldl_nil]
    refine ⟨(length_set ..).trans hlength, fun i => ?_⟩
    rw [getD_eq_getElem?_getD, List.getElem?_set, hlength]
    by_cases hi : start + n = i
    · rw [if_pos hi, if_pos (by omega), if_pos (by omega), getD_some]
      omega
    rw [if_neg hi, ← getD_eq_getElem?_getD, hget i]
    by_cases hrun : start ≤ i ∧ i < start + n
    · rw [if_pos hrun, if_pos (by omega)]
    · rw [if_neg hrun, if_neg (by omega)]

lemma getD_newTable {index newBlock metaOffset : Nat}
    (hlength : img.refcountTable.length ≤ tableSize) (hindex : index < tableSize)
    (hroom : blocksUsed + blocks ≤ tableSize) (i : Nat) :
    (img.newTable tableSize index newBlock blocksUsed blocks metaOffset).getD i 0 =
      if blocksUsed ≤ i ∧ i < blocksUsed + blocks then metaOffset + (i - blocksUsed)
      else if i = index then newBlock else img.refcountTable.getD i 0 := by
  have hold : (img.refcountTable ++
      replicate (tableSize - img.refcountTable.length) 0).length = tableSize := by
    rw [length_append, length_replicate]
    omega
  have hset : ((img.refcountTable ++
      replicate (tableSize - img.refcountTable.length) 0).set index newBlock).length =
        tableSize := (length_set ..).trans hold
  refine ((foldl_set_spec _ blocks (le_trans hroom (le_of_eq hset.symm))).2 i).trans ?_
  rw [getD_eq_getElem?_getD, List.getElem?_set, hold]
  by_cases hi : index = i
  · rw [if_pos hi, if_pos hindex, if_pos hi.symm, getD_some]
  rw [if_neg hi, if_neg (Ne.symm hi), getD_eq_getElem?_getD, List.getElem?_append]
  congr 1
  by_cases hlt : i < img.refcountTable.length
  · rw [if_pos hlt]
  · rw [if_neg hlt, List.getElem?_eq_none (Nat.le_of_not_lt hlt), List.getElem?_replicate]
    split <;> rfl

/-! ## The counts after the switch -/

variable {img' : Image} {growth : Growth} {cluster newBlock fuel : Nat}

/-- The blocks that the refcount table points at are not the new block and are described by the
table. -/
def BlocksKept (img : Image) (newBlock : Nat) : Prop :=
  ∀ i, img.refcountTable.getD i 0 ≠ 0 → img.refcountTable.getD i 0 ≠ newBlock ∧
    img.refcountTable.getD i 0 < img.refcountTable.length * img.refcountBlockSize

/-- Where the new structures are: behind all ranges that have a block, and the range of the index
itself only if the index is the first one there. -/
structure Placed (img : Image) (cluster newBlock : Nat) (growth : Growth) : Prop where
  cluster_eq : growth.cluster = cluster
  newBlock_eq : growth.newBlock = newBlock
  metaOffset : growth.metaOffset =
    (cluster + img.refcountBlockSize - 1) / img.refcountBlockSize * img.refcountBlockSize
  tableOffset : growth.tableOffset = growth.metaOffset + growth.blocksClusters
  blocks_pos : 0 < growth.blocksClusters
  room : growth.tableClusters + growth.blocksClusters ≤
    growth.blocksClusters * img.refcountBlockSize

lemma hasBlock_iff_getD :
    img.hasBlock x = true ↔ img.refcountTable.getD (x / img.refcountBlockSize) 0 ≠ 0 := bne_iff_ne

lemma getRefcount_newTable {table : List Nat} {used clusters : Nat}
    (hE : img.refcountBlockSize = E) (hpos : 0 < E) (hused : 0 < used) (hnew : newBlock ≠ 0)
    (hblocks : ∀ i, img.refcountTable.getD i 0 ≠ 0 → img.refcountTable.getD i 0 ≠ newBlock ∧
      img.refcountTable.getD i 0 < used * E)
    (hne : ¬ (used * E ≤ newBlock ∧ newBlock < used * E + blocks))
    (hentry : ∀ i, table.getD i 0 = if used ≤ i ∧ i < used + blocks then used * E + (i - used)
      else if i = cluster / E then newBlock else img.refcountTable.getD i 0)
    (x offset : Nat) :
    getRefcount { img with
        refcountTableOffset := offset, refcountTable := table
        refcounts := img.newCounts table (cluster / E) newBlock (used * E) blocks clusters } x =
      if used * E ≤ x ∧ x < used * E + blocks * E then
        if x < used * E + clusters then 1 else 0
      else if x / E = cluster / E then if x = newBlock then 1 else 0
      else img.getRefcount x := by
  have hx := div_add_mod x E
  have hused' : 0 < used * E := mul_pos hused hpos
  unfold getRefcount hasBlock
  change (if (table.getD (x / img.refcountBlockSize) 0 != 0) = true then
    (img.newCounts table (cluster / E) newBlock (used * E) blocks clusters x).toNat else 0) = _
  simp only [newCounts, hE]
  have hrange : (used * E ≤ x ∧ x < used * E + blocks * E) ↔ used ≤ x / E ∧ x / E < used + blocks := by
    rw [le_div_iff_mul_le hpos, div_lt_iff_lt_mul hpos, add_mul]
  have hx' := hentry (x / E)
  by_cases hmeta : used ≤ x / E ∧ x / E < used + blocks
  · -- a block for the metadata
    rw [if_pos hmeta] at hx'
    have hmul : (x / E - used) * E = E * (x / E) - used * E := by rw [Nat.sub_mul, mul_comm]
    have hle : used * E ≤ E * (x / E) := by
      rw [mul_comm E]
      exact mul_le_mul_right E hmeta.1
    have hlow := hrange.mpr hmeta
    have hother : used * E + (x / E - used) ≠ newBlock := by omega
    have hmetaBlock : used * E ≤ used * E + (x / E - used) ∧
        used * E + (x / E - used) < used * E + blocks := by omega
    rw [hx', if_pos (bne_iff_ne.mpr (by omega)), if_neg hother, if_pos hmetaBlock, if_pos hlow,
      Nat.add_sub_cancel_left, hmul]
    by_cases hcounted : x < used * E + clusters
    · rw [if_pos hcounted, if_pos (by omega)]
      rfl
    · rw [if_neg hcounted, if_neg (by omega)]
      rfl
  · rw [if_neg hmeta] at hx'
    rw [if_neg fun hlow => hmeta (hrange.mp hlow)]
    by_cases hindex : x / E = cluster / E
    · -- the new block
      rw [if_pos hindex] at hx'
      rw [hx', if_pos (by simpa using hnew), if_pos rfl, if_pos hindex]
      by_cases hself : x = newBlock
      · rw [if_pos hself, if_pos (by rw [← hself]; exact ⟨hindex, rfl⟩)]
        rfl
      rw [if_neg hself, if_neg]
      · rfl
      · rintro ⟨hdiv, hrem⟩
        have hnewBlock := div_add_mod newBlock E
        rw [hdiv, hrem, ← hindex] at hnewBlock
        omega
    · rw [if_neg hindex] at hx' ⊢
      rw [hx']
      by_cases hzero : img.refcountTable.getD (x / E) 0 = 0
      · rw [hzero]
        rfl
      obtain ⟨hother, hlt⟩ := hblocks (x / E) hzero
      have hbelow : ¬ (used * E ≤ img.refcountTable.getD (x / E) 0 ∧
          img.refcountTable.getD (x / E) 0 < used * E + blocks) := by omega
      rw [if_neg hother, if_neg hbelow]

include hbits in
lemma growRefcountTable_counts
    (hrun : img.growRefcountTable cluster newBlock = some (growth, img'))
    (hindex : img.refcountTable.length ≤ cluster / img.refcountBlockSize)
    (hlength : 0 < img.refcountTable.length) (hnew : newBlock ≠ 0)
    (hblocks : img.BlocksKept newBlock) :
    img.Placed cluster newBlock growth ∧ ∃ switched : Image,
      img' = switched.freeClusters img.refcountTableOffset
        (img.sizeToClusters (img.refcountTable.length * 8)) ∧
      (¬ (growth.metaOffset ≤ newBlock ∧ newBlock < growth.tableOffset) → ∀ x,
        switched.getRefcount x = if growth.metaOffset ≤ x ∧
              x < growth.metaOffset + growth.blocksClusters * img.refcountBlockSize then
            if x < growth.tableOffset + growth.tableClusters then 1 else 0
          else if x / img.refcountBlockSize = cluster / img.refcountBlockSize then
            if x = newBlock then 1 else 0
          else img.getRefcount x) := by
  obtain ⟨_, hblock, hlow⟩ := sizes_of_clusterBits hbits
  simp only [growRefcountTable] at hrun
  split at hrun
  · cases hrun
  rename_i hused
  obtain ⟨tableSize, hloop, hrun⟩ := bind_eq_some_iff.mp hrun
  cases hrun
  have hceil : cluster / img.refcountBlockSize ≤
      (cluster + img.refcountBlockSize - 1) / img.refcountBlockSize :=
    Nat.div_le_div_right (by omega)
  have hpos : 0 < img.blocksClusters tableSize := Nat.add_pos_left one_pos _
  obtain ⟨k, hstart, _⟩ := nextRefcountTableSize_spec hbits (show img.refcountTable.length ≤
    (cluster + img.refcountBlockSize - 1) / img.refcountBlockSize + 1 by omega)
  rw [hstart] at hloop
  obtain ⟨hfit, hroom⟩ := tableSizeLoop_spec hbits (by omega) (by omega) hloop
  refine ⟨⟨rfl, rfl, rfl, rfl, hpos, hroom⟩, _, rfl, fun hne x => ?_⟩
  rw [getRefcount_newTable rfl (by omega) (by omega) hnew (fun i hi => ?_) hne
    (getD_newTable (by omega) (by omega) hfit)]
  · rw [add_assoc _ (img.blocksClusters tableSize), add_comm (img.blocksClusters tableSize)]
  · obtain ⟨hne, hlt⟩ := hblocks i hi
    exact ⟨hne, hlt.trans_le (mul_le_mul_right _ (by omega))⟩

/-! ## The call that grows the table -/

lemma divUp_mul (hE : 0 < E) (c : Nat) :
    (c + E - 1) / E * E = if c % E = 0 then c / E * E else c / E * E + E := by
  have hmod := mod_lt c hE
  have hc : c + E - 1 = E * (c / E) + (c % E + E - 1) := by
    have := div_add_mod c E
    omega
  rw [hc, mul_add_div hE, add_mul]
  split
  next hzero => rw [hzero, zero_add, div_eq_of_lt (show E - 1 < E by omega), zero_mul, add_zero]
  · have hone : (c % E + E - 1) / E = 1 := Nat.div_eq_of_lt_le (by omega) (by omega)
    rw [hone, one_mul]

lemma Placed.le_metaOffset (h : img.Placed cluster newBlock growth)
    (hpos : 0 < img.refcountBlockSize)
    (hindex : img.refcountTable.length ≤ cluster / img.refcountBlockSize) :
    img.refcountTable.length * img.refcountBlockSize ≤ growth.metaOffset := by
  have hle := mul_le_mul_right img.refcountBlockSize hindex
  rw [h.metaOffset, divUp_mul hpos]
  split <;> omega

lemma lt_of_hasBlock (hpos : 0 < img.refcountBlockSize)
    (h : img.hasBlock x = true) : x < img.refcountTable.length * img.refcountBlockSize := by
  have hblock := hasBlock_iff_getD.mp h
  rw [← div_lt_iff_lt_mul hpos]
  by_contra hle
  rw [getD_eq_getElem?_getD, List.getElem?_eq_none (not_lt.mp hle)] at hblock
  exact hblock rfl

lemma blocksKept_of_counts (hpos : 0 < img.refcountBlockSize)
    (hcounts : ∀ x, img.getRefcount x = img.refs x) (hfree : img.getRefcount newBlock = 0) :
    img.BlocksKept newBlock := by
  intro i hi
  generalize hentry : img.refcountTable.getD i 0 = entry at hi
  have hmem : entry ∈ img.refcountTable := by
    rw [getD_eq_getElem?_getD] at hentry
    cases hget : img.refcountTable[i]? with
    | none =>
      rw [hget] at hentry
      exact absurd hentry.symm hi
    | some value =>
      rw [hget] at hentry
      exact hentry ▸ mem_of_getElem? hget
  have hcount : img.getRefcount entry ≠ 0 := by
    have hblockRefs : img.blockRefs entry ≠ 0 := by
      rw [blockRefs, if_neg hi]
      exact (count_pos_iff.mpr hmem).ne'
    rw [hcounts, refs_eq, metaRefs]
    omega
  refine ⟨?_, lt_of_hasBlock hpos (hasBlock_of_getRefcount hcount)⟩
  rintro rfl
  exact hcount hfree

/-- The image before the table grows: the count of the new block is 1, unless the block itself
describes it. -/
structure Described (img mid : Image) (cluster newBlock : Nat) : Prop where
  clusterBits : mid.clusterBits = img.clusterBits
  refcountTableOffset : mid.refcountTableOffset = img.refcountTableOffset
  refcountTable : mid.refcountTable = img.refcountTable
  counts : ∀ x, x ≠ newBlock → mid.getRefcount x = img.getRefcount x
  counted : newBlock / img.refcountBlockSize ≠ cluster / img.refcountBlockSize →
    mid.getRefcount newBlock = 1

variable (hcounts : ∀ x, img.getRefcount x = img.refs x) (hfree : img.getRefcount newBlock = 0)
  (hmid : Described img mid cluster newBlock)
  (hindex : img.refcountTable.length ≤ cluster / img.refcountBlockSize)

include hbits hcounts hfree hmid hindex in
lemma growRefcountTable_freed
    (hrun : mid.growRefcountTable cluster newBlock = some (growth, img')) :
    img.Placed cluster newBlock growth ∧
      (¬ (growth.metaOffset ≤ newBlock ∧ newBlock < growth.tableOffset) → ∀ x,
        img'.getRefcount x + rangeRefs img.refcountTableOffset
            (img.sizeToClusters (img.refcountTable.length * 8)) x =
          if growth.metaOffset ≤ x ∧
              x < growth.metaOffset + growth.blocksClusters * img.refcountBlockSize then
            if x < growth.tableOffset + growth.tableClusters then 1 else 0
          else if x / img.refcountBlockSize = cluster / img.refcountBlockSize then
            if x = newBlock then 1 else 0
          else mid.getRefcount x) := by
  obtain ⟨_, hblock, hlow⟩ := sizes_of_clusterBits hbits
  have hpos : 0 < img.refcountBlockSize := by omega
  have hE : mid.refcountBlockSize = img.refcountBlockSize := by
    rw [refcountBlockSize, refcountBlockSize, hmid.clusterBits]
  have hheader : img.getRefcount 0 ≠ 0 := by
    rw [hcounts, refs_eq, metaRefs, rangeRefs_self one_pos]
    omega
  have hlength := Nat.pos_of_mul_pos_right (lt_of_hasBlock hpos (hasBlock_of_getRefcount hheader))
  have hnew : newBlock ≠ 0 := by
    rintro rfl
    exact hheader hfree
  have hkept : mid.BlocksKept newBlock := by
    have hblocks := blocksKept_of_counts hpos hcounts hfree
    unfold BlocksKept at hblocks ⊢
    rwa [hmid.refcountTable, hE]
  rw [← hmid.refcountTable, ← hE] at hindex
  rw [← hmid.refcountTable] at hlength
  obtain ⟨hplaced, switched, rfl, hswitched⟩ := growRefcountTable_counts
    (hmid.clusterBits ▸ hbits) hrun hindex hlength hnew hkept
  have hsize : mid.sizeToClusters = img.sizeToClusters := by
    funext n
    rw [sizeToClusters, sizeToClusters, clusterSize, clusterSize, hmid.clusterBits]
  rw [hE, hmid.refcountTable] at hindex
  rw [hE] at hswitched
  rw [hmid.refcountTableOffset, hmid.refcountTable, hsize]
  have hplaced : img.Placed cluster newBlock growth :=
    ⟨hplaced.1, hplaced.2, by rw [hplaced.3, hE], hplaced.4, hplaced.5, by rw [← hE]; exact hplaced.6⟩
  refine ⟨hplaced, fun hne x => ?_⟩
  have hcounted : ∀ x, img.refcountTableOffset ≤ x →
      x < img.refcountTableOffset + img.sizeToClusters (img.refcountTable.length * 8) →
      switched.getRefcount x ≠ 0 := by
    intro x hlow hhigh
    have hused : img.getRefcount x ≠ 0 := by
      have hone : rangeRefs img.refcountTableOffset
        (img.sizeToClusters (img.refcountTable.length * 8)) x = 1 := if_pos ⟨hlow, hhigh⟩
      rw [hcounts, refs_eq, metaRefs, hone]
      omega
    have hlt := lt_of_hasBlock hpos (hasBlock_of_getRefcount hused)
    have hdiv := (div_lt_iff_lt_mul hpos).mpr hlt
    have hle := hplaced.le_metaOffset hpos hindex
    rw [hswitched hne x, if_neg (by omega), if_neg (by omega), hmid.counts x]
    · exact hused
    · rintro rfl
      exact hused hfree
  have hfreed := (freeClusters_counts hcounted).2 x
  rw [← hswitched hne x]
  omega

lemma Placed.uses_eq (h : img.Placed cluster newBlock growth) (hlt : newBlock < growth.metaOffset)
    (x : Nat) : growth.uses x = if x = newBlock ∨
      growth.metaOffset ≤ x ∧ x < growth.tableOffset + growth.tableClusters then 1 else 0 := by
  have htable := h.tableOffset
  rw [Growth.uses, h.newBlock_eq]
  grind [rangeRefs]

include hbits hcounts hfree hmid hindex in
lemma growRefcountTable_sound_iff
    (helsewhere : newBlock / img.refcountBlockSize ≠ cluster / img.refcountBlockSize →
      img.hasBlock newBlock = true)
    (hrun : mid.growRefcountTable cluster newBlock = some (growth, img')) :
    growth.Sound img img' ↔ ¬ (newBlock / img.refcountBlockSize = cluster / img.refcountBlockSize ∧
        cluster % img.refcountBlockSize = 0) := by
  obtain ⟨_, hblock, hlow⟩ := sizes_of_clusterBits hbits
  have hpos : 0 < img.refcountBlockSize := by omega
  obtain ⟨hplaced, hafter⟩ := growRefcountTable_freed hbits hcounts hfree hmid hindex hrun
  have hle := hplaced.le_metaOffset hpos hindex
  have hmeta := hplaced.metaOffset.trans (divUp_mul hpos cluster)
  have hroom := hplaced.room
  have htable := hplaced.tableOffset
  have hblocks : img.refcountBlockSize ≤ growth.blocksClusters * img.refcountBlockSize :=
    Nat.le_mul_of_pos_left _ hplaced.blocks_pos
  have hnewBlock := div_add_mod newBlock img.refcountBlockSize
  have hmod := mod_lt newBlock hpos
  constructor
  · -- the new block is among the blocks for the metadata, or they overwrite its count
    rintro hsound ⟨hsame, hfirst⟩
    rw [if_pos hfirst, ← hsame, mul_comm] at hmeta
    have hdisjoint := hsound.disjoint newBlock
    rw [Growth.uses, hplaced.newBlock_eq, rangeRefs_self one_pos] at hdisjoint
    have hout : ¬ newBlock < growth.tableOffset + growth.tableClusters := by grind [rangeRefs]
    have hcount := hafter (by omega) newBlock
    have hone := hsound.counted newBlock (by
      rw [Growth.uses, hplaced.newBlock_eq, rangeRefs_self one_pos]
      omega)
    rw [if_pos (by omega), if_neg hout] at hcount
    omega
  · intro hgood
    have hlt : newBlock < growth.metaOffset := by
      by_cases hsame : newBlock / img.refcountBlockSize = cluster / img.refcountBlockSize
      · rw [if_neg fun hfirst => hgood ⟨hsame, hfirst⟩, ← hsame, mul_comm] at hmeta
        omega
      · have hdescribed := lt_of_hasBlock hpos (helsewhere hsame)
        omega
    have hcount := hafter (by omega)
    have hbehind : ∀ x, growth.metaOffset ≤ x ∨
        x / img.refcountBlockSize = cluster / img.refcountBlockSize → img.getRefcount x = 0 := by
      intro x hx
      by_contra hused
      have hlt := lt_of_hasBlock hpos (hasBlock_of_getRefcount hused)
      have hdiv := (div_lt_iff_lt_mul hpos).mpr hlt
      omega
    have hunused : ∀ x, growth.uses x ≠ 0 → img.getRefcount x = 0 := by
      intro x hx
      rw [hplaced.uses_eq hlt] at hx
      by_cases hnew : x = newBlock
      · rw [hnew, hfree]
      · exact hbehind x (.inl (by grind))
    refine ⟨fun x => ?_, fun x hx => (hcounts x).symm.trans (hunused x hx), fun x hx => ?_,
      fun x hx => ?_⟩
    · rw [hplaced.uses_eq hlt]
      split <;> omega
    · have hzero := (hcounts x).symm.trans (hunused x hx)
      rw [refs_eq, metaRefs] at hzero
      have hx' := hcount x
      by_cases hnew : x = newBlock
      · subst hnew
        rw [if_neg (by omega)] at hx'
        by_cases hsame : x / img.refcountBlockSize = cluster / img.refcountBlockSize
        · rw [if_pos hsame, if_pos rfl] at hx'
          omega
        · rw [if_neg hsame, hmid.counted hsame] at hx'
          omega
      · have hmetadata : growth.metaOffset ≤ x ∧ x < growth.tableOffset + growth.tableClusters := by
          rw [hplaced.uses_eq hlt] at hx
          grind
        rw [if_pos (by omega), if_pos hmetadata.2] at hx'
        omega
    · have hother : x ≠ newBlock ∧
          ¬ (growth.metaOffset ≤ x ∧ x < growth.tableOffset + growth.tableClusters) := by
        rw [hplaced.uses_eq hlt] at hx
        grind
      rw [hcount x]
      split
      next hrange => rw [if_neg (by omega), hbehind x (.inl hrange.1)]
      · split
        next hsame => rw [if_neg hother.1, hbehind x (.inr hsame)]
        · exact hmid.counts x hother.1

lemma growBlock_succ {next : Image} (hblock : img.hasBlock cluster = false)
    (hnoref : img.allocClustersNoref 1 = some (newBlock, next)) :
    allocRefcountBlockGrow (fuel + 1) cluster img =
      match (if newBlock / next.refcountBlockSize = cluster / img.refcountBlockSize then .ok next
        else
          match allocRefcountBlockGrow fuel newBlock next with
          | .ok img => ((img.setRefcount newBlock 1).map GrowRes.ok).getD .fail
          | res => res : GrowRes) with
      | .ok mid => mid.placeBlock cluster newBlock
      | res => res := by
  rw [allocRefcountBlockGrow]
  simp only [hblock, hnoref, false_eq_true, if_false]

lemma growBlock_none (hblock : img.hasBlock cluster = false)
    (h : fuel = 0 ∨ img.allocClustersNoref 1 = none) :
    allocRefcountBlockGrow fuel cluster img = .fail := by
  rw [allocRefcountBlockGrow]
  rcases h with rfl | hnoref
  · simp only [hblock, false_eq_true, if_false]
  · simp only [hblock, hnoref, false_eq_true, if_false]

lemma placeBlock_ne_ok : img.placeBlock cluster newBlock ≠ .ok mid := by
  simp only [placeBlock]
  split
  · exact GrowRes.noConfusion
  · split <;> exact GrowRes.noConfusion

lemma placeBlock_switch (h : img.placeBlock cluster newBlock = .again img' (some growth)) :
    img.refcountTable.length ≤ cluster / img.refcountBlockSize ∧
      img.growRefcountTable cluster newBlock = some (growth, img') := by
  simp only [placeBlock] at h
  split at h
  · cases h
  rename_i hindex
  split at h
  next hgrow =>
    cases h
    exact ⟨not_lt.mp hindex, hgrow⟩
  · cases h

lemma growBlock_ok (hrun : allocRefcountBlockGrow fuel cluster img = .ok mid) :
    img.hasBlock cluster = true ∧ mid = img := by
  cases hblock : img.hasBlock cluster with
  | true =>
    rw [allocRefcountBlockGrow, if_pos hblock] at hrun
    cases hrun
    exact ⟨rfl, rfl⟩
  | false =>
    exfalso
    cases fuel with
    | zero =>
      rw [growBlock_none hblock (.inl rfl)] at hrun
      cases hrun
    | succ fuel =>
      cases hnoref : img.allocClustersNoref 1 with
      | none =>
        rw [growBlock_none hblock (.inr hnoref)] at hrun
        cases hrun
      | some found =>
        rw [growBlock_succ hblock hnoref] at hrun
        split at hrun
        · exact placeBlock_ne_ok hrun
        next hres => exact hres mid hrun

lemma hasBlock_with_freeClusterIndex (img : Image) (f x : Nat) :
    hasBlock { img with freeClusterIndex := f } x = img.hasBlock x := rfl

lemma Described.of_setRefcount (cluster : Nat) (hblock : img.hasBlock newBlock = true)
    (hfree : img.getRefcount newBlock = 0) (hset : img.setRefcount newBlock 1 = some mid) :
    Described img mid cluster newBlock := by
  obtain ⟨⟨r, f, rfl⟩, hcounts⟩ := setRefcount_spec hblock hset
  refine ⟨rfl, rfl, rfl, fun x hx => ?_, fun _ => ?_⟩
  · have hx' := hcounts x
    rw [if_neg hx] at hx'
    omega
  · have hnew := hcounts newBlock
    rw [if_pos rfl, hfree] at hnew
    omega

include hbits in
lemma sound_iff_step {next : Image}
    (hcounts : ∀ x, img.getRefcount x = img.refs x) (hblock : img.hasBlock cluster = false)
    (hnoref : img.allocClustersNoref 1 = some (newBlock, next))
    (hrun : allocRefcountBlockGrow (fuel + 1) cluster img = .again img' (some growth))
    (hlast : newBlock / img.refcountBlockSize = cluster / img.refcountBlockSize ∨
      img.hasBlock newBlock = true) :
    growth.Sound img img' ↔ ¬ (newBlock / img.refcountBlockSize = cluster / img.refcountBlockSize ∧
        cluster % img.refcountBlockSize = 0) := by
  rw [growBlock_succ hblock hnoref] at hrun
  obtain ⟨hfree, f, rfl⟩ := allocClustersNoref_spec hnoref
  replace hfree := hfree newBlock (le_refl _) (lt_succ_self _)
  have helsewhere : newBlock / img.refcountBlockSize ≠ cluster / img.refcountBlockSize →
      img.hasBlock newBlock = true := fun hne => hlast.resolve_left hne
  by_cases hsame : newBlock / img.refcountBlockSize = cluster / img.refcountBlockSize
  · rw [if_pos (show newBlock / refcountBlockSize { img with freeClusterIndex := f } = _ from
      hsame)] at hrun
    obtain ⟨hindex, hgrow⟩ := placeBlock_switch hrun
    have hmid : Described img { img with freeClusterIndex := f } cluster newBlock :=
      ⟨rfl, rfl, rfl, fun _ _ => rfl, fun hne => absurd hsame hne⟩
    exact growRefcountTable_sound_iff hbits hcounts hfree hmid hindex helsewhere hgrow
  have hhas : hasBlock { img with freeClusterIndex := f } newBlock = true :=
    (hasBlock_with_freeClusterIndex img f newBlock).trans (helsewhere hsame)
  rw [if_neg (show ¬ newBlock / refcountBlockSize { img with freeClusterIndex := f } = _ from
    hsame), allocRefcountBlockGrow, if_pos hhas] at hrun
  cases hset : setRefcount { img with freeClusterIndex := f } newBlock 1 with
  | none =>
    simp only [hset, map_none, getD_none] at hrun
    cases hrun
  | some mid =>
    simp only [hset, map_some, getD_some] at hrun
    have hmid := Described.of_setRefcount cluster hhas hfree hset
    obtain ⟨hindex, hgrow⟩ := placeBlock_switch hrun
    rw [hmid.refcountTable, refcountBlockSize, hmid.clusterBits] at hindex
    exact growRefcountTable_sound_iff hbits hcounts hfree ⟨hmid.1, hmid.2, hmid.3, hmid.4, hmid.5⟩
      hindex helsewhere hgrow

/-- By induction on the depth of the calls: the innermost one grows the table. -/
lemma sound_iff_of_counts
    (hrun : allocRefcountBlockGrow fuel cluster img = .again img' (some growth))
    (hbits : 9 ≤ img.clusterBits) (hcounts : ∀ x, img.getRefcount x = img.refs x) :
    ∃ last newBlock, lastCall fuel cluster img = some (last, newBlock) ∧ (growth.Sound img img' ↔
        ¬ (newBlock / img.refcountBlockSize = last / img.refcountBlockSize ∧
          last % img.refcountBlockSize = 0)) := by
  induction fuel generalizing cluster img with
  | zero =>
    rw [allocRefcountBlockGrow] at hrun
    split at hrun
    · cases hrun
    · cases hrun
  | succ fuel ih =>
    cases hblock : img.hasBlock cluster with
    | true =>
      rw [allocRefcountBlockGrow, if_pos hblock] at hrun
      cases hrun
    | false =>
      cases hnoref : img.allocClustersNoref 1 with
      | none =>
        rw [growBlock_none hblock (.inr hnoref)] at hrun
        cases hrun
      | some found =>
        obtain ⟨newBlock, next⟩ := found
        simp only [lastCall, hnoref, bind_eq_bind, bind_some]
        by_cases hlast : newBlock / img.refcountBlockSize = cluster / img.refcountBlockSize ∨
            img.hasBlock newBlock = true
        · rw [if_pos hlast]
          exact ⟨cluster, newBlock, rfl, sound_iff_step hbits hcounts hblock hnoref hrun hlast⟩
        rw [if_neg hlast]
        rw [growBlock_succ hblock hnoref] at hrun
        obtain ⟨_, f, rfl⟩ := allocClustersNoref_spec hnoref
        obtain ⟨hne, hnone⟩ := not_or.mp hlast
        rw [if_neg (show ¬ newBlock / refcountBlockSize { img with freeClusterIndex := f } = _ from
          hne)] at hrun
        have hinner : allocRefcountBlockGrow fuel newBlock { img with freeClusterIndex := f } =
            .again img' (some growth) := by
          cases hcall : allocRefcountBlockGrow fuel newBlock { img with freeClusterIndex := f } with
          | ok mid => exact absurd (growBlock_ok hcall).1 hnone
          | again mid res =>
            rwa [hcall] at hrun
          | fail =>
            rw [hcall] at hrun
            cases hrun
        obtain ⟨last, block, hcall, hsound⟩ := ih hinner hbits hcounts
        exact ⟨last, block, hcall, ⟨fun h => hsound.mp ⟨h.1, h.2, h.3, h.4⟩,
          fun h => let ⟨h1, h2, h3, h4⟩ := hsound.mpr h; ⟨h1, h2, h3, h4⟩⟩⟩

/-- For every consistent image: the new structures are sound unless the innermost call is for the
first index of a range and its new block lies in that range. -/
theorem growth_sound_iff (hbits : 9 ≤ img.clusterBits) (hcon : img.Consistent)
    (hrun : allocRefcountBlockGrow fuel cluster img = .again img' (some growth)) :
    ∃ last newBlock, lastCall fuel cluster img = some (last, newBlock) ∧ (growth.Sound img img' ↔
        ¬ (newBlock / img.refcountBlockSize = last / img.refcountBlockSize ∧
          last % img.refcountBlockSize = 0)) :=
  sound_iff_of_counts hrun hbits hcon.counts

def metadataImage (freeClusterIndex : Nat) : Image where
  clusterBits := 9
  qcowVersion := 3
  hasBackingFile := false
  diskSize := 1024
  l1VmStateIndex := 1
  refcountTableOffset := 1
  refcountTable := 2 :: replicate 63 0
  refcounts c := if c < 4 then 1 else 0
  freeClusterIndex := freeClusterIndex
  l1TableOffset := 3
  l1Size := 1
  l1Table _ := none
  l1Disk _ _ := none
  l2Tables _ _ := .unallocated
  snapshotsOffset := 0
  snapshotsSize := 0
  snapshots := []

lemma consistent_metadataImage (f : Nat) : (metadataImage f).Consistent where
  counts c := by
    have hmeta : (metadataImage f).metaRefs c = if c < 4 then 1 else 0 := by
      have hsum : (metadataImage f).metaRefs c = rangeRefs 0 1 c + rangeRefs 1 1 c +
          (if c = 0 then 0 else (2 :: replicate 63 0).count c) + rangeRefs 0 0 c +
          rangeRefs 3 1 c + 0 := by
        simp [metaRefs, blockRefs, l1Clusters, sizeToClusters, clusterSize, metadataImage]
      rw [hsum]
      clear hsum
      by_cases hc : c < 4
      · revert c
        decide
      rw [rangeRefs_zero, Pi.zero_apply, rangeRefs_one_eq_zero (by omega),
        rangeRefs_one_eq_zero (by omega), rangeRefs_one_eq_zero (by omega), if_neg hc,
        if_neg (by omega), count_cons_of_ne (by omega), count_replicate]
      simp
      omega
    rw [refs_eq, hmeta]
    change (if (2 :: replicate 63 0).getD (c / 256) 0 != 0 then
      (if c < 4 then (1 : UInt16) else 0).toNat else 0) = _
    by_cases hc : c < 4
    · rw [if_pos hc, if_pos hc, div_eq_of_lt (by omega)]
      rfl
    · rw [if_neg hc, if_neg hc]
      split <;> rfl
  copied i _ e he := by cases he
  synced i _ := rfl

lemma growth_of_eq_some {res : GrowRes} (h : res.growth = some growth) :
    ∃ img', res = .again img' (some growth) := by
  cases res with
  | again img' found =>
    cases h
    exact ⟨img', rfl⟩
  | ok img' | fail => cases h

/-- Index 16385 is the second one of its range. -/
theorem growth_sound_second : ∃ img' growth,
    allocRefcountBlockGrow 4 16385 (metadataImage 16386) = .again img' (some growth) ∧
      growth.Sound (metadataImage 16386) img' := by
  have hgrows : (allocRefcountBlockGrow 4 16385 (metadataImage 16386)).growth =
      some ⟨16385, 16386, 16640, 2, 16642, 2⟩ := by decide +kernel
  obtain ⟨img', hrun⟩ := growth_of_eq_some hgrows
  obtain ⟨last, newBlock, hlast, hsound⟩ :=
    growth_sound_iff (by decide) (consistent_metadataImage 16386) hrun
  have hcall : lastCall 4 16385 (metadataImage 16386) = some (16385, 16386) := by decide +kernel
  obtain ⟨rfl, rfl⟩ := Prod.mk.injEq .. ▸ Option.some.inj (hcall.symm.trans hlast)
  exact ⟨img', _, hrun, hsound.mpr (by decide)⟩

/-- Cluster 16384 has been found free and its count is to be set; there is no block for it. The
new block is cluster 16385, and so is the second block for the new metadata. -/
theorem growth_overlap : ∃ img' growth,
    allocRefcountBlockGrow 4 16384 (metadataImage 16385) = .again img' (some growth) ∧
      (metadataImage 16385).Consistent ∧ growth.newBlock = 16385 ∧
      growth.metaOffset = 16384 ∧ growth.blocksClusters = 2 ∧
      ¬ growth.Sound (metadataImage 16385) img' := by
  have hgrows : (allocRefcountBlockGrow 4 16384 (metadataImage 16385)).growth =
      some ⟨16384, 16385, 16384, 2, 16386, 2⟩ := by decide +kernel
  obtain ⟨img', hrun⟩ := growth_of_eq_some hgrows
  refine ⟨img', _, hrun, consistent_metadataImage _, rfl, rfl, rfl, fun hsound => ?_⟩
  exact absurd (hsound.disjoint 16385) (by decide)

/-- `alloc_refcount_block` fills in the entry of the index and the `blocks_clusters` entries from
`blocks_used` on. -/
theorem table_size_suffices {used : Nat} (hbits : 9 ≤ img.clusterBits)
    (hindex : img.refcountTable.length ≤ cluster / img.refcountBlockSize)
    (hused : used = (cluster + img.refcountBlockSize - 1) / img.refcountBlockSize)
    (hmax : used ≤ maxReftableSize / 8) :
    ∃ tableSize, img.tableSizeLoop used (maxReftableSize / 8)
        (img.nextRefcountTableSize (used + 1)) = some tableSize ∧
      cluster / img.refcountBlockSize < tableSize ∧
      (∀ i < img.blocksClusters tableSize, used + i < tableSize) ∧
      img.sizeToClusters (tableSize * 8) + img.blocksClusters tableSize ≤
        img.blocksClusters tableSize * img.refcountBlockSize := by
  have hpos : 0 < img.refcountBlockSize := Nat.two_pow_pos _
  have hle : cluster / img.refcountBlockSize ≤ used := hused ▸ Nat.div_le_div_right (by omega)
  obtain ⟨tableSize, hloop, hroom, hcounts⟩ := tableSizeLoop_ends hbits (hindex.trans hle) hmax
  have hone : 1 ≤ img.blocksClusters tableSize := le_add_right 1 _
  exact ⟨tableSize, hloop, by omega, fun i hi => by omega, hcounts⟩

theorem table_size_suffices_first : ∃ tableSize, (metadataImage 0).tableSizeLoop 64
    (maxReftableSize / 8) ((metadataImage 0).nextRefcountTableSize 65) = some tableSize ∧
      16384 / (metadataImage 0).refcountBlockSize < tableSize :=
  (table_size_suffices (by decide) (by decide) (by decide) (by decide)).imp fun _ h => ⟨h.1, h.2.1⟩

end Image

end QemuVmi.Qcow2
