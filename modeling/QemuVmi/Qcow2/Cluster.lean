import QemuVmi.Qcow2.Refcount

/-!
# Clusters of a qcow2 image

`block/qcow2-cluster.c`: the growth of the L1 table, the L2 tables that are copied before they are
written, the allocating write (`qcow2_alloc_cluster_offset` and `qcow2_alloc_cluster_link_l2`),
`qcow2_zero_clusters` and `qcow2_discard_clusters`.

One request runs at a time, so no write depends on another one in flight. A guest offset is a
number of bytes. An error and a failed assertion are `none`.
-/

namespace QemuVmi.Qcow2

/-- `INT_MAX / sizeof(uint64_t)`. -/
def maxL1Size : Nat := (2 ^ 31 - 1) / 8

structure QCowL2Meta where
  allocOffset : Nat
  offset : Nat
  nbClusters : Nat
deriving DecidableEq, Repr

/-- `QCOW_OFLAG_ZERO` is set in an entry that is not compressed. -/
def L2Entry.setZero : L2Entry → L2Entry
  | .normal cluster copied => .zeroAlloc cluster copied
  | .zeroAlloc cluster copied => .zeroAlloc cluster copied
  | .unallocated | .zeroPlain => .zeroPlain
  | .compressed offset sectors => .compressed offset sectors

namespace Image

variable (img : Image)

section
variable (offset : Nat)

def offsetIntoCluster : Nat := offset % img.clusterSize

def offsetToL1Index : Nat := offset / (img.l2Size * img.clusterSize)

def offsetToL2Index : Nat := offset / img.clusterSize % img.l2Size

def growL1Size (minSize : Nat) : Nat → Nat → Nat
  | 0, newSize => newSize
  | fuel + 1, newSize =>
    if minSize > newSize then growL1Size minSize fuel ((newSize * 3 + 1) / 2) else newSize

def writeL1Table (offset size : Nat) (entries : Nat → Option L1Entry) : Image :=
  { img with
    l1Disk := Function.update img.l1Disk offset
      fun i => if i < size then entries i else img.l1Disk offset i }

/-- `qcow2_grow_l1_table`. -/
def growL1Table (minSize : Nat) (exactSize : Bool) : Option Image :=
  if minSize ≤ img.l1Size then some img
  else
    let newSize :=
      if exactSize then minSize
      else growL1Size minSize minSize (if img.l1Size = 0 then 1 else img.l1Size)
    if newSize > maxL1Size then none
    else do
      let newTable := fun i => if i < img.l1Size then img.l1Table i else none
      let (offset, next) ← img.allocClusters (img.l1Clusters newSize)
      let next := { next.writeL1Table offset newSize newTable with
        l1TableOffset := offset
        l1Table := newTable
        l1Size := newSize }
      some (next.freeClusters img.l1TableOffset (img.l1Clusters img.l1Size))

/-- `qcow2_write_l1_entry` writes the sector of the entry. -/
def writeL1Entry (l1Index : Nat) : Image :=
  let disk := img.l1Disk img.l1TableOffset
  { img with
    l1Disk := Function.update img.l1Disk img.l1TableOffset
      fun i => if i / 64 = l1Index / 64 then img.l1Table i else disk i }

/-- `l2_allocate`: a new L2 table with what the old one holds. -/
def l2Allocate (l1Index : Nat) : Option (Nat × Image) := do
  let (table, next) ← img.allocClusters 1
  let content :=
    match img.l1Table l1Index with
    | none => fun _ => .unallocated
    | some old => next.l2Tables old.table
  let next := { next with
    l2Tables := Function.update next.l2Tables table content
    l1Table := Function.update next.l1Table l1Index (some ⟨table, true⟩) }
  some (table, next.writeL1Entry l1Index)

def loadL2Table (l1Index : Nat) : Option (Nat × Image) :=
  match img.l1Table l1Index with
  | some ⟨table, true⟩ => some (table, img)
  | some ⟨old, false⟩ => do
    let (table, next) ← img.l2Allocate l1Index
    some (table, next.freeClusters old 1)
  | none => img.l2Allocate l1Index

/-- `get_cluster_table`: the L2 table for a guest offset. -/
def getClusterTable : Option (Nat × Image) := do
  let l1Index := img.offsetToL1Index offset
  let grown ← (if l1Index < img.l1Size then some img else img.growL1Table (l1Index + 1) false)
  if l1Index < grown.l1Size then grown.loadL2Table l1Index else none
end

def setL2Entry (table index : Nat) (entry : L2Entry) : Image :=
  { img with
    l2Tables :=
      Function.update img.l2Tables table (Function.update (img.l2Tables table) index entry) }

/-- `count_contiguous_clusters` from an entry that points at `cluster` and is copied. -/
def countContiguousClusters (table : Nat) : Nat → Nat → Nat → Nat
  | 0, _, _ => 0
  | n + 1, index, cluster =>
    if img.l2Tables table index = .normal cluster true then
      countContiguousClusters table n (index + 1) (cluster + 1) + 1
    else 0

def countCowClusters (table : Nat) : Nat → Nat → Nat
  | 0, _ => 0
  | n + 1, index =>
    match img.l2Tables table index with
    | .normal _ true => 0
    | _ => countCowClusters table n (index + 1) + 1

def requestClusters (guestOffset bytes : Nat) : Nat :=
  min (img.sizeToClusters (img.offsetIntoCluster guestOffset + bytes))
    (img.l2Size - img.offsetToL2Index guestOffset)

/-- `handle_copied`: the return value, `*host_offset` and `*bytes`. -/
def handleCopied (guestOffset hostOffset bytes : Nat) : Option (Bool × Nat × Nat × Image) :=
  if hostOffset ≠ 0 ∧ img.offsetIntoCluster guestOffset ≠ img.offsetIntoCluster hostOffset then none
  else do
    let index := img.offsetToL2Index guestOffset
    let (table, next) ← img.getClusterTable guestOffset
    match next.l2Tables table index with
    | .normal cluster true =>
      if hostOffset ≠ 0 ∧ cluster * img.clusterSize ≠ hostOffset then
        some (false, hostOffset, 0, next)
      else
        let keep := next.countContiguousClusters table (img.requestClusters guestOffset bytes)
          index cluster
        some (true, cluster * img.clusterSize + img.offsetIntoCluster guestOffset,
          min bytes (keep * img.clusterSize - img.offsetIntoCluster guestOffset), next)
    | _ => some (false, hostOffset, bytes, next)

/-- `do_alloc_cluster_offset`: the first of the clusters and their number. -/
def doAllocClusterOffset (hostOffset nbClusters : Nat) : Option (Nat × Nat × Image) :=
  if hostOffset = 0 then do
    let (cluster, next) ← img.allocClusters nbClusters
    some (cluster, nbClusters, next)
  else do
    let (n, next) ← img.allocClustersAt (hostOffset / img.clusterSize) nbClusters
    some (hostOffset / img.clusterSize, n, next)

/-- The clusters that `handle_alloc` asks for. -/
def allocatingClusters (table index nbClusters : Nat) : Nat :=
  match img.l2Tables table index with
  | .compressed _ _ => 1
  | _ => img.countCowClusters table nbClusters index

/-- `handle_alloc`: `*host_offset`, `*bytes` and the allocation, or none that fits. -/
def handleAlloc (guestOffset hostOffset bytes : Nat) :
    Option (Option (Nat × Nat × QCowL2Meta) × Image) := do
  let into := img.offsetIntoCluster guestOffset
  let (table, next) ← img.getClusterTable guestOffset
  let wanted := next.allocatingClusters table (img.offsetToL2Index guestOffset)
    (img.requestClusters guestOffset bytes)
  if wanted = 0 then none
  else
    let start := hostOffset / img.clusterSize * img.clusterSize
    let (cluster, nbClusters, next) ← next.doAllocClusterOffset start wanted
    if nbClusters = 0 then some (none, next)
    else
      let requestedSectors := (bytes + into) / 512
      let availSectors := nbClusters * (img.clusterSize / 512)
      let nbSectors := min requestedSectors availSectors
      let bytes := min bytes (nbSectors * 512 - into)
      if bytes = 0 then none
      else some (some (cluster * img.clusterSize + into, bytes,
        ⟨cluster, guestOffset / img.clusterSize * img.clusterSize, nbClusters⟩), next)

/-- The loop of `qcow2_alloc_cluster_offset`: the bytes that remain, `*host_offset` and the
allocations, the last one first. -/
def allocOffsetLoop : Nat → Nat → Nat → Nat → Nat → Nat → List QCowL2Meta → Image →
    Option (Nat × Nat × List QCowL2Meta × Image)
  | 0, _, _, _, _, _, _, _ => none
  | fuel + 1, start, remaining, clusterOffset, curBytes, hostOffset, m, img =>
    let hostOffset :=
      if hostOffset = 0 then clusterOffset / img.clusterSize * img.clusterSize else hostOffset
    if remaining < curBytes then none
    else
      let start := start + curBytes
      let remaining := remaining - curBytes
      let clusterOffset := clusterOffset + curBytes
      if remaining = 0 then some (remaining, hostOffset, m, img)
      else do
        let (copied, clusterOffset, curBytes, img) ← img.handleCopied start clusterOffset remaining
        if copied then
          allocOffsetLoop fuel start remaining clusterOffset curBytes hostOffset m img
        else if curBytes = 0 then some (remaining, hostOffset, m, img)
        else do
          let (alloc, img) ← img.handleAlloc start clusterOffset curBytes
          match alloc with
          | some (clusterOffset, curBytes, new) =>
            allocOffsetLoop fuel start remaining clusterOffset curBytes hostOffset (new :: m) img
          | none => some (remaining, hostOffset, m, img)

/-- `qcow2_alloc_cluster_offset`: `*num`, `*host_offset`, the allocations. -/
def allocClusterOffset (offset num : Nat) : Option (Nat × Nat × List QCowL2Meta × Image) :=
  if offset % 512 ≠ 0 then none
  else do
    let (remaining, hostOffset, m, next) ←
      allocOffsetLoop (num * 512 + 1) offset (num * 512) 0 0 0 [] img
    let num := num - remaining / 512
    if num = 0 ∨ hostOffset = 0 then none else some (num, hostOffset, m, next)

def linkEntries (table : Nat) : Nat → Nat → Nat → Image → List L2Entry × Image
  | 0, _, _, img => ([], img)
  | n + 1, index, cluster, img =>
    let (old, next) := linkEntries table n (index + 1) (cluster + 1)
      (img.setL2Entry table index (.normal cluster true))
    (img.l2Tables table index :: old, next)

/-- `qcow2_alloc_cluster_link_l2`. -/
def allocClusterLinkL2 (m : QCowL2Meta) : Option Image :=
  if m.nbClusters = 0 then none
  else do
    let index := img.offsetToL2Index m.offset
    let (table, next) ← img.getClusterTable m.offset
    if img.l2Size < index + m.nbClusters then none
    else
      let (old, next) := linkEntries table m.nbClusters index m.allocOffset next
      -- an entry that was zero is not collected: it is unallocated and frees nothing
      some (old.foldl freeAnyClusters next)

/-- One round of an uncompressed write: the allocation, then the links. -/
def write (offset num : Nat) : Option Image := do
  let (_, _, m, next) ← img.allocClusterOffset offset num
  m.foldlM allocClusterLinkL2 next

def zeroLoop (table : Nat) : Nat → Nat → Image → Image
  | 0, _, img => img
  | n + 1, index, img =>
    match img.l2Tables table index with
    | .compressed offset sectors =>
      zeroLoop table n (index + 1)
        ((img.setL2Entry table index .zeroPlain).freeAnyClusters (.compressed offset sectors))
    | old => zeroLoop table n (index + 1) (img.setL2Entry table index old.setZero)

/-- The discard leaves the entry as it is: it has `QCOW_OFLAG_ZERO`, or it has no offset and there
is no backing file. Both are tests of bits, of compressed entries as well. -/
def discardSkips : L2Entry → Bool
  | .zeroPlain | .zeroAlloc _ _ => true
  | .unallocated => !img.hasBackingFile
  | .normal _ _ => false
  | .compressed offset sectors =>
    let bits := offset + (sectors - 1) * 2 ^ (70 - img.clusterBits)
    decide (offset % 2 = 1) || (decide (bits / 512 % 2 ^ 47 = 0) && !img.hasBackingFile)

def discardLoop (table : Nat) : Nat → Nat → Image → Image
  | 0, _, img => img
  | n + 1, index, img =>
    let old := img.l2Tables table index
    if img.discardSkips old then discardLoop table n (index + 1) img
    else
      let entry := if img.qcowVersion ≥ 3 then .zeroPlain else .unallocated
      discardLoop table n (index + 1) ((img.setL2Entry table index entry).freeAnyClusters old)

/-- `zero_single_l2` and `discard_single_l2`: the loop over the entries in one L2 table. -/
def singleL2 (loop : Nat → Nat → Nat → Image → Image) (offset nbClusters : Nat) :
    Option (Nat × Image) := do
  let index := img.offsetToL2Index offset
  let (table, next) ← img.getClusterTable offset
  let n := min nbClusters (img.l2Size - index)
  some (n, loop table n index next)

/-- The loop over L2 tables in `qcow2_zero_clusters` and `qcow2_discard_clusters`. -/
def eachL2 (loop : Nat → Nat → Nat → Image → Image) : Nat → Nat → Nat → Image → Option Image
  | 0, _, _, _ => none
  | fuel + 1, offset, nbClusters, img =>
    if nbClusters = 0 then some img
    else do
      let (n, next) ← img.singleL2 loop offset nbClusters
      eachL2 loop fuel (offset + n * img.clusterSize) (nbClusters - n) next

/-- `qcow2_zero_clusters`. -/
def zeroClusters (offset nbSectors : Nat) : Option Image :=
  if img.qcowVersion < 3 then none
  else
    let nbClusters := img.sizeToClusters (nbSectors * 512)
    eachL2 zeroLoop (nbClusters + 1) offset nbClusters img

/-- `qcow2_discard_clusters`. The length in bytes is an `int` and wraps around. -/
def discardClusters (offset nbSectors : Nat) : Option Image :=
  let clusterSize : Int := img.clusterSize
  let length : Int := Int.bmod (nbSectors * 512) (2 ^ 32)
  let first : Int := (offset + (clusterSize - 1)) / clusterSize * clusterSize
  let last : Int := (offset + length) % 2 ^ 64 / clusterSize * clusterSize
  if first > last then some img
  else
    let size : Int := Int.bmod (last - first) (2 ^ 64)
    let nbClusters := ((size + (clusterSize - 1)) / clusterSize % 2 ^ 32).toNat
    eachL2 discardLoop (nbClusters + 1) first.toNat nbClusters img

end Image

end QemuVmi.Qcow2
