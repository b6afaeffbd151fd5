import Mathlib

/-!
# Reference counts of a qcow2 image

The metadata of a qcow2 image and `block/qcow2-refcount.c`: `get_refcount`, `update_refcount`
with the refcount blocks that it allocates, the allocation and the freeing of clusters.

A cluster stands for its offset in the image file. The entries of L1 and L2 tables stand with
their fields: a cluster and `QCOW_OFLAG_COPIED`. The tables of the image are read by the cluster
at which they begin. All calls are without I/O errors; growing the refcount table is `fail`.
-/

namespace QemuVmi.Qcow2

structure L1Entry where
  table : Nat
  copied : Bool
deriving DecidableEq, Repr

/-- An entry of an L2 table. A `zeroPlain` cluster has no offset, a `zeroAlloc` cluster has one;
a compressed cluster is `sectors` sectors from the one that holds the byte `offset`. -/
inductive L2Entry
  | unallocated
  | zeroPlain
  | normal (cluster : Nat) (copied : Bool)
  | zeroAlloc (cluster : Nat) (copied : Bool)
  | compressed (offset sectors : Nat)
deriving DecidableEq, Repr

structure Snapshot where
  l1TableOffset : Nat
  l1Size : Nat
  idStr : List UInt8
  name : List UInt8
  diskSize : Nat
  vmStateSize : Nat
deriving DecidableEq, Repr

structure Image where
  clusterBits : Nat
  qcowVersion : Nat
  hasBackingFile : Bool
  diskSize : Nat
  l1VmStateIndex : Nat
  refcountTableOffset : Nat
  /-- The clusters of the refcount blocks, 0 where there is none. -/
  refcountTable : List Nat
  refcounts : Nat → UInt16
  freeClusterIndex : Nat
  l1TableOffset : Nat
  l1Size : Nat
  l1Table : Nat → Option L1Entry
  l1Disk : Nat → Nat → Option L1Entry
  l2Tables : Nat → Nat → L2Entry
  snapshotsOffset : Nat
  snapshotsSize : Nat
  snapshots : List Snapshot

namespace Image

variable (img : Image)

def clusterSize : Nat := 2 ^ img.clusterBits

def l2Size : Nat := 2 ^ (img.clusterBits - 3)

def refcountBlockSize : Nat := 2 ^ (img.clusterBits - 1)

def sizeToClusters (size : Nat) : Nat := (size + (img.clusterSize - 1)) / img.clusterSize

/-- The clusters of an L1 table with `size` entries. -/
def l1Clusters (size : Nat) : Nat := img.sizeToClusters (size * 8)

def hasBlock (cluster : Nat) : Bool :=
  img.refcountTable.getD (cluster / img.refcountBlockSize) 0 != 0

def getRefcount (cluster : Nat) : Nat :=
  if img.hasBlock cluster then (img.refcounts cluster).toNat else 0

def setRefcount (cluster : Nat) (addend : Int) : Option Image :=
  let refcount : Int := (img.refcounts cluster).toNat + addend
  if refcount < 0 ∨ refcount > 0xffff then none
  else
    some { img with
      freeClusterIndex :=
        if refcount = 0 ∧ cluster < img.freeClusterIndex then cluster else img.freeClusterIndex
      refcounts := Function.update img.refcounts cluster (UInt16.ofNat refcount.toNat) }

/-- What `update_refcount` and `alloc_refcount_block` return: 0, `-EAGAIN` or another error. -/
inductive Res
  | ok (img : Image)
  | again (img : Image)
  | fail (img : Image)

def Res.image : Res → Image
  | ok img => img
  | again img => img
  | fail img => img

/-- The loop of `update_refcount` over `n` clusters, with the cluster at which it leaves. -/
def updateLoop (allocBlock : Nat → Image → Res) (addend : Int) : Nat → Nat → Image → Res × Nat
  | 0, cluster, img => (.ok img, cluster)
  | n + 1, cluster, img =>
    match allocBlock cluster img with
    | .ok img =>
      match img.setRefcount cluster addend with
      | some img => updateLoop allocBlock addend n (cluster + 1) img
      | none => (.fail img, cluster)
    | .again img => (.again img, cluster)
    | .fail img => (.fail img, cluster)

/-- `update_refcount`, with the function that loads or allocates a refcount block. -/
def updateRefcountWith (allocBlock : Nat → Image → Res) (start n : Nat) (addend : Int)
    (img : Image) : Res :=
  let undo (img : Image) (stop : Nat) : Image :=
    (updateLoop allocBlock (-addend) (stop - start) start img).1.image
  match updateLoop allocBlock addend n start img with
  | (.ok img, _) => .ok img
  | (.again img, stop) => .again (undo img stop)
  | (.fail img, stop) => .fail (undo img stop)

/-- The search of `alloc_clusters_noref`: `i` clusters in front of `next` are free. -/
def norefLoop (nbClusters : Nat) : Nat → Nat → Nat → Option Nat
  | 0, _, _ => none
  | fuel + 1, i, next =>
    if i = nbClusters then some next
    else if img.getRefcount next = 0 then norefLoop nbClusters fuel (i + 1) (next + 1)
    else norefLoop nbClusters fuel 0 (next + 1)

def allocClustersNoref (nbClusters : Nat) : Option (Nat × Image) := do
  let next ← img.norefLoop nbClusters
    (img.refcountBlockSize * img.refcountTable.length + nbClusters + 1) 0 img.freeClusterIndex
  some (next - nbClusters, { img with freeClusterIndex := next })

def hookBlock (index block : Nat) : Image :=
  { img with
    refcounts := fun c => if c / img.refcountBlockSize = index then 0 else img.refcounts c
    refcountTable := img.refcountTable.set index block }

/-- `alloc_refcount_block`. A block that does not describe itself is described by a block that
may have to be allocated in turn. -/
def allocRefcountBlock : Nat → Nat → Image → Res
  | fuel, cluster, img =>
    if img.hasBlock cluster then .ok img
    else
      let index := cluster / img.refcountBlockSize
      match fuel, img.allocClustersNoref 1 with
      | fuel + 1, some (newBlock, img) =>
        -- the refcount table would have to grow
        if img.refcountTable.length ≤ index then .fail img
        else if newBlock / img.refcountBlockSize = index then
          let img := img.hookBlock index newBlock
          .again { img with refcounts := Function.update img.refcounts newBlock 1 }
        else
          match updateRefcountWith (allocRefcountBlock fuel) newBlock 1 1 img with
          | .ok img => .again (img.hookBlock index newBlock)
          | res => res
      | _, _ => .fail img

/-- The recursion of `alloc_refcount_block` is at most two calls deep. -/
def blockFuel : Nat := 4

def updateRefcount (start n : Nat) (addend : Int) (img : Image) : Res :=
  updateRefcountWith (allocRefcountBlock blockFuel) start n addend img

def allocClustersLoop (nbClusters : Nat) : Nat → Image → Option (Nat × Image)
  | 0, _ => none
  | fuel + 1, img => do
    let (offset, img) ← img.allocClustersNoref nbClusters
    match updateRefcount offset nbClusters 1 img with
    | .ok img => some (offset, img)
    | .again img => allocClustersLoop nbClusters fuel img
    | .fail _ => none

/-- `qcow2_alloc_clusters`. The search starts again after each refcount block that is allocated. -/
def allocClusters (nbClusters : Nat) : Option (Nat × Image) :=
  allocClustersLoop nbClusters (img.refcountTable.length + 1) img

/-- The number of free clusters from `cluster` on, at most `n`. -/
def countFree : Nat → Nat → Nat
  | 0, _ => 0
  | n + 1, cluster => if img.getRefcount cluster = 0 then countFree n (cluster + 1) + 1 else 0

def allocClustersAtLoop (cluster nbClusters : Nat) : Nat → Image → Option (Nat × Image)
  | 0, _ => none
  | fuel + 1, img =>
    let i := img.countFree nbClusters cluster
    match updateRefcount cluster i 1 img with
    | .ok img => some (i, img)
    | .again img => allocClustersAtLoop cluster nbClusters fuel img
    | .fail _ => none

/-- `qcow2_alloc_clusters_at`: the number of clusters that could be allocated at `cluster`. -/
def allocClustersAt (cluster nbClusters : Nat) : Option (Nat × Image) :=
  if nbClusters = 0 then some (0, img)
  else allocClustersAtLoop cluster nbClusters (img.refcountTable.length + 1) img

/-- `qcow2_free_clusters`, which reports an error and goes on. -/
def freeClusters (start n : Nat) : Image :=
  (updateRefcount start n (-1) img).image

def compressedRange (offset sectors : Nat) : Nat × Nat :=
  let first := offset / 512 * 512
  let start := first / img.clusterSize
  (start, if sectors = 0 then 0 else (first + sectors * 512 - 1) / img.clusterSize - start + 1)

/-- `qcow2_free_any_clusters`, of one cluster. -/
def freeAnyClusters : L2Entry → Image
  | .compressed offset sectors =>
    img.freeClusters (img.compressedRange offset sectors).1 (img.compressedRange offset sectors).2
  | .normal cluster _ | .zeroAlloc cluster _ => img.freeClusters cluster 1
  | .zeroPlain | .unallocated => img

end Image

end QemuVmi.Qcow2
