import QemuVmi.Qcow2.Cluster

/-!
# Internal snapshots of a qcow2 image

`block/qcow2-snapshot.c` and `qcow2_update_snapshot_refcount`: a snapshot has a copy of the L1
table, and each cluster that the table reaches is counted once more. `Request` is the requests
that change the metadata, `serve` what they do.
-/

namespace QemuVmi.Qcow2

/-- `QCOW_MAX_SNAPSHOTS`. -/
def maxSnapshots : Nat := 65536

/-- `QCOW_MAX_SNAPSHOTS_SIZE`. -/
def maxSnapshotsSize : Nat := 1024 * maxSnapshots

namespace Image

variable (img : Image)

/-- `qcow2_update_cluster_refcount`, or `get_refcount` if the addend is 0. -/
def updateClusterRefcount (cluster : Nat) (addend : Int) : Option (Nat × Image) :=
  if addend = 0 then some (img.getRefcount cluster, img)
  else
    match updateRefcount cluster 1 addend img with
    | .ok next => some (next.getRefcount cluster, next)
    | _ => none

/-- What `qcow2_update_snapshot_refcount` does to the entry of an L2 table. -/
def updateL2Entry (addend : Int) (table : Nat) (img : Image) (j : Nat) : Option Image :=
  match img.l2Tables table j with
  | .compressed offset sectors =>
    -- compressed clusters are never modified
    if addend = 0 then some img
    else
      let (start, n) := img.compressedRange offset sectors
      match updateRefcount start n addend img with
      | .ok next => some next
      | _ => none
  | .normal cluster _ => do
    let (refcount, next) ← img.updateClusterRefcount cluster addend
    some (next.setL2Entry table j (.normal cluster (decide (refcount = 1))))
  | .zeroAlloc cluster _ => do
    let (refcount, next) ← img.updateClusterRefcount cluster addend
    some (next.setL2Entry table j (.zeroAlloc cluster (decide (refcount = 1))))
  | .zeroPlain | .unallocated => some img

structure L1Copy where
  entries : Nat → Option L1Entry
  modified : Bool

/-- What `qcow2_update_snapshot_refcount` does to the entry of an L1 table. -/
def updateL1Entry (addend : Int) : L1Copy × Image → Nat → Option (L1Copy × Image)
  | (l1, img), i =>
    match l1.entries i with
    | none => some (l1, img)
    | some old => do
      let next ← (List.range img.l2Size).foldlM (updateL2Entry addend old.table) img
      let (refcount, next) ← next.updateClusterRefcount old.table addend
      let new : L1Entry := ⟨old.table, decide (refcount = 1)⟩
      some (⟨Function.update l1.entries i (some new), l1.modified || decide (new ≠ old)⟩, next)

def writeL1Copy (l1TableOffset l1Size : Nat) (addend : Int) (l1 : L1Copy) : Image :=
  if addend ≥ 0 ∧ l1.modified = true then img.writeL1Table l1TableOffset l1Size l1.entries else img

/-- `qcow2_update_snapshot_refcount`. The current L1 table is used as it is in memory. -/
def updateSnapshotRefcount (l1TableOffset l1Size : Nat) (addend : Int) : Option Image :=
  if l1TableOffset = img.l1TableOffset then
    if l1Size ≠ img.l1Size then none
    else do
      let (l1, next) ← (List.range l1Size).foldlM (updateL1Entry addend) (⟨img.l1Table, false⟩, img)
      some ({ next with l1Table := l1.entries }.writeL1Copy l1TableOffset l1Size addend l1)
  else do
    let (l1, next) ← (List.range l1Size).foldlM (updateL1Entry addend)
      (⟨img.l1Disk l1TableOffset, false⟩, img)
    some (next.writeL1Copy l1TableOffset l1Size addend l1)

/-- The end of the entry of a snapshot in the snapshot table: a header of 40 bytes, 16 bytes of
extra data and the strings. -/
def snapshotEnd (offset : Nat) (sn : Snapshot) : Option Nat :=
  let stop := (offset + 7) / 8 * 8 + 40 + 16 + sn.idStr.length + sn.name.length
  if stop > maxSnapshotsSize then none else some stop

/-- `qcow2_write_snapshots`. -/
def writeSnapshots : Option Image := do
  let size ← img.snapshots.foldlM snapshotEnd 0
  let (offset, next) ← img.allocClusters (img.sizeToClusters size)
  let next := { next with snapshotsOffset := offset, snapshotsSize := size }
  some (next.freeClusters img.snapshotsOffset (img.sizeToClusters img.snapshotsSize))

def findSnapshotByIdAndName (id name : Option (List UInt8)) : Option Nat :=
  match id, name with
  | some id, some name => img.snapshots.findIdx? fun sn => sn.idStr = id ∧ sn.name = name
  | some id, none => img.snapshots.findIdx? fun sn => sn.idStr = id
  | none, some name => img.snapshots.findIdx? fun sn => sn.name = name
  | none, none => none

def findSnapshotByIdOrName (idOrName : List UInt8) : Option Nat :=
  (img.findSnapshotByIdAndName (some idOrName) none).or
    (img.findSnapshotByIdAndName none (some idOrName))

/-- `qcow2_snapshot_create`, with the id that was passed or constructed. -/
def snapshotCreate (id name : List UInt8) (vmStateSize : Nat) : Option Image :=
  if img.snapshots.length ≥ maxSnapshots ∨ (img.findSnapshotByIdAndName (some id) none).isSome then
    none
  else do
    let (offset, next) ← img.allocClusters (img.l1Clusters img.l1Size)
    let sn : Snapshot := ⟨offset, img.l1Size, id, name, img.diskSize, vmStateSize⟩
    let next := next.writeL1Table offset next.l1Size next.l1Table
    let next ← next.updateSnapshotRefcount next.l1TableOffset next.l1Size 1
    let next := { next with snapshots := next.snapshots ++ [sn] }
    let next ← next.writeSnapshots
    let alignedSize := (vmStateSize + (img.clusterSize - 1)) / img.clusterSize * img.clusterSize
    -- the VM state isn't needed any more in the active L1 table
    next.discardClusters (img.l1VmStateIndex * (img.l2Size * img.clusterSize)) (alignedSize / 512)

/-- `qcow2_snapshot_goto`. -/
def snapshotGoto (id : List UInt8) : Option Image := do
  let index ← img.findSnapshotByIdOrName id
  let sn ← img.snapshots[index]?
  if sn.diskSize ≠ img.diskSize then none
  else
    let next ← img.growL1Table sn.l1Size true
    let disk := next.l1Disk sn.l1TableOffset
    let snL1 := fun i => if i < sn.l1Size then disk i else none
    let next ← next.updateSnapshotRefcount sn.l1TableOffset sn.l1Size 1
    let next := next.writeL1Table next.l1TableOffset next.l1Size snL1
    -- the current L1 table in memory is still the old one
    let next ← next.updateSnapshotRefcount next.l1TableOffset next.l1Size (-1)
    let next := { next with l1Table := snL1 }
    next.updateSnapshotRefcount next.l1TableOffset next.l1Size 0

/-- `qcow2_snapshot_delete`. -/
def snapshotDelete (id name : Option (List UInt8)) : Option Image := do
  let index ← img.findSnapshotByIdAndName id name
  let sn ← img.snapshots[index]?
  let next := { img with snapshots := img.snapshots.eraseIdx index }
  let next ← next.writeSnapshots
  let next ← next.updateSnapshotRefcount sn.l1TableOffset sn.l1Size (-1)
  let next := next.freeClusters sn.l1TableOffset (next.l1Clusters sn.l1Size)
  next.updateSnapshotRefcount next.l1TableOffset next.l1Size 0

end Image

inductive Request
  | write (offset num : Nat)
  | zeroClusters (offset nbSectors : Nat)
  | snapshotCreate (id name : List UInt8) (vmStateSize : Nat)
  | snapshotGoto (id : List UInt8)
  | snapshotDelete (id name : Option (List UInt8))
deriving DecidableEq, Repr

def Image.serve (img : Image) : Request → Option Image
  | .write offset num => img.write offset num
  | .zeroClusters offset nbSectors => img.zeroClusters offset nbSectors
  | .snapshotCreate id name vmStateSize => img.snapshotCreate id name vmStateSize
  | .snapshotGoto id => img.snapshotGoto id
  | .snapshotDelete id name => img.snapshotDelete id name

end QemuVmi.Qcow2
