import Mathlib

/-!
# The stream of a block migration

`block-migration.c`. The sectors of a chunk are read into a buffer of `BLOCK_SIZE` bytes that comes
from `g_malloc`, and `blk_send` sends the whole buffer. The last chunk of a device may have fewer
sectors; the bytes behind them are those that the memory had before.

Result: `streams_equal_iff`.
-/

namespace QemuVmi.Migration

open List Function

/-- `BDRV_SECTORS_PER_DIRTY_CHUNK` -/
def chunkSectors : Nat := 2048

/-- `BLOCK_SIZE` -/
def blockSize : Nat := chunkSectors * 512

/-- What a migration does not change of a `BlkMigDevState`. -/
structure BlkMigDev where
  deviceName : List UInt8
  totalSectors : Nat
  sharedBase : Bool

/-- A `BlkMigBlock` whose `buf` is the allocation `alloc`, and what has been read into it. -/
structure BlkMigBlock where
  dev : Nat
  sector : Nat
  nrSectors : Nat
  alloc : Nat
  data : List UInt8

/-- The buffer, with what `g_malloc` finds in the memory. -/
def BlkMigBlock.buf (heap : Nat → Nat → UInt8) (blk : BlkMigBlock) : List UInt8 :=
  blk.data ++ (range' blk.data.length (blockSize - blk.data.length)).map (heap blk.alloc)

/-- `qemu_put_be64` -/
def be64 (x : Nat) : List UInt8 := (range 8).map fun i => UInt8.ofNat (x / 256 ^ (7 - i))

structure BlkMigState where
  curSector : Nat → Nat
  curDirty : Nat → Nat
  allocs : Nat
  submitted : List BlkMigBlock
  /-- `blk_list`. A block is missing if its read has failed. -/
  blkList : List (Option BlkMigBlock)
  sent : List BlkMigBlock

section
variable (devs : Nat → BlkMigDev) (s : BlkMigState)

/-- `blk_send` -/
def blkSend (zeroBlocks : Bool) (heap : Nat → Nat → UInt8) (blk : BlkMigBlock) : List UInt8 :=
  let zero := zeroBlocks && (blk.buf heap).all (· == 0)
  let name := (devs blk.dev).deviceName
  be64 (blk.sector * 512 ||| if zero then 0x09 else 0x01) ++ UInt8.ofNat name.length :: name ++
    if zero then [] else blk.buf heap

/-- The block for the chunk at a sector. -/
def newBlock (dev sector : Nat) : BlkMigBlock :=
  ⟨dev, sector, min chunkSectors ((devs dev).totalSectors - sector), s.allocs, []⟩

/-- The sectors of the block are read. -/
def BlkMigBlock.read (blk : BlkMigBlock) (contents : Nat → UInt8) : BlkMigBlock :=
  { blk with
    data := (range (blk.nrSectors * 512)).map fun i => contents (blk.sector * 512 + i) }

def submit (dev sector : Nat) : BlkMigState :=
  { s with allocs := s.allocs + 1, submitted := s.submitted ++ [newBlock devs s dev sector] }

/-- `mig_save_device_bulk`. With `shared_base`, `skipped` sectors are not allocated. -/
def migSaveDeviceBulk (dev skipped : Nat) : BlkMigState :=
  let total := (devs dev).totalSectors
  let cur := if (devs dev).sharedBase then s.curSector dev + skipped else s.curSector dev
  if cur ≥ total then { s with curSector := update s.curSector dev total }
  else
    let sector := cur / chunkSectors * chunkSectors
    { submit devs s dev sector with
      curSector := update s.curSector dev (sector + min chunkSectors (total - sector)) }

/-- The loop of `mig_save_device_dirty`: where it is left. -/
def nextDirty (total : Nat) (dirty : Nat → Bool) : Nat → Nat → Nat
  | 0, sector => sector
  | fuel + 1, sector =>
    if sector < total ∧ dirty sector = false then nextDirty total dirty fuel (sector + chunkSectors)
    else sector

/-- `mig_save_device_dirty`. If it is not asynchronous, it reads `contents`, or fails to read. -/
def migSaveDeviceDirty (dev : Nat) (dirty : Nat → Bool) (isAsync : Bool)
    (contents : Option (Nat → UInt8)) : BlkMigState :=
  let total := (devs dev).totalSectors
  let sector := nextDirty total dirty total (s.curDirty dev)
  let s := { s with curDirty := update s.curDirty dev sector }
  if sector < total then
    if isAsync then submit devs s dev sector
    else
      { s with
        allocs := s.allocs + 1
        sent := s.sent ++ (contents.map (newBlock devs s dev sector).read).toList }
  else s

/-- `blk_mig_read_cb` for the `k`-th block that was submitted. -/
def blkMigReadCb (k : Nat) (contents : Option (Nat → UInt8)) : BlkMigState :=
  match s.submitted[k]? with
  | none => s
  | some blk =>
    { s with
      submitted := s.submitted.eraseIdx k
      blkList := s.blkList ++ [contents.map blk.read] }

/-- `flush_blks`, until the rate limit is reached. -/
def flushBlks : Nat → BlkMigState → BlkMigState
  | 0, s => s
  | n + 1, s =>
    match s.blkList with
    | some blk :: blkList => flushBlks n { s with blkList := blkList, sent := s.sent ++ [blk] }
    | _ => s

inductive BlkMigEvent
  | bulk (dev skipped : Nat)
  | dirty (dev : Nat) (dirty : Nat → Bool) (isAsync : Bool) (contents : Option (Nat → UInt8))
  | resetDirtyCursor
  | readDone (k : Nat) (contents : Option (Nat → UInt8))
  | flush (n : Nat)

def blkMigStep : BlkMigEvent → BlkMigState
  | .bulk dev skipped => migSaveDeviceBulk devs s dev skipped
  | .dirty dev dirty isAsync contents => migSaveDeviceDirty devs s dev dirty isAsync contents
  | .resetDirtyCursor => { s with curDirty := fun _ => 0 }
  | .readDone k contents => blkMigReadCb s k contents
  | .flush n => flushBlks n s

def blkMigRun (events : List BlkMigEvent) : BlkMigState :=
  events.foldl (blkMigStep devs) ⟨fun _ => 0, fun _ => 0, 0, [], [], []⟩

/-- What has been sent, with what `g_malloc` finds in the memory. -/
def blkMigStream (zeroBlocks : Bool) (heap : Nat → Nat → UInt8) (sent : List BlkMigBlock) :
    List UInt8 := sent.flatMap (blkSend devs zeroBlocks heap)

/-- The sectors of the block have been read. -/
structure BlkMigBlock.Filled (blk : BlkMigBlock) : Prop where
  le : blk.nrSectors ≤ chunkSectors
  length : blk.data.length = blk.nrSectors * 512

structure BlkMigInv : Prop where
  submitted : ∀ blk ∈ s.submitted, blk.nrSectors ≤ chunkSectors
  done : ∀ blk, some blk ∈ s.blkList → blk.Filled
  sent : ∀ blk ∈ s.sent, blk.Filled
end

section
variable {devs : Nat → BlkMigDev} {s : BlkMigState}

lemma BlkMigBlock.filled_read {blk : BlkMigBlock} (h : blk.nrSectors ≤ chunkSectors)
    (contents : Nat → UInt8) : (blk.read contents).Filled :=
  ⟨h, by simp [BlkMigBlock.read]⟩

lemma BlkMigInv.submit (h : BlkMigInv s) (dev sector : Nat) :
    BlkMigInv (submit devs s dev sector) := by
  refine ⟨fun blk hblk => ?_, h.done, h.sent⟩
  rcases mem_append.mp hblk with hblk | hblk
  · exact h.submitted blk hblk
  · rw [mem_singleton.mp hblk]
    exact Nat.min_le_left _ _

lemma BlkMigInv.flush (h : BlkMigInv s) (n : Nat) : BlkMigInv (flushBlks n s) := by
  induction n generalizing s with
  | zero => exact h
  | succ n ih =>
    rw [flushBlks]
    split
    next blk blkList hlist =>
      refine ih ⟨h.submitted, fun x hx => h.done x (hlist ▸ mem_cons_of_mem _ hx),
        fun x hx => ?_⟩
      rcases mem_append.mp hx with hx | hx
      · exact h.sent x hx
      · exact mem_singleton.mp hx ▸ h.done blk (hlist ▸ mem_cons_self)
    · exact h

lemma BlkMigInv.step (h : BlkMigInv s) (event : BlkMigEvent) :
    BlkMigInv (blkMigStep devs s event) := by
  cases event with
  | bulk dev skipped =>
    rw [blkMigStep, migSaveDeviceBulk]
    dsimp only
    generalize (if (devs dev).sharedBase = true then _ else _) = cur
    split
    · exact ⟨h.submitted, h.done, h.sent⟩
    · have hnew := @BlkMigInv.submit devs s h dev (cur / chunkSectors * chunkSectors)
      exact ⟨hnew.submitted, hnew.done, hnew.sent⟩
  | dirty dev dirty isAsync contents =>
    rw [blkMigStep, migSaveDeviceDirty]
    generalize nextDirty _ _ _ _ = sector
    have hmoved : BlkMigInv { s with curDirty := update s.curDirty dev sector } :=
      ⟨h.submitted, h.done, h.sent⟩
    dsimp only
    split
    · split
      · exact hmoved.submit dev sector
      · refine ⟨h.submitted, h.done, fun blk hblk => ?_⟩
        rcases mem_append.mp hblk with hblk | hblk
        · exact h.sent blk hblk
        · obtain ⟨contents, -, rfl⟩ := Option.map_eq_some_iff.mp (Option.mem_toList.mp hblk)
          exact BlkMigBlock.filled_read (Nat.min_le_left _ _) contents
    · exact hmoved
  | resetDirtyCursor => exact ⟨h.submitted, h.done, h.sent⟩
  | readDone k contents =>
    rw [blkMigStep, blkMigReadCb]
    split
    · exact h
    next blk hk =>
      refine ⟨fun x hx => h.submitted x (mem_of_mem_eraseIdx hx), fun x hx => ?_, h.sent⟩
      rcases mem_append.mp hx with hx | hx
      · exact h.done x hx
      · obtain ⟨contents, -, rfl⟩ := Option.map_eq_some_iff.mp (mem_singleton.mp hx).symm
        exact BlkMigBlock.filled_read (h.submitted blk (mem_of_getElem? hk)) contents
  | flush n => exact h.flush n

lemma blkMigInv_run (events : List BlkMigEvent) : BlkMigInv (blkMigRun devs events) := by
  induction events using reverseRecOn with
  | nil => exact ⟨nofun, nofun, nofun⟩
  | append_singleton events event ih =>
    rw [blkMigRun, foldl_append]
    exact ih.step event

variable {zeroBlocks : Bool} {blk : BlkMigBlock}

lemma BlkMigBlock.Filled.blkSend_eq (h : blk.Filled) (hfull : blk.nrSectors = chunkSectors)
    (heap heap' : Nat → Nat → UInt8) :
    blkSend devs zeroBlocks heap blk = blkSend devs zeroBlocks heap' blk := by
  have hlength : blk.data.length = blockSize := h.length.trans (congrArg (· * 512) hfull)
  have hbuf (heap : Nat → Nat → UInt8) : blk.buf heap = blk.data := by
    rw [BlkMigBlock.buf, hlength, Nat.sub_self, range'_zero, map_nil, append_nil]
  rw [blkSend, blkSend, hbuf, hbuf]

/-- With other bytes than zero behind the sectors, the block is not taken for a block of zeroes. -/
lemma blkSend_of_lt (h : blk.data.length < blockSize) : ∃ header, ∀ c, c ≠ 0 →
    blkSend devs zeroBlocks (fun _ _ => c) blk =
      header ++ (blk.data ++ replicate (blockSize - blk.data.length) c) := by
  refine ⟨be64 (blk.sector * 512 ||| 0x01) ++ UInt8.ofNat (devs blk.dev).deviceName.length ::
    (devs blk.dev).deviceName, fun c hc => ?_⟩
  have hbuf : blk.buf (fun _ _ => c) =
      blk.data ++ replicate (blockSize - blk.data.length) c := by
    rw [BlkMigBlock.buf, map_const', length_range']
  have hzero : (blk.buf fun _ _ => c).all (· == 0) = false := by
    rw [hbuf, all_eq_false]
    exact ⟨c, mem_append_right _ (mem_replicate.mpr ⟨by omega, rfl⟩), by simpa using hc⟩
  simp only [blkSend, hzero, Bool.and_false, Bool.false_eq_true, if_false]
  rw [hbuf]

lemma full_of_stream_eq {sent : List BlkMigBlock} (hfilled : ∀ blk ∈ sent, blk.Filled)
    (h : blkMigStream devs zeroBlocks (fun _ _ => 1) sent =
      blkMigStream devs zeroBlocks (fun _ _ => 2) sent) :
    ∀ blk ∈ sent, blk.nrSectors = chunkSectors := by
  induction sent with
  | nil => exact nofun
  | cons blk sent ih =>
    have hblk := hfilled blk mem_cons_self
    simp only [blkMigStream, flatMap_cons] at h ih
    have hfull : blk.nrSectors = chunkSectors := by
      by_contra hne
      have hle := hblk.le
      have hlt : blk.data.length < blockSize :=
        hblk.length ▸ Nat.mul_lt_mul_of_pos_right (Nat.lt_of_le_of_ne hle hne) (by decide)
      obtain ⟨header, hsend⟩ := @blkSend_of_lt devs zeroBlocks blk hlt
      simp only [hsend 1 (by decide), hsend 2 (by decide), append_assoc, append_cancel_left_eq] at h
      have htail := (append_inj h (by simp only [length_replicate])).1
      exact absurd (replicate_inj.mp htail).2 (by simp; omega)
    rw [hblk.blkSend_eq hfull (fun _ _ => 1) fun _ _ => 2, append_cancel_left_eq] at h
    exact forall_mem_cons.mpr
      ⟨hfull, ih (fun x hx => hfilled x (mem_cons_of_mem _ hx)) h⟩
end

theorem streams_equal_iff (devs : Nat → BlkMigDev) (zeroBlocks : Bool) (events : List BlkMigEvent) :
    (∀ heap heap', blkMigStream devs zeroBlocks heap (blkMigRun devs events).sent =
      blkMigStream devs zeroBlocks heap' (blkMigRun devs events).sent) ↔
    ∀ blk ∈ (blkMigRun devs events).sent, blk.nrSectors = chunkSectors := by
  have hfilled := (@blkMigInv_run devs events).sent
  refine ⟨fun h => full_of_stream_eq hfilled (h _ _), fun h heap heap' => ?_⟩
  rw [blkMigStream, blkMigStream, flatMap_def, flatMap_def]
  exact congrArg flatten
    (map_congr_left fun blk hblk => (hfilled blk hblk).blkSend_eq (h blk hblk) heap heap')

/-- The only chunk of a device of one sector. -/
theorem stream_depends_on_heap : ∃ heap heap',
    blkMigStream (fun _ => ⟨[], 1, false⟩) true heap (blkMigRun (fun _ => ⟨[], 1, false⟩)
      [.bulk 0 0, .readDone 0 (some fun _ => 7), .flush 1]).sent ≠
    blkMigStream (fun _ => ⟨[], 1, false⟩) true heap' (blkMigRun (fun _ => ⟨[], 1, false⟩)
      [.bulk 0 0, .readDone 0 (some fun _ => 7), .flush 1]).sent := by
  refine ⟨fun _ _ => 1, fun _ _ => 2, fun h => ?_⟩
  have hfull := full_of_stream_eq (blkMigInv_run _).sent h _ mem_cons_self
  exact absurd hfull (by decide)

end QemuVmi.Migration
