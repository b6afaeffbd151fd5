import QemuVmi.Qcow2.AllocationCounts

/-!
# The snapshot list in memory and in the file

`qcow2_write_snapshots` can fail at many points. `qcow2_snapshot_create` then puts the old list back,
`qcow2_snapshot_delete` does not: the snapshot is gone from the list in memory and still in the
table of the file.

Results:
1. `readSnapshots_congr`: the table of the file depends only on its own bytes.
2. `readLoop_tableWrites`: what the writer puts into the file is read back.
3. `failed_call_keeps_list_iff`: a call that fails before the header is updated leaves the list as
   it was, and equal to the table, unless it is the deletion of a snapshot that exists.
4. `writeSnapshots_synced`: a list that is written without an error is the table of the file.
-/

namespace QemuVmi.Qcow2

open List Nat

/-- `QCowSnapshot`. The sizes of the strings fit into the fields of the table. -/
structure SnapshotEntry where
  l1TableOffset : Nat
  l1Size : Nat
  idStr : List UInt8
  name : List UInt8
  diskSize : Nat
  vmStateSize : Nat
  dateSec : Nat
  dateNsec : Nat
  vmClockNsec : Nat
  idStr_length : idStr.length ≤ 0xffff
  name_length : name.length ≤ 0xffff
deriving DecidableEq

/-- What `qcow2_snapshot_create` gets from its caller, with the id that was passed or
constructed. -/
structure SnapshotInfo where
  idStr : List UInt8
  name : List UInt8
  vmStateSize : Nat
  dateSec : Nat
  dateNsec : Nat
  vmClockNsec : Nat
  idStr_length : idStr.length ≤ 0xffff
  name_length : name.length ≤ 0xffff

/-- The snapshot list, the bytes of the file and the two fields of its header. `results` are the
return values of the requests to the file, of the overlap checks and of
`qcow2_update_snapshot_refcount`, and `offsets` those of `qcow2_alloc_clusters` for a size. -/
structure SnapshotList where
  snapshots : List SnapshotEntry
  snapshotsOffset : Nat
  snapshotsSize : Nat
  totalSectors : Nat
  l1Table : List Nat
  file : Nat → UInt8
  headerNb : Nat
  headerOffset : Nat
  results : Nat → Int
  done : Nat
  offsets : Nat → Nat → Int
  allocated : Nat

def efbig : Int := 27
def eexist : Int := 17
def enoent : Int := 2

def alignOffset8 (offset : Nat) : Nat := (offset + 7) / 8 * 8

/-- The `n` bytes of a big-endian word. -/
def beBytes (n v : Nat) : List UInt8 :=
  (range n).map fun i => UInt8.ofNat (v >>> (8 * (n - 1 - i)))

section
variable (file : Nat → UInt8)

def readBe (offset n : Nat) : Nat :=
  (range n).foldl (fun v i => v * 256 + (file (offset + i)).toNat) 0

def readBytes (offset n : Nat) : List UInt8 :=
  (range n).map fun i => file (offset + i)

def readString (offset : Nat) (size : UInt16) : List UInt8 :=
  (readBytes file offset size.toNat).takeWhile fun b => b != 0

lemma readString_length (offset : Nat) (size : UInt16) :
    (readString file offset size).length ≤ 0xffff := by
  have hle := (takeWhile_sublist (l := readBytes file offset size.toNat) fun b => b != 0).length_le
  have hsize := size.toNat_lt
  simp only [readBytes, length_map, length_range] at hle
  rw [readString, readBytes]
  omega

/-- One snapshot of the table in `qcow2_read_snapshots`, and the offset behind it. -/
def readEntry (totalSectors offset : Nat) : SnapshotEntry × Nat :=
  let h := alignOffset8 offset
  let idStrSize := UInt16.ofNat (readBe file (h + 12) 2)
  let nameSize := UInt16.ofNat (readBe file (h + 14) 2)
  let extraDataSize := readBe file (h + 36) 4
  let strings := h + 40 + extraDataSize
  ({  l1TableOffset := readBe file h 8
      l1Size := readBe file (h + 8) 4
      idStr := readString file strings idStrSize
      name := readString file (strings + idStrSize.toNat) nameSize
      diskSize := if extraDataSize ≥ 16 then readBe file (h + 48) 8 else totalSectors * 512
      vmStateSize := if extraDataSize ≥ 8 then readBe file (h + 40) 8 else readBe file (h + 32) 4
      dateSec := readBe file (h + 16) 4
      dateNsec := readBe file (h + 20) 4
      vmClockNsec := readBe file (h + 24) 8
      idStr_length := readString_length ..
      name_length := readString_length .. }, strings + idStrSize.toNat + nameSize.toNat)

/-- The loop of `qcow2_read_snapshots` over the table that begins at `start`. -/
def readLoop (file : Nat → UInt8) (totalSectors start : Nat) : Nat → Nat →
    Option (List SnapshotEntry × Nat)
  | 0, offset => some ([], offset)
  | n + 1, offset =>
    let (sn, next) := readEntry file totalSectors offset
    if next - start > maxSnapshotsSize then none
    else (readLoop file totalSectors start n next).map fun r => (sn :: r.1, r.2)

/-- `qcow2_read_snapshots`: the list and `snapshots_size`. -/
def readSnapshots (totalSectors nb offset : Nat) :
    Option (List SnapshotEntry × Nat) :=
  (readLoop file totalSectors offset nb offset).map fun r => (r.1, r.2 - offset)
end

/-- The writes of `qcow2_write_snapshots` for one snapshot. -/
def entryWrites (offset : Nat) (sn : SnapshotEntry) : List (Nat × List UInt8) :=
  let h := alignOffset8 offset
  [(h, beBytes 8 sn.l1TableOffset ++ beBytes 4 sn.l1Size ++ beBytes 2 sn.idStr.length ++
      beBytes 2 sn.name.length ++ beBytes 4 sn.dateSec ++ beBytes 4 sn.dateNsec ++
      beBytes 8 sn.vmClockNsec ++
      -- if it doesn't fit in 32 bit, older implementations should treat it as a disk-only snapshot
      beBytes 4 (if sn.vmStateSize ≤ 0xffffffff then sn.vmStateSize else 0) ++ beBytes 4 16),
    (h + 40, beBytes 8 sn.vmStateSize ++ beBytes 8 sn.diskSize),
    (h + 56, sn.idStr),
    (h + 56 + sn.idStr.length, sn.name)]

def entryEnd (offset : Nat) (sn : SnapshotEntry) : Nat :=
  alignOffset8 offset + 40 + 16 + sn.idStr.length + sn.name.length

def tableWrites : Nat → List SnapshotEntry → List (Nat × List UInt8)
  | _, [] => []
  | offset, sn :: rest => entryWrites offset sn ++ tableWrites (entryEnd offset sn) rest

/-- The first loop of `qcow2_write_snapshots`. -/
def tableSize : Nat → List SnapshotEntry → Option Nat
  | offset, [] => some offset
  | offset, sn :: rest =>
    if entryEnd offset sn > maxSnapshotsSize then none else tableSize (entryEnd offset sn) rest

namespace SnapshotList

variable (s : SnapshotList)

def request : Int × SnapshotList := (s.results s.done, { s with done := s.done + 1 })

/-- `qcow2_alloc_clusters`. -/
def allocClusters (size : Nat) : Int × SnapshotList :=
  (s.offsets size s.allocated, { s with allocated := s.allocated + 1 })

/-- `bdrv_pwrite`. -/
def pwrite (offset : Nat) (bytes : List UInt8) : Int × SnapshotList :=
  let (ret, s) := s.request
  (ret, if ret < 0 then s else
    { s with file := fun x =>
        if offset ≤ x ∧ x < offset + bytes.length then bytes.getD (x - offset) 0 else s.file x })

def pwrites : List (Nat × List UInt8) → SnapshotList → Int × SnapshotList
  | [], s => (0, s)
  | (offset, bytes) :: rest, s =>
    let (ret, s) := s.pwrite offset bytes
    if ret < 0 then (ret, s) else pwrites rest s

/-- `bdrv_pwrite_sync` of the two fields of the header. -/
def pwriteHeader (offset : Nat) : Int × SnapshotList :=
  let (ret, s) := s.request
  if ret < 0 then (ret, s)
  else { s with headerNb := s.snapshots.length, headerOffset := offset }.request

/-- `qcow2_write_snapshots`. What it does to the counts of the clusters is left out. -/
def writeSnapshots : Int × SnapshotList :=
  match tableSize 0 s.snapshots with
  | none => (-efbig, s)
  | some size =>
    let (offset, s) := s.allocClusters size
    if offset < 0 then (offset, s)
    else
      -- bdrv_flush
      let (ret, s) := s.request
      if ret < 0 then (ret, s)
      else
        -- qcow2_pre_write_overlap_check
        let (ret, s) := s.request
        if ret < 0 then (ret, s)
        else
          let (ret, s) := pwrites (tableWrites offset.toNat s.snapshots) s
          if ret < 0 then (ret, s)
          else
            -- bdrv_flush
            let (ret, s) := s.request
            if ret < 0 then (ret, s)
            else
              let (ret, s) := s.pwriteHeader offset.toNat
              if ret < 0 then (ret, s)
              else (0, { s with snapshotsOffset := offset.toNat, snapshotsSize := size })

def findSnapshotByIdAndName (id name : Option (List UInt8)) : Option Nat :=
  match id, name with
  | some id, some name => s.snapshots.findIdx? fun sn => sn.idStr = id ∧ sn.name = name
  | some id, none => s.snapshots.findIdx? fun sn => sn.idStr = id
  | none, some name => s.snapshots.findIdx? fun sn => sn.name = name
  | none, none => none

/-- The L1 table of a new snapshot: what `qcow2_snapshot_create` does before it changes the list, and
the offset of the table. -/
def copyL1Table : Int × Int × SnapshotList :=
  let (offset, s) := s.allocClusters (s.l1Table.length * 8)
  if offset < 0 then (offset, offset, s)
  else
    -- qcow2_pre_write_overlap_check
    let (ret, s) := s.request
    if ret < 0 then (ret, offset, s)
    else
      let (ret, s) := s.pwrite offset.toNat (s.l1Table.flatMap (beBytes 8))
      if ret < 0 then (ret, offset, s)
      else
        -- qcow2_update_snapshot_refcount
        let (ret, s) := s.request
        (ret, offset, s)

/-- `qcow2_snapshot_create` once the new entry is known. The old list is put back if the new one cannot
be written. -/
def appendSnapshot (sn : SnapshotEntry) : Int × SnapshotList :=
  let (ret, next) := { s with snapshots := s.snapshots ++ [sn] }.writeSnapshots
  if ret < 0 then (ret, { next with snapshots := s.snapshots }) else (0, next)

/-- `qcow2_snapshot_create`. -/
def snapshotCreate (info : SnapshotInfo) : Int × SnapshotList :=
  if s.snapshots.length ≥ maxSnapshots then (-efbig, s)
  else if (s.findSnapshotByIdAndName (some info.idStr) none).isSome then (-eexist, s)
  else
    let (ret, offset, s) := s.copyL1Table
    if ret < 0 then (ret, s)
    else
      s.appendSnapshot { info with
          l1TableOffset := offset.toNat
          l1Size := s.l1Table.length
          diskSize := s.totalSectors * 512 }

/-- `qcow2_snapshot_delete`. -/
def snapshotDelete (id name : Option (List UInt8)) : Int × SnapshotList :=
  match s.findSnapshotByIdAndName id name with
  | none => (-enoent, s)
  | some index =>
    let (ret, s) := { s with snapshots := s.snapshots.eraseIdx index }.writeSnapshots
    if ret < 0 then (ret, s)
    else
      -- qcow2_update_snapshot_refcount of the snapshot, and of the active table
      let (ret, s) := s.request
      if ret < 0 then (ret, s)
      else
        let (ret, s) := s.request
        if ret < 0 then (ret, s) else (0, s)

end SnapshotList

inductive SnapshotCall
  | create (info : SnapshotInfo)
  | delete (id name : Option (List UInt8))

def SnapshotList.call (s : SnapshotList) : SnapshotCall → Int × SnapshotList
  | .create info => s.snapshotCreate info
  | .delete id name => s.snapshotDelete id name

structure SnapshotEntry.Fits (sn : SnapshotEntry) : Prop where
  l1TableOffset : sn.l1TableOffset < 256 ^ 8
  l1Size : sn.l1Size < 256 ^ 4
  diskSize : sn.diskSize < 256 ^ 8
  vmStateSize : sn.vmStateSize < 256 ^ 8
  dateSec : sn.dateSec < 256 ^ 4
  dateNsec : sn.dateNsec < 256 ^ 4
  vmClockNsec : sn.vmClockNsec < 256 ^ 8
  idStr : ∀ b ∈ sn.idStr, b ≠ 0
  name : ∀ b ∈ sn.name, b ≠ 0

namespace SnapshotList

def Synced (s : SnapshotList) : Prop :=
  readSnapshots s.file s.totalSectors s.headerNb s.headerOffset =
    some (s.snapshots, s.snapshotsSize) ∧ s.snapshotsOffset = s.headerOffset

/-- `qcow2_alloc_clusters` returns whole clusters that are not in use. -/
def AllocatesFree (s : SnapshotList) : Prop :=
  ∀ size k, 0 ≤ s.offsets size k → 8 ∣ (s.offsets size k).toNat ∧
    ∀ x, (s.offsets size k).toNat ≤ x → x < (s.offsets size k).toNat + size →
      ¬ (s.headerOffset ≤ x ∧ x < s.headerOffset + s.snapshotsSize)

/-- The calls that put the list back if they fail: all but the deletion of a snapshot that
exists. -/
def KeepsList (s : SnapshotList) : SnapshotCall → Prop
  | .create _ => True
  | .delete id name => s.findSnapshotByIdAndName id name = none

end SnapshotList

section
variable {file file' : Nat → UInt8} {offset n start total : Nat} {list : List SnapshotEntry}

lemma readBe_congr (h : ∀ x, offset ≤ x → x < offset + n → file' x = file x) :
    readBe file' offset n = readBe file offset n := by
  refine foldl_ext _ _ _ fun v i hi => ?_
  have hlt := mem_range.mp hi
  rw [h (offset + i) (by omega) (by omega)]

lemma readString_congr {size : UInt16}
    (h : ∀ x, offset ≤ x → x < offset + size.toNat → file' x = file x) :
    readString file' offset size = readString file offset size := by
  have hbytes : readBytes file' offset size.toNat = readBytes file offset size.toNat := by
    refine map_congr_left fun i hi => ?_
    have hlt := mem_range.mp hi
    exact h (offset + i) (by omega) (by omega)
  rw [readString, hbytes, readString]

lemma le_alignOffset8 (offset : Nat) : offset ≤ alignOffset8 offset := by
  unfold alignOffset8
  omega

lemma readEntry_congr
    (h : ∀ x, offset ≤ x → x < (readEntry file total offset).2 → file' x = file x) :
    readEntry file' total offset = readEntry file total offset := by
  have halign := le_alignOffset8 offset
  have hend : (readEntry file total offset).2 =
      alignOffset8 offset + 40 + readBe file (alignOffset8 offset + 36) 4 +
        (UInt16.ofNat (readBe file (alignOffset8 offset + 12) 2)).toNat +
        (UInt16.ofNat (readBe file (alignOffset8 offset + 14) 2)).toNat := rfl
  have hfield : ∀ o n, alignOffset8 offset ≤ o → o + n ≤ (readEntry file total offset).2 →
      readBe file' o n = readBe file o n := fun o n hlow hhigh =>
    readBe_congr fun x hx hx' => h x (by omega) (by omega)
  have hheader : ∀ k n, k + n ≤ 40 → readBe file' (alignOffset8 offset + k) n =
      readBe file (alignOffset8 offset + k) n := fun k n hk => hfield _ _ (by omega) (by omega)
  -- the two fields of the extra data
  have hextra : ∀ k v, (if readBe file (alignOffset8 offset + 36) 4 ≥ k + 8 then
      readBe file' (alignOffset8 offset + (40 + k)) 8 else v) =
        if readBe file (alignOffset8 offset + 36) 4 ≥ k + 8 then
          readBe file (alignOffset8 offset + (40 + k)) 8 else v := by
    intro k v
    split
    · exact hfield _ _ (by omega) (by omega)
    · rfl
  have hstring : ∀ o (size : UInt16), alignOffset8 offset ≤ o →
      o + size.toNat ≤ (readEntry file total offset).2 →
      readString file' o size = readString file o size := fun o size hlow hhigh =>
    readString_congr fun x hx hx' => h x (by omega) (by omega)
  have hfirst : readBe file' (alignOffset8 offset) 8 = readBe file (alignOffset8 offset) 8 :=
    hheader 0 8 (by decide)
  simp (disch := omega) only [readEntry, hfirst, hheader, hextra 0, hextra 8, hstring]

lemma offset_le_readEntry (file : Nat → UInt8) (total offset : Nat) :
    offset ≤ (readEntry file total offset).2 := by
  have halign := le_alignOffset8 offset
  dsimp only [readEntry]
  omega

lemma readLoop_congr (file' : Nat → UInt8) {next : Nat}
    (hread : readLoop file total start n offset = some (list, next))
    (h : ∀ x, offset ≤ x → x < next → file' x = file x) :
    offset ≤ next ∧ readLoop file' total start n offset = some (list, next) := by
  induction n generalizing offset list with
  | zero =>
    cases hread
    exact ⟨le_refl _, rfl⟩
  | succ n ih =>
    have hentry := offset_le_readEntry file total offset
    unfold readLoop at hread
    dsimp only at hread
    split at hread
    · cases hread
    rename_i hsize
    obtain ⟨⟨rest, last⟩, hrest, heq⟩ := Option.map_eq_some_iff.mp hread
    cases heq
    obtain ⟨hle, hrest'⟩ := ih hrest fun x hx hx' => h x (by omega) hx'
    have hsame : readEntry file' total offset = readEntry file total offset :=
      readEntry_congr fun x hx hx' => h x hx (by omega)
    refine ⟨by omega, ?_⟩
    unfold readLoop
    rw [hsame]
    dsimp only
    rw [if_neg hsize, hrest']
    rfl

lemma readSnapshots_congr {nb size : Nat} (hread : readSnapshots file total nb offset = some (list, size))
    (h : ∀ x, offset ≤ x → x < offset + size → file' x = file x) :
    readSnapshots file' total nb offset = some (list, size) := by
  obtain ⟨⟨entries, next⟩, hloop, heq⟩ := Option.map_eq_some_iff.mp hread
  cases heq
  obtain ⟨hle, _⟩ := readLoop_congr file hloop fun _ _ _ => rfl
  obtain ⟨_, hloop'⟩ := readLoop_congr file' hloop fun x hx hx' => h x hx (by omega)
  rw [readSnapshots, hloop']
  rfl
end

/-! ## The writer -/

variable {a index offset : Nat}

lemma alignOffset8_add (h : 8 ∣ a) (offset : Nat) :
    alignOffset8 (a + offset) = a + alignOffset8 offset := by
  obtain ⟨k, rfl⟩ := h
  unfold alignOffset8
  omega

lemma offset_le_entryEnd (offset : Nat) (sn : SnapshotEntry) : offset ≤ entryEnd offset sn := by
  have halign := le_alignOffset8 offset
  unfold entryEnd
  omega

lemma entryEnd_add (ha : 8 ∣ a) (offset : Nat) (sn : SnapshotEntry) :
    entryEnd (a + offset) sn = a + entryEnd offset sn := by
  rw [entryEnd, alignOffset8_add ha, entryEnd]
  omega

variable {w : Nat × List UInt8}

lemma entryWrites_range {sn : SnapshotEntry}
    (hw : w ∈ entryWrites offset sn) : offset ≤ w.1 ∧ w.1 + w.2.length ≤ entryEnd offset sn := by
  have halign := le_alignOffset8 offset
  simp only [entryWrites, mem_cons, not_mem_nil, or_false] at hw
  unfold entryEnd
  rcases hw with rfl | rfl | rfl | rfl <;> simp only [length_append, beBytes, length_map,
    length_range] <;> omega

variable {bytes : List UInt8}

section
variable {file : Nat → UInt8} {total offset size a : Nat} {sn : SnapshotEntry}
  {list : List SnapshotEntry}

lemma tableSize_cons (h : tableSize offset (sn :: list) = some size) :
    entryEnd offset sn ≤ maxSnapshotsSize ∧ tableSize (entryEnd offset sn) list = some size := by
  unfold tableSize at h
  split at h
  · cases h
  · exact ⟨le_of_not_gt ‹_›, h⟩

lemma tableSize_le (h : tableSize offset list = some size) : offset ≤ size := by
  induction list generalizing offset with
  | nil => exact le_of_eq (Option.some.inj h)
  | cons sn rest ih => exact (offset_le_entryEnd offset sn).trans (ih (tableSize_cons h).2)

section
variable (ha : 8 ∣ a) (hsize : tableSize offset list = some size)
include ha hsize

lemma tableWrites_range (hw : w ∈ tableWrites (a + offset) list) :
    a + offset ≤ w.1 ∧ w.1 + w.2.length ≤ a + size := by
  induction list generalizing offset with
  | nil => cases hw
  | cons sn rest ih =>
    obtain ⟨-, hsize⟩ := tableSize_cons hsize
    have hend := entryEnd_add ha offset sn
    have hle := offset_le_entryEnd offset sn
    have hle' := tableSize_le hsize
    rcases mem_append.mp hw with hentry | hrest
    · have hrange := entryWrites_range hentry
      omega
    · rw [hend] at hrest
      have hrange := ih hsize hrest
      omega

lemma tableWrites_sorted :
    (tableWrites (a + offset) list).Pairwise fun w w' => w.1 + w.2.length ≤ w'.1 := by
  induction list generalizing offset with
  | nil => exact .nil
  | cons sn rest ih =>
    obtain ⟨-, hsize⟩ := tableSize_cons hsize
    rw [tableWrites, entryEnd_add ha]
    refine pairwise_append.mpr ⟨?_, ih hsize, fun w hw w' hw' => ?_⟩
    · simp [entryWrites, beBytes, add_assoc, show 40 ≤ 56 + sn.idStr.length by omega]
    · have hend := (entryWrites_range hw).2
      rw [entryEnd_add ha] at hend
      exact hend.trans (tableWrites_range ha hsize hw').1
end

def Holds (file : Nat → UInt8) (offset : Nat) (bytes : List UInt8) : Prop :=
  readBytes file offset bytes.length = bytes

lemma holds_append {bytes' : List UInt8} : Holds file offset (bytes ++ bytes') ↔
    Holds file offset bytes ∧ Holds file (offset + bytes.length) bytes' := by
  have hsplit : readBytes file offset (bytes ++ bytes').length =
      readBytes file offset bytes.length ++
        readBytes file (offset + bytes.length) bytes'.length := by
    simp only [readBytes, length_append, range_add, map_append, map_map,
      Function.comp_def, add_assoc]
  rw [Holds, hsplit]
  refine ⟨fun h => append_inj h (by simp [readBytes]), ?_⟩
  rintro ⟨h, h'⟩
  rw [h, h']

lemma length_beBytes (n v : Nat) : (beBytes n v).length = n := by simp [beBytes]

lemma foldl_beBytes (n v acc : Nat) :
    (beBytes n v).foldl (fun w b => w * 256 + b.toNat) acc = acc * 256 ^ n + v % 256 ^ n := by
  induction n generalizing acc with
  | zero => simp [beBytes, Nat.mod_one]
  | succ n ih =>
    have hcons : beBytes (n + 1) v = UInt8.ofNat (v / 256 ^ n) :: beBytes n v := by
      have hshift : v >>> (8 * n) = v / 256 ^ n := by rw [Nat.shiftRight_eq_div_pow, Nat.pow_mul]
      simp only [beBytes, range_succ_eq_map, map_cons, map_map, Function.comp_def,
        Nat.add_sub_cancel, Nat.sub_zero, hshift]
      refine congrArg _ (map_congr_left fun i _ => ?_)
      rw [Nat.sub_sub, add_comm 1 i]
    rw [hcons, foldl_cons, ih, Nat.mod_pow_succ, UInt8.toNat_ofNat', pow_succ' 256 n,
      add_mul, mul_assoc, add_assoc, add_comm (_ % 256 ^ n), mul_comm (256 ^ n)]

lemma Holds.readBe {n v : Nat} (h : Holds file offset (beBytes n v)) (hv : v < 256 ^ n) :
    readBe file offset n = v := by
  rw [Holds, length_beBytes] at h
  have hfold := foldl_beBytes n v 0
  rw [← h, readBytes, foldl_map] at hfold
  rw [Qcow2.readBe, hfold, mod_eq_of_lt hv, zero_mul, zero_add]

lemma Holds.readString {size : UInt16} (h : Holds file offset bytes)
    (hsize : size.toNat = bytes.length) (hbytes : ∀ b ∈ bytes, b ≠ 0) :
    readString file offset size = bytes := by
  rw [Holds] at h
  rw [Qcow2.readString, hsize, h, takeWhile_eq_self_iff]
  exact fun b hb => bne_iff_ne.mpr (hbytes b hb)

lemma readEntry_entryWrites (hsn : sn.Fits)
    (h : ∀ w ∈ entryWrites offset sn, Holds file w.1 w.2) :
    readEntry file total offset = (sn, entryEnd offset sn) := by
  have hid := lt_succ_of_le sn.idStr_length
  have hname := lt_succ_of_le sn.name_length
  have hidSize := UInt16.toNat_ofNat_of_lt' hid
  have hnameSize := UInt16.toNat_ofNat_of_lt' hname
  simp only [entryWrites, forall_mem_cons, holds_append, length_append, length_beBytes,
    add_assoc, reduceAdd] at h
  obtain ⟨⟨⟨⟨⟨⟨⟨⟨⟨h0, h8⟩, h12⟩, h14⟩, h16⟩, h20⟩, h24⟩, -⟩, h36⟩, ⟨h40, h48⟩, hidStr, hnameStr, -⟩ := h
  simp only [readEntry, entryEnd, h0.readBe hsn.l1TableOffset, h8.readBe hsn.l1Size,
    h12.readBe hid, h14.readBe hname, h16.readBe hsn.dateSec, h20.readBe hsn.dateNsec,
    h24.readBe hsn.vmClockNsec, h36.readBe (by decide), h40.readBe hsn.vmStateSize,
    h48.readBe hsn.diskSize, hidSize, hnameSize, add_assoc, reduceAdd,
    hidStr.readString hidSize hsn.idStr, hnameStr.readString hnameSize hsn.name]
  rfl

lemma readLoop_tableWrites (ha : 8 ∣ a) (hsize : tableSize offset list = some size)
    (hfits : ∀ sn ∈ list, sn.Fits) (h : ∀ w ∈ tableWrites (a + offset) list, Holds file w.1 w.2) :
    readLoop file total a list.length (a + offset) = some (list, a + size) := by
  induction list generalizing offset with
  | nil =>
    cases hsize
    rfl
  | cons sn rest ih =>
    obtain ⟨hlimit, hsize⟩ := tableSize_cons hsize
    have hentry : readEntry file total (a + offset) = (sn, a + entryEnd offset sn) := by
      rw [readEntry_entryWrites (hfits sn mem_cons_self) fun w hw =>
        h w (mem_append_left _ hw), entryEnd_add ha]
    have hrest := ih hsize (fun sn hsn => hfits sn (mem_cons_of_mem _ hsn)) fun w hw =>
      h w (mem_append_right _ (by rwa [entryEnd_add ha]))
    rw [length_cons, readLoop, hentry]
    dsimp only
    rw [Nat.add_sub_cancel_left, if_neg (Nat.not_lt_of_le hlimit), hrest]
    rfl
end

variable {writes : List (Nat × List UInt8)} {id name : Option (List UInt8)}

namespace SnapshotList

variable {s s' s'' : SnapshotList} {touched : Nat → Prop}

structure Kept (touched : Nat → Prop) (s s' : SnapshotList) : Prop where
  snapshots : s'.snapshots = s.snapshots
  snapshotsOffset : s'.snapshotsOffset = s.snapshotsOffset
  snapshotsSize : s'.snapshotsSize = s.snapshotsSize
  totalSectors : s'.totalSectors = s.totalSectors
  l1Table : s'.l1Table = s.l1Table
  offsets : s'.offsets = s.offsets
  file : ∀ x, ¬ touched x → s'.file x = s.file x

lemma Kept.refl (touched : Nat → Prop) (s : SnapshotList) : Kept touched s s :=
  ⟨rfl, rfl, rfl, rfl, rfl, rfl, fun _ _ => rfl⟩

lemma Kept.trans (h : Kept touched s s') (h' : Kept touched s' s'') : Kept touched s s'' where
  snapshots := h'.snapshots.trans h.snapshots
  snapshotsOffset := h'.snapshotsOffset.trans h.snapshotsOffset
  snapshotsSize := h'.snapshotsSize.trans h.snapshotsSize
  totalSectors := h'.totalSectors.trans h.totalSectors
  l1Table := h'.l1Table.trans h.l1Table
  offsets := h'.offsets.trans h.offsets
  file x hx := (h'.file x hx).trans (h.file x hx)

lemma request_kept (touched : Nat → Prop) (s : SnapshotList) : Kept touched s s.request.2 :=
  ⟨rfl, rfl, rfl, rfl, rfl, rfl, fun _ _ => rfl⟩

lemma allocClusters_kept (touched : Nat → Prop) (s : SnapshotList) (size : Nat) :
    Kept touched s (s.allocClusters size).2 :=
  ⟨rfl, rfl, rfl, rfl, rfl, rfl, fun _ _ => rfl⟩

lemma pwrite_kept (h : ∀ x, offset ≤ x → x < offset + bytes.length → touched x) :
    Kept touched s (s.pwrite offset bytes).2 := by
  refine (request_kept touched s).trans ?_
  unfold pwrite
  dsimp only
  split
  · exact .refl touched _
  · refine ⟨rfl, rfl, rfl, rfl, rfl, rfl, fun x hx => ?_⟩
    exact if_neg fun hin => hx (h x hin.1 hin.2)

lemma pwrites_kept (h : ∀ w ∈ writes, ∀ x, w.1 ≤ x → x < w.1 + w.2.length → touched x) :
    Kept touched s (pwrites writes s).2 := by
  induction writes generalizing s with
  | nil => exact .refl touched s
  | cons w rest ih =>
    have hfirst : Kept touched s (s.pwrite w.1 w.2).2 := pwrite_kept (h w mem_cons_self)
    unfold pwrites
    dsimp only
    split
    · exact hfirst
    · exact hfirst.trans (ih fun w' hw' => h w' (mem_cons_of_mem w hw'))

lemma pwrites_reads (hsorted : writes.Pairwise fun w w' => w.1 + w.2.length ≤ w'.1)
    (hret : ¬ (pwrites writes s).1 < 0) (hw : w ∈ writes) :
    Holds (pwrites writes s).2.file w.1 w.2 := by
  induction writes generalizing s with
  | nil => cases hw
  | cons first rest ih =>
    obtain ⟨hfirst, hrest⟩ := pairwise_cons.mp hsorted
    unfold pwrites at hret ⊢
    dsimp only at hret ⊢
    by_cases hfail : (s.pwrite first.1 first.2).1 < 0
    · rw [if_pos hfail] at hret
      exact absurd hfail hret
    rw [if_neg hfail] at hret ⊢
    rcases mem_cons.mp hw with rfl | hw
    · -- the other writes begin behind this one
      have hkept : Kept (fun x => w.1 + w.2.length ≤ x) (s.pwrite w.1 w.2).2
          (pwrites rest (s.pwrite w.1 w.2).2).2 :=
        pwrites_kept fun w' hw' x hx _ => le_trans (hfirst w' hw') hx
      refine ext_getElem (by simp [readBytes]) fun i hi hi' => ?_
      have hfile : (s.pwrite w.1 w.2).2.file (w.1 + i) = w.2.getD i 0 := by
        have hret : ¬ s.request.1 < 0 := hfail
        unfold pwrite
        dsimp only
        rw [if_neg hret]
        refine (if_pos ⟨Nat.le_add_right _ _, Nat.add_lt_add_left hi' _⟩).trans ?_
        rw [Nat.add_sub_cancel_left]
      simp only [readBytes, getElem_map, getElem_range]
      rw [hkept.file _ (by omega), hfile, getD_eq_getElem?_getD, List.getElem?_eq_getElem hi',
        Option.getD_some]
    · exact ih hrest hret hw

lemma readSnapshots_pwrites {size : Nat} (ha : 8 ∣ a) (hsize : tableSize 0 s.snapshots = some size)
    (hret : ¬ (pwrites (tableWrites a s.snapshots) s).1 < 0) (hfits : ∀ sn ∈ s.snapshots, sn.Fits) :
    let s' := (pwrites (tableWrites a s.snapshots) s).2
    readSnapshots s'.file s'.totalSectors s'.snapshots.length a = some (s'.snapshots, size) := by
  intro s'
  have hkept : Kept (fun _ => True) s s' := pwrites_kept fun _ _ _ _ _ => trivial
  have hloop : readLoop s'.file s'.totalSectors a s.snapshots.length a = some (s.snapshots, a + size) :=
    readLoop_tableWrites ha hsize hfits fun w hw => pwrites_reads (tableWrites_sorted ha hsize) hret hw
  rw [hkept.snapshots, readSnapshots, hloop, Option.map_some, Nat.add_sub_cancel_left]

lemma pwriteHeader_kept (touched : Nat → Prop) (s : SnapshotList) (offset : Nat) :
    Kept touched s (s.pwriteHeader offset).2 := by
  unfold pwriteHeader
  dsimp only
  split
  · exact request_kept touched s
  · exact ⟨rfl, rfl, rfl, rfl, rfl, rfl, fun _ _ => rfl⟩

lemma pwriteHeader_of_success (h : ¬ (s.pwriteHeader offset).1 < 0) : (s.pwriteHeader offset).2 =
      { s with headerNb := s.snapshots.length, headerOffset := offset, done := s.done + 2 } := by
  unfold pwriteHeader at h ⊢
  dsimp only at h ⊢
  split at h
  · exact absurd ‹_› h
  · rw [if_neg ‹_›]
    rfl

/-- The clusters that the calls of `qcow2_alloc_clusters` return. -/
def InAllocated (s : SnapshotList) (x : Nat) : Prop :=
  ∃ size k, 0 ≤ s.offsets size k ∧ (s.offsets size k).toNat ≤ x ∧ x < (s.offsets size k).toNat + size

/-! ## The calls -/

lemma Kept.synced (h : Kept touched s s') (hsynced : s.Synced) (hnb : s'.headerNb = s.headerNb)
    (hoffset : s'.headerOffset = s.headerOffset)
    (hfree : ∀ x, touched x → ¬ (s.headerOffset ≤ x ∧ x < s.headerOffset + s.snapshotsSize)) :
    s'.Synced := by
  obtain ⟨hread, hin⟩ := hsynced
  refine ⟨?_, ?_⟩
  · rw [h.totalSectors, hnb, hoffset, h.snapshots, h.snapshotsSize]
    exact readSnapshots_congr hread fun x hx hx' => h.file x fun ht => hfree x ht ⟨hx, hx'⟩
  · rw [h.snapshotsOffset, hoffset, hin]

lemma copyL1Table_kept (s : SnapshotList) : Kept s.InAllocated s s.copyL1Table.2.2 := by
  have halloc := allocClusters_kept s.InAllocated s (s.l1Table.length * 8)
  unfold copyL1Table
  dsimp only
  split
  · exact halloc
  rename_i hoffset
  have hpos := Int.not_lt.mp hoffset
  have hcheck := halloc.trans (request_kept _ _)
  split
  · exact hcheck
  have hlength : (s.l1Table.flatMap (beBytes 8)).length = s.l1Table.length * 8 := by
    simp [length_flatMap, beBytes]
  have hrange : ∀ x, (s.offsets (s.l1Table.length * 8) s.allocated).toNat ≤ x →
      x < (s.offsets (s.l1Table.length * 8) s.allocated).toNat +
        (s.l1Table.flatMap (beBytes 8)).length → s.InAllocated x := by
    intro x hlow hhigh
    exact ⟨s.l1Table.length * 8, s.allocated, hpos, hlow, hlength ▸ hhigh⟩
  have hwrite := hcheck.trans (pwrite_kept hrange)
  split
  · exact hwrite
  · exact hwrite.trans (request_kept _ _)

section
variable (halign : ∀ size k, 0 ≤ s.offsets size k → 8 ∣ (s.offsets size k).toNat)
include halign

lemma writeSnapshots_cases : (s.writeSnapshots.1 < 0 ∧ Kept s.InAllocated s s.writeSnapshots.2) ∨
      (s.writeSnapshots.1 = 0 ∧ s.writeSnapshots.2.snapshots = s.snapshots ∧
        ((∀ sn ∈ s.snapshots, sn.Fits) → s.writeSnapshots.2.Synced)) := by
  unfold writeSnapshots
  cases hsize : tableSize 0 s.snapshots with
  | none => exact .inl ⟨show -efbig < 0 by decide, .refl _ s⟩
  | some size =>
    dsimp only
    have halloc := allocClusters_kept s.InAllocated s size
    split
    · exact .inl ⟨‹_›, halloc⟩
    rename_i hoffset
    have hpos := Int.not_lt.mp hoffset
    have ha := halign size s.allocated hpos
    have hflush := halloc.trans (request_kept _ _)
    split
    · exact .inl ⟨‹_›, hflush⟩
    have hcheck := hflush.trans (request_kept _ _)
    split
    · exact .inl ⟨‹_›, hcheck⟩
    have hrange : ∀ w ∈ tableWrites (s.offsets size s.allocated).toNat s.snapshots,
        ∀ x, w.1 ≤ x → x < w.1 + w.2.length → s.InAllocated x := by
      intro w hw x hlow hhigh
      have hrange := tableWrites_range ha hsize (w := w) hw
      exact ⟨size, s.allocated, hpos, by omega, by omega⟩
    have hwrites := hcheck.trans (pwrites_kept hrange)
    split
    · exact .inl ⟨‹_›, hwrites⟩
    rename_i hwritten
    have hflush' := hwrites.trans (request_kept _ _)
    split
    · exact .inl ⟨‹_›, hflush'⟩
    have hheader := hflush'.trans (pwriteHeader_kept _ _ (s.offsets size s.allocated).toNat)
    split
    · exact .inl ⟨‹_›, hheader⟩
    rename_i hsuccess
    refine .inr ⟨rfl, hheader.snapshots, fun hfits => ?_⟩
    rw [pwriteHeader_of_success hsuccess]
    exact ⟨readSnapshots_pwrites ha hsize hwritten hfits, rfl⟩

lemma writeSnapshots_snapshots : s.writeSnapshots.2.snapshots = s.snapshots := by
  rcases writeSnapshots_cases halign with ⟨-, hkept⟩ | ⟨-, hlist, -⟩
  · exact hkept.snapshots
  · exact hlist

lemma appendSnapshot_failed {sn : SnapshotEntry} :
    (s.appendSnapshot sn).1 < 0 → Kept s.InAllocated s (s.appendSnapshot sn).2 := by
  have hcases := writeSnapshots_cases (s := { s with snapshots := s.snapshots ++ [sn] }) halign
  unfold appendSnapshot
  dsimp only
  split
  · obtain ⟨-, hkept⟩ := hcases.resolve_right fun h => by omega
    exact fun _ => ⟨rfl, hkept.snapshotsOffset, hkept.snapshotsSize, hkept.totalSectors,
      hkept.l1Table, hkept.offsets, hkept.file⟩
  · exact fun hfail => absurd hfail (lt_irrefl 0)

lemma snapshotCreate_failed {info : SnapshotInfo} :
    (s.snapshotCreate info).1 < 0 → Kept s.InAllocated s (s.snapshotCreate info).2 := by
  have hcopy := copyL1Table_kept s
  unfold snapshotCreate
  split
  · exact fun _ => .refl _ s
  split
  · exact fun _ => .refl _ s
  dsimp only
  split
  · exact fun _ => hcopy
  intro hfail
  have hwrite := appendSnapshot_failed (hcopy.offsets ▸ halign) hfail
  have hsame : s.copyL1Table.2.2.InAllocated = s.InAllocated := by
    unfold InAllocated
    rw [hcopy.offsets]
  exact hcopy.trans (hsame ▸ hwrite)

lemma snapshotDelete_snapshots (hfind : s.findSnapshotByIdAndName id name = some index) :
    (s.snapshotDelete id name).2.snapshots = s.snapshots.eraseIdx index := by
  have hframe := writeSnapshots_snapshots (s := { s with snapshots := s.snapshots.eraseIdx index }) halign
  unfold snapshotDelete
  rw [hfind]
  dsimp only
  split
  · exact hframe
  · split
    · exact hframe
    · split <;> exact hframe
end

lemma findSnapshotByIdAndName_lt
    (hfind : s.findSnapshotByIdAndName id name = some index) : index < s.snapshots.length := by
  unfold findSnapshotByIdAndName at hfind
  split at hfind
  · exact (findIdx?_eq_some_iff_findIdx_eq.mp hfind).1
  · exact (findIdx?_eq_some_iff_findIdx_eq.mp hfind).1
  · exact (findIdx?_eq_some_iff_findIdx_eq.mp hfind).1
  · cases hfind

/-- A call that fails before the header is updated leaves the list as it was, and equal to the table
of the file, exactly if it is not the deletion of a snapshot that exists. -/
theorem failed_call_keeps_list_iff {call : SnapshotCall} (hsynced : s.Synced)
    (hfree : s.AllocatesFree) (hfail : (s.call call).1 < 0)
    (hnb : (s.call call).2.headerNb = s.headerNb)
    (hoffset : (s.call call).2.headerOffset = s.headerOffset) :
    ((s.call call).2.snapshots = s.snapshots ∧ (s.call call).2.Synced) ↔ s.KeepsList call := by
  have halign : ∀ size k, 0 ≤ s.offsets size k → 8 ∣ (s.offsets size k).toNat :=
    fun size k hpos => (hfree size k hpos).1
  have houtside : ∀ x, s.InAllocated x →
      ¬ (s.headerOffset ≤ x ∧ x < s.headerOffset + s.snapshotsSize) := by
    rintro x ⟨size, k, hpos, hlow, hhigh⟩
    exact (hfree size k hpos).2 x hlow hhigh
  cases call with
  | create info =>
    have hkept := snapshotCreate_failed halign hfail
    exact iff_of_true ⟨hkept.snapshots, hkept.synced hsynced hnb hoffset houtside⟩ trivial
  | delete id name =>
    cases hfind : s.findSnapshotByIdAndName id name with
    | none =>
      have hsame : s.call (.delete id name) = (-enoent, s) := by rw [call, snapshotDelete, hfind]
      rw [hsame]
      exact iff_of_true ⟨rfl, hsynced⟩ hfind
    | some index =>
      refine iff_of_false (fun hkept => ?_) (fun hkeeps => ?_)
      · have hlength := congrArg length hkept.1
        have hlt := findSnapshotByIdAndName_lt hfind
        rw [call, snapshotDelete_snapshots halign hfind, length_eraseIdx_of_lt hlt] at hlength
        omega
      · rw [KeepsList, hfind] at hkeeps
        cases hkeeps

end SnapshotList

namespace SnapshotList

/-! ## An image with one snapshot -/

/-- The snapshot with id `1` and name `a`. -/
def entryOne : SnapshotEntry :=
  ⟨65536, 1, [49], [97], 1048576, 0, 1400000000, 0, 0, by decide, by decide⟩

def oneSnapshot (failing : Nat) : SnapshotList where
  snapshots := [entryOne]
  snapshotsOffset := 512
  snapshotsSize := 58
  totalSectors := 2048
  l1Table := [0]
  file := (pwrites (tableWrites 512 [entryOne])
    ⟨[], 0, 0, 0, [], fun _ => 0, 0, 0, fun _ => 0, 0, fun _ _ => 0, 0⟩).2.file
  headerNb := 1
  headerOffset := 512
  results n := if n = failing then -5 else 0
  done := 0
  offsets _ k := 4096 * (k + 1)
  allocated := 0

lemma allocatesFree_oneSnapshot (failing : Nat) : (oneSnapshot failing).AllocatesFree := by
  intro size k hpos
  have hoffset : ((oneSnapshot failing).offsets size k).toNat = 4096 * (k + 1) := by
    dsimp only [oneSnapshot]
    omega
  rw [hoffset]
  refine ⟨⟨512 * (k + 1), by omega⟩, fun x hlow _ => ?_⟩
  dsimp only [oneSnapshot]
  omega

/-- A snapshot with id `2` and name `b`. -/
def infoTwo : SnapshotInfo := ⟨[50], [98], 0, 1400000001, 0, 0, by decide, by decide⟩

/-- The new table is written in part. -/
theorem failed_call_keeps_list_create :
    ((oneSnapshot 6).call (.create infoTwo)).1 = -5 ∧
      ((oneSnapshot 6).call (.create infoTwo)).2.snapshots = [entryOne] ∧
      ((oneSnapshot 6).call (.create infoTwo)).2.Synced := by
  have hiff : _ ↔ (oneSnapshot 6).KeepsList (.create infoTwo) :=
    failed_call_keeps_list_iff ⟨by decide +kernel, rfl⟩ (allocatesFree_oneSnapshot 6)
      (by decide +kernel) (by decide +kernel) (by decide +kernel)
  exact ⟨by decide +kernel, hiff.mpr trivial⟩

/-- The flush of the new table fails: the snapshot is gone from the list, and still in the file. -/
theorem delete_drops_snapshot :
    (oneSnapshot 2).Synced ∧ (oneSnapshot 2).AllocatesFree ∧
      ((oneSnapshot 2).call (.delete (some [49]) none)).1 = -5 ∧
      ((oneSnapshot 2).call (.delete (some [49]) none)).2.headerNb = 1 ∧
      ((oneSnapshot 2).call (.delete (some [49]) none)).2.headerOffset = 512 ∧
      ((oneSnapshot 2).call (.delete (some [49]) none)).2.snapshots = [] ∧
      readSnapshots ((oneSnapshot 2).call (.delete (some [49]) none)).2.file 2048 1 512 =
        some ([entryOne], 58) :=
  ⟨⟨by decide +kernel, rfl⟩, allocatesFree_oneSnapshot 2, by decide +kernel, by decide +kernel,
    by decide +kernel, by decide +kernel, by decide +kernel⟩

end SnapshotList

end QemuVmi.Qcow2
