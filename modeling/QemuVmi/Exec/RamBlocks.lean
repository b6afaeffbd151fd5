import Mathlib

/-!
# RAM blocks

The list of RAM blocks in `exec.c`, with the dirty bitmaps: `find_ram_offset`,
`qemu_ram_alloc_from_ptr` and `qemu_ram_free`. A `ram_addr_t` is a number below `2^64`, and
sums wrap around there. The bits of a bitmap behind the memory that is allocated for it can not
be set: this is `none`, as is a failed assertion and a call of `abort`.

Results:
1. `findRamOffset_eq_some`: the block that is found has the smallest gap behind it.
2. `Reachable.valid`: what holds of the blocks and bitmaps after any sequence of calls.
3. `ramBlocks_disjoint_and_covered`: the blocks are disjoint and inside of the bitmaps.
-/

namespace QemuVmi.Exec

open List Prod

def targetPageSize : Nat := 4096

def targetPageAlign (addr : Nat) : Nat :=
  (addr + targetPageSize - 1) % 2 ^ 64 / targetPageSize * targetPageSize

def ramAddrMax : Nat := 2 ^ 64 - 1

inductive DirtyClient
  | vga
  | code
  | migration
deriving DecidableEq, Repr

/-- A bitmap for which `nbits` bits are allocated. -/
structure Bitmap where
  nbits : Nat
  bits : Nat → Bool

def bitmapZeroExtend (old : Bitmap) (oldNbits newNbits : Nat) : Bitmap :=
  { nbits := (newNbits + 63) / 64 * 64
    bits := fun i => if oldNbits ≤ i ∧ i < newNbits then false else old.bits i }

def bitmapSet (map : Bitmap) (start nr : Nat) : Option Bitmap :=
  if start + nr ≤ map.nbits then
    some { map with bits := fun i => decide (start ≤ i ∧ i < start + nr) || map.bits i }
  else none

structure RamBlock where
  offset : Nat
  length : Nat
  host : Nat
deriving DecidableEq, Repr

/-- `RAMBlock` and `ram_list`. -/
structure RamList where
  blocks : List RamBlock
  mruBlock : Option RamBlock
  dirtyMemory : DirtyClient → Bitmap

/-- `bitmap_set` on one of the bitmaps. -/
def RamList.bitmapSet (client : DirtyClient) (start nr : Nat) (s : RamList) : Option RamList :=
  (Exec.bitmapSet (s.dirtyMemory client) start nr).map fun map =>
    { s with dirtyMemory := fun c => if c = client then map else s.dirtyMemory c }

def cpuPhysicalMemorySetDirtyRange (start length : Nat) (s : RamList) : Option RamList := do
  let last := targetPageAlign (start + length) / targetPageSize
  let page := start / targetPageSize
  let s ← s.bitmapSet .migration page (last - page)
  let s ← s.bitmapSet .vga page (last - page)
  s.bitmapSet .code page (last - page)

def RamBlock.last (block : RamBlock) : Nat := (block.offset + block.length) % 2 ^ 64

section
variable (blocks : List RamBlock)

/-- The inner loop of `find_ram_offset`: where the first block at or behind `last` starts. -/
def nextOffset (last : Nat) : Nat :=
  blocks.foldl (fun next block => if block.offset ≥ last then min next block.offset else next)
    ramAddrMax

/-- The outer loop of `find_ram_offset`, with `offset` and `mingap`. -/
def minGap (all : List RamBlock) (size : Nat) (blocks : List RamBlock) (acc : Nat × Nat) : Nat × Nat :=
  blocks.foldl (fun acc block =>
    let gap := nextOffset all block.last - block.last
    if gap ≥ size ∧ gap < acc.2 then (block.last, gap) else acc) acc

def findRamOffset (size : Nat) : Option Nat :=
  if size = 0 then none
  else if blocks = [] then some 0
  else
    let offset := (minGap blocks size blocks (ramAddrMax, ramAddrMax)).1
    if offset = ramAddrMax then none else some offset

def lastRamOffset : Nat :=
  blocks.foldl (fun last block => max last block.last) 0
end

/-- The loop of `qemu_ram_alloc_from_ptr` that keeps the list sorted. -/
def insertBlock (new : RamBlock) : List RamBlock → List RamBlock
  | [] => [new]
  | block :: blocks =>
      if block.length < new.length then new :: block :: blocks
      else block :: insertBlock new blocks

def RamList.extendDirtyMemory (oldRamSize newRamSize : Nat) (s : RamList) : RamList :=
  if newRamSize > oldRamSize then
    { s with dirtyMemory := fun client =>
        bitmapZeroExtend (s.dirtyMemory client) oldRamSize newRamSize }
  else s

/-- `qemu_ram_alloc_from_ptr`, where `host` is the memory that is given or allocated. -/
def qemuRamAllocFromPtr (size host : Nat) (s : RamList) : Option (RamList × Nat) := do
  let oldRamSize := lastRamOffset s.blocks / targetPageSize
  let size := targetPageAlign size
  let offset ← findRamOffset s.blocks size
  let s := { s with blocks := insertBlock ⟨offset, size, host⟩ s.blocks, mruBlock := none }
  let newRamSize := lastRamOffset s.blocks / targetPageSize
  let s ← cpuPhysicalMemorySetDirtyRange offset size (s.extendDirtyMemory oldRamSize newRamSize)
  return (s, offset)

/-- `qemu_ram_free` and `qemu_ram_free_from_ptr`, which differ in what becomes of the
memory. -/
def qemuRamFree (addr : Nat) (s : RamList) : RamList :=
  if s.blocks.any (fun block => addr == block.offset) then
    { s with blocks := s.blocks.eraseP (fun block => addr == block.offset), mruBlock := none }
  else s

/-- The blocks are not empty, aligned to pages and end below `2^64`. They are sorted by their
length and pairwise disjoint. -/
structure BlocksValid (blocks : List RamBlock) : Prop where
  block : ∀ b ∈ blocks, targetPageSize ∣ b.offset ∧ targetPageSize ∣ b.length ∧ 0 < b.length ∧
    b.offset + b.length < 2 ^ 64
  disjoint : blocks.Pairwise fun b c =>
    b.offset + b.length ≤ c.offset ∨ c.offset + c.length ≤ b.offset
  sorted : blocks.Pairwise fun b c => c.length ≤ b.length

/-- The gap behind a block: no block is in it, and it ends at a block or at `RAM_ADDR_MAX`. -/
structure GapAfter (blocks : List RamBlock) (b : RamBlock) (gap : Nat) : Prop where
  free : ∀ c ∈ blocks, c.offset + c.length ≤ b.offset + b.length ∨
    b.offset + b.length + gap ≤ c.offset
  ends : b.offset + b.length + gap = ramAddrMax ∨ ∃ c ∈ blocks, c.offset = b.offset + b.length + gap

section
variable {blocks : List RamBlock} {b c : RamBlock} {size last : Nat}

lemma nextOffset_spec (blocks : List RamBlock) (last : Nat) :
    nextOffset blocks last ≤ ramAddrMax ∧
      (∀ b ∈ blocks, last ≤ b.offset → nextOffset blocks last ≤ b.offset) ∧
      (nextOffset blocks last = ramAddrMax ∨
        ∃ b ∈ blocks, last ≤ b.offset ∧ b.offset = nextOffset blocks last) := by
  suffices h : ∀ next, let result := blocks.foldl (fun next block =>
      if block.offset ≥ last then min next block.offset else next) next
      result ≤ next ∧ (∀ b ∈ blocks, last ≤ b.offset → result ≤ b.offset) ∧
        (result = next ∨ ∃ b ∈ blocks, last ≤ b.offset ∧ b.offset = result) from h ramAddrMax
  induction blocks with
  | nil => exact fun next => ⟨le_rfl, nofun, .inl rfl⟩
  | cons b blocks ih =>
    intro next
    rw [foldl_cons]
    obtain ⟨hle, hall, hattained⟩ := ih (if b.offset ≥ last then min next b.offset else next)
    have hnext : (if b.offset ≥ last then min next b.offset else next) ≤ next := by split <;> omega
    refine ⟨hle.trans hnext, fun c hc hlast => ?_, ?_⟩
    · rcases mem_cons.mp hc with rfl | hc
      · rw [if_pos hlast] at hle ⊢
        exact hle.trans (min_le_right _ _)
      · exact hall c hc hlast
    rcases hattained with heq | ⟨c, hc, hlast, heq⟩
    · rw [heq]
      split
      · next hlast =>
        rcases le_total next b.offset with hle | hle
        · exact .inl (min_eq_left hle)
        · exact .inr ⟨b, mem_cons_self, hlast, (min_eq_right hle).symm⟩
      · exact .inl rfl
    · exact .inr ⟨c, mem_cons_of_mem b hc, hlast, heq⟩

section
variable (h : BlocksValid blocks)
include h

lemma BlocksValid.last_eq (hb : b ∈ blocks) : b.last = b.offset + b.length :=
  Nat.mod_eq_of_lt (h.block b hb).2.2.2

lemma BlocksValid.eq_or_disjoint (hb : b ∈ blocks) (hc : c ∈ blocks) :
    b = c ∨ b.offset + b.length ≤ c.offset ∨ c.offset + c.length ≤ b.offset := by
  by_cases heq : b = c
  · exact .inl heq
  · exact .inr (@List.Pairwise.forall _ _ _ ⟨fun _ _ => Or.symm⟩ h.disjoint _ hb _ hc heq)

lemma BlocksValid.gapAfter (hb : b ∈ blocks) :
    GapAfter blocks b (nextOffset blocks b.last - b.last) := by
  obtain ⟨hmax, hnext, hattained⟩ := nextOffset_spec blocks b.last
  have hlast := h.last_eq hb
  have hbound := (h.block b hb).2.2.2
  have hle : b.last ≤ nextOffset blocks b.last := by
    rcases hattained with heq | ⟨c, -, hc, heq⟩
    · rw [heq, hlast, ramAddrMax]
      omega
    · rwa [← heq]
  refine ⟨fun c hc => ?_, ?_⟩
  · rcases lt_or_ge c.offset b.last with hlt | hge
    · refine .inl ?_
      rcases h.eq_or_disjoint hb hc with rfl | hbefore | hafter
      · exact le_rfl
      · omega
      · omega
    · have := hnext c hc hge
      exact .inr (by omega)
  · rcases hattained with heq | ⟨c, hc, -, heq⟩
    · exact .inl (by omega)
    · exact .inr ⟨c, hc, by omega⟩

lemma GapAfter.unique {gap gap' : Nat}
    (hgap : GapAfter blocks b gap) (hgap' : GapAfter blocks b gap') : gap = gap' := by
  suffices hle : ∀ {gap gap' : Nat}, GapAfter blocks b gap → GapAfter blocks b gap' → gap ≤ gap' from
    le_antisymm (hle hgap hgap') (hle hgap' hgap)
  intro gap gap' hgap hgap'
  rcases hgap'.ends with hmax | ⟨c, hc, hstart⟩
  · rcases hgap.ends with hmax' | ⟨c, hc, hstart⟩
    · omega
    · have := h.block c hc
      rw [ramAddrMax] at hmax
      omega
  · -- a block at the end of the one gap is not inside of the other
    have := h.block c hc
    have := hgap.free c hc
    omega
end

lemma minGap_spec (all : List RamBlock) (size : Nat) (blocks : List RamBlock) (acc : Nat × Nat) :
    (minGap all size blocks acc = acc ∧ ∀ b ∈ blocks, size ≤ nextOffset all b.last - b.last →
        acc.2 ≤ nextOffset all b.last - b.last) ∨
      ∃ b ∈ blocks, minGap all size blocks acc = (b.last, nextOffset all b.last - b.last) ∧
        size ≤ nextOffset all b.last - b.last ∧ nextOffset all b.last - b.last < acc.2 ∧
        ∀ c ∈ blocks, size ≤ nextOffset all c.last - c.last →
          nextOffset all b.last - b.last ≤ nextOffset all c.last - c.last := by
  induction blocks generalizing acc with
  | nil => exact .inl ⟨rfl, nofun⟩
  | cons b blocks ih =>
    have hstep : minGap all size (b :: blocks) acc = minGap all size blocks
        (if nextOffset all b.last - b.last ≥ size ∧ nextOffset all b.last - b.last < acc.2 then
          (b.last, nextOffset all b.last - b.last) else acc) := rfl
    rw [hstep]
    by_cases htake : nextOffset all b.last - b.last ≥ size ∧ nextOffset all b.last - b.last < acc.2
    · rw [if_pos htake]
      refine .inr ?_
      rcases ih (b.last, nextOffset all b.last - b.last) with ⟨heq, hmin⟩ | ⟨c, hc, heq, hsize, hlt, hmin⟩
      · refine ⟨b, mem_cons_self, heq, htake.1, htake.2, fun c hc hsize => ?_⟩
        rcases mem_cons.mp hc with rfl | hc
        · exact le_rfl
        · exact hmin c hc hsize
      refine ⟨c, mem_cons_of_mem b hc, heq, hsize, hlt.trans htake.2, fun d hd hsize => ?_⟩
      rcases mem_cons.mp hd with rfl | hd
      · exact hlt.le
      · exact hmin d hd hsize
    · rw [if_neg htake]
      have hb : size ≤ nextOffset all b.last - b.last → acc.2 ≤ nextOffset all b.last - b.last := by
        omega
      rcases ih acc with ⟨heq, hmin⟩ | ⟨c, hc, heq, hsize, hlt, hmin⟩
      · refine .inl ⟨heq, fun c hc hsize => ?_⟩
        rcases mem_cons.mp hc with rfl | hc
        · exact hb hsize
        · exact hmin c hc hsize
      refine .inr ⟨c, mem_cons_of_mem b hc, heq, hsize, hlt, fun d hd hsize => ?_⟩
      rcases mem_cons.mp hd with rfl | hd
      · exact (le_of_lt hlt).trans (hb hsize)
      · exact hmin d hd hsize

lemma findRamOffset_eq_some (h : BlocksValid blocks) (hne : blocks ≠ []) {offset : Nat}
    (hrun : findRamOffset blocks size = some offset) :
    ∃ b ∈ blocks, ∃ gap, GapAfter blocks b gap ∧ offset = b.offset + b.length ∧ size ≤ gap ∧
      ∀ c ∈ blocks, ∀ gap', GapAfter blocks c gap' → size ≤ gap' → gap ≤ gap' := by
  simp only [findRamOffset, hne, if_false] at hrun
  split at hrun
  · cases hrun
  split at hrun
  · cases hrun
  next hfound =>
  rcases minGap_spec blocks size blocks (ramAddrMax, ramAddrMax) with
    ⟨heq, -⟩ | ⟨b, hb, heq, hsize, -, hmin⟩
  · exact absurd (congrArg fst heq) hfound
  refine ⟨b, hb, _, h.gapAfter hb, ?_, hsize, fun c hc gap' hgap' hsize' => ?_⟩
  · rw [← h.last_eq hb, ← Option.some.inj hrun, heq]
  · rw [hgap'.unique h (h.gapAfter hc)] at hsize' ⊢
    exact hmin c hc hsize'

lemma findRamOffset_eq_none (h : BlocksValid blocks) (hsize : size ≠ 0)
    (hrun : findRamOffset blocks size = none) :
    ∀ b ∈ blocks, ∀ gap, GapAfter blocks b gap → gap < size := by
  intro b hb gap hgap
  rw [findRamOffset, if_neg hsize, if_neg (ne_nil_of_mem hb)] at hrun
  dsimp only at hrun
  split at hrun
  · next hmax =>
    have hbound := h.block b hb
    have hlast := h.last_eq hb
    have hnext := (nextOffset_spec blocks b.last).1
    rw [hgap.unique h (h.gapAfter hb)]
    rcases minGap_spec blocks size blocks (ramAddrMax, ramAddrMax) with
      ⟨-, hmin⟩ | ⟨c, hc, heq, -⟩
    · -- the gap is less than `RAM_ADDR_MAX`, as the block is not empty
      have := hmin b hb
      rw [ramAddrMax] at this hnext
      omega
    have hbound := h.block c hc
    have hlast := h.last_eq hc
    have hend : c.last = 2 ^ 64 - 1 := (congrArg fst heq).symm.trans hmax
    rw [targetPageSize] at hbound
    omega
  · cases hrun
end

variable {blocks : List RamBlock}

lemma lastRamOffset_le_iff {n : Nat} : lastRamOffset blocks ≤ n ↔ ∀ b ∈ blocks, b.last ≤ n := by
  suffices h : ∀ last, blocks.foldl (fun last block => max last block.last) last ≤ n ↔
      last ≤ n ∧ ∀ b ∈ blocks, b.last ≤ n from (h 0).trans (and_iff_right (Nat.zero_le n))
  induction blocks with
  | nil => exact fun last => ⟨fun h => ⟨h, nofun⟩, And.left⟩
  | cons b blocks ih =>
    intro last
    rw [foldl_cons, ih, Nat.max_le, and_assoc, forall_mem_cons]

lemma last_le_lastRamOffset {b : RamBlock} (hb : b ∈ blocks) : b.last ≤ lastRamOffset blocks :=
  lastRamOffset_le_iff.mp le_rfl b hb

lemma insertBlock_perm (new : RamBlock) (blocks : List RamBlock) :
    (insertBlock new blocks).Perm (new :: blocks) := by
  induction blocks with
  | nil => exact List.Perm.refl _
  | cons b blocks ih =>
    rw [insertBlock]
    split
    · exact List.Perm.refl _
    · exact (ih.cons b).trans (List.Perm.swap new b blocks)

lemma insertBlock_sorted {new : RamBlock} (h : blocks.Pairwise fun b c => c.length ≤ b.length) :
    (insertBlock new blocks).Pairwise fun b c => c.length ≤ b.length := by
  induction blocks with
  | nil => exact pairwise_singleton _ _
  | cons b blocks ih =>
    obtain ⟨hb, hrest⟩ := pairwise_cons.mp h
    rw [insertBlock]
    split
    · next hlt =>
      refine pairwise_cons.mpr ⟨fun c hc => ?_, h⟩
      rcases mem_cons.mp hc with rfl | hc
      · exact hlt.le
      · exact (hb c hc).trans hlt.le
    next hge =>
    refine pairwise_cons.mpr ⟨fun c hc => ?_, ih hrest⟩
    rcases mem_cons.mp ((insertBlock_perm new blocks).mem_iff.mp hc) with rfl | hc
    · exact not_lt.mp hge
    · exact hb c hc

lemma BlocksValid.insert {size offset host : Nat} (h : BlocksValid blocks)
    (halign : targetPageSize ∣ size) (hsize : size < 2 ^ 64)
    (hrun : findRamOffset blocks size = some offset) :
    BlocksValid (insertBlock ⟨offset, size, host⟩ blocks) := by
  have hpos : 0 < size := by
    by_contra hzero
    rw [findRamOffset, if_pos (by omega)] at hrun
    cases hrun
  have hnew : targetPageSize ∣ offset ∧ offset + size < 2 ^ 64 ∧ ∀ c ∈ blocks,
      offset + size ≤ c.offset ∨ c.offset + c.length ≤ offset := by
    by_cases hne : blocks = []
    · rw [findRamOffset, if_neg (by omega), if_pos hne] at hrun
      cases hrun
      exact ⟨dvd_zero _, by omega, hne ▸ nofun⟩
    obtain ⟨b, hb, gap, hgap, rfl, hfits, -⟩ := findRamOffset_eq_some h hne hrun
    have hbound := h.block b hb
    refine ⟨Nat.dvd_add hbound.1 hbound.2.1, ?_, fun c hc => ?_⟩
    · rcases hgap.ends with hmax | ⟨c, hc, hstart⟩
      · rw [ramAddrMax] at hmax
        omega
      · have := h.block c hc
        omega
    · have := hgap.free c hc
      omega
  have hperm := insertBlock_perm ⟨offset, size, host⟩ blocks
  refine ⟨fun b hb => ?_, ?_, insertBlock_sorted h.sorted⟩
  · rcases mem_cons.mp (hperm.mem_iff.mp hb) with rfl | hb
    · exact ⟨hnew.1, halign, hpos, hnew.2.1⟩
    · exact h.block b hb
  · refine (hperm.pairwise_iff fun hbc => hbc.symm).mpr (pairwise_cons.mpr ⟨?_, h.disjoint⟩)
    exact hnew.2.2

/-- What holds between two calls: the blocks are as they should be, and the bitmaps have a bit
for every page below `last_ram_offset`. -/
structure RamList.Valid (s : RamList) : Prop where
  blocks : BlocksValid s.blocks
  covers : ∀ client, lastRamOffset s.blocks / targetPageSize ≤ (s.dirtyMemory client).nbits

section
variable {s s' : RamList}

lemma targetPageAlign_dvd (addr : Nat) : targetPageSize ∣ targetPageAlign addr :=
  Dvd.intro_left _ rfl

lemma targetPageAlign_lt (addr : Nat) : targetPageAlign addr < 2 ^ 64 := by
  rw [targetPageAlign, targetPageSize]
  omega

lemma targetPageAlign_of_dvd {addr : Nat} (h : targetPageSize ∣ addr) (hlt : addr < 2 ^ 64) :
    targetPageAlign addr = addr := by
  rw [targetPageSize] at h
  rw [targetPageAlign, targetPageSize]
  omega

lemma bitmapSet_eq {client : DirtyClient} {start nr : Nat}
    (h : start + nr ≤ (s.dirtyMemory client).nbits) :
    ∃ s', s.bitmapSet client start nr = some s' ∧ s'.blocks = s.blocks ∧ s'.mruBlock = s.mruBlock ∧
      (∀ c, (s'.dirtyMemory c).nbits = (s.dirtyMemory c).nbits) ∧ ∀ c i, (s'.dirtyMemory c).bits i =
        ((decide (c = client) && decide (start ≤ i ∧ i < start + nr)) || (s.dirtyMemory c).bits i) := by
  refine ⟨_, Option.map_eq_some_iff.mpr ⟨_, if_pos h, rfl⟩, rfl, rfl, fun c => ?_, fun c i => ?_⟩
  · dsimp only
    split
    · next heq => rw [heq]
    · rfl
  dsimp only
  split
  · next heq => simp [heq]
  · next heq => simp [heq]

lemma cpuPhysicalMemorySetDirtyRange_eq {start length : Nat}
    (hle : start / targetPageSize ≤ targetPageAlign (start + length) / targetPageSize)
    (hfits : ∀ client, targetPageAlign (start + length) / targetPageSize ≤ (s.dirtyMemory client).nbits) :
    ∃ s', cpuPhysicalMemorySetDirtyRange start length s = some s' ∧ s'.blocks = s.blocks ∧
      ∀ client, (s'.dirtyMemory client).nbits = (s.dirtyMemory client).nbits := by
  have hrange : ∀ client, start / targetPageSize + (targetPageAlign (start + length) / targetPageSize -
      start / targetPageSize) ≤ (s.dirtyMemory client).nbits := by
    intro client
    rw [Nat.add_sub_cancel' hle]
    exact hfits client
  obtain ⟨s₁, hmigration, hblocks₁, -, hnbits₁, -⟩ := bitmapSet_eq (hrange .migration)
  obtain ⟨s₂, hvga, hblocks₂, -, hnbits₂, -⟩ :=
    @bitmapSet_eq s₁ .vga _ _ (by rw [hnbits₁]; exact hrange .vga)
  obtain ⟨s₃, hcode, hblocks₃, -, hnbits₃, -⟩ :=
    @bitmapSet_eq s₂ .code _ _ (by rw [hnbits₂, hnbits₁]; exact hrange .code)
  refine ⟨s₃, ?_, by rw [hblocks₃, hblocks₂, hblocks₁], fun client => by
    rw [hnbits₃, hnbits₂, hnbits₁]⟩
  exact Option.bind_eq_some_iff.mpr ⟨s₁, hmigration, Option.bind_eq_some_iff.mpr ⟨s₂, hvga, hcode⟩⟩

lemma extendDirtyMemory_covers {oldRamSize newRamSize : Nat}
    (h : ∀ client, oldRamSize ≤ (s.dirtyMemory client).nbits) :
    (s.extendDirtyMemory oldRamSize newRamSize).blocks = s.blocks ∧
      ∀ client, newRamSize ≤ ((s.extendDirtyMemory oldRamSize newRamSize).dirtyMemory client).nbits := by
  rw [RamList.extendDirtyMemory]
  split
  · refine ⟨rfl, fun client => ?_⟩
    change newRamSize ≤ (newRamSize + 63) / 64 * 64
    omega
  · next hle => exact ⟨rfl, fun client => (not_lt.mp hle).trans (h client)⟩

lemma RamList.Valid.alloc (h : s.Valid) {size host offset : Nat}
    (hfind : findRamOffset s.blocks (targetPageAlign size) = some offset) :
    ∃ s', qemuRamAllocFromPtr size host s = some (s', offset) ∧
      s'.blocks = insertBlock ⟨offset, targetPageAlign size, host⟩ s.blocks ∧ s'.Valid := by
  have hvalid : BlocksValid (insertBlock ⟨offset, targetPageAlign size, host⟩ s.blocks) :=
    h.blocks.insert (targetPageAlign_dvd size) (targetPageAlign_lt size) hfind
  have hmem : ⟨offset, targetPageAlign size, host⟩ ∈
      insertBlock ⟨offset, targetPageAlign size, host⟩ s.blocks :=
    (insertBlock_perm _ _).mem_iff.mpr mem_cons_self
  obtain ⟨hoffset, hsize, -, hbound⟩ := hvalid.block _ hmem
  have hlast := last_le_lastRamOffset hmem
  rw [hvalid.last_eq hmem] at hlast
  obtain ⟨hblocks, hcovers⟩ := @extendDirtyMemory_covers
    { s with blocks := insertBlock ⟨offset, targetPageAlign size, host⟩ s.blocks, mruBlock := none }
    _ (lastRamOffset (insertBlock ⟨offset, targetPageAlign size, host⟩ s.blocks) / targetPageSize)
    h.covers
  have hend := targetPageAlign_of_dvd (Nat.dvd_add hoffset hsize) hbound
  obtain ⟨s', hrun, hblocks', hnbits⟩ := cpuPhysicalMemorySetDirtyRange_eq
    (by rw [hend]; exact Nat.div_le_div_right (Nat.le_add_right _ _))
    (fun client => by rw [hend]; exact (Nat.div_le_div_right hlast).trans (hcovers client))
  refine ⟨s', ?_, hblocks'.trans hblocks, ?_⟩
  · exact Option.bind_eq_some_iff.mpr ⟨offset, hfind, Option.bind_eq_some_iff.mpr ⟨s', hrun, rfl⟩⟩
  · refine ⟨(hblocks'.trans hblocks).symm ▸ hvalid, fun client => ?_⟩
    rw [hblocks'.trans hblocks, hnbits]
    exact hcovers client

lemma RamList.Valid.free (h : s.Valid) (addr : Nat) : (qemuRamFree addr s).Valid := by
  rw [qemuRamFree]
  split
  · have hsub : (s.blocks.eraseP fun block => addr == block.offset).Sublist s.blocks :=
      eraseP_sublist
    refine ⟨⟨fun b hb => h.blocks.block b (hsub.subset hb), h.blocks.disjoint.sublist hsub,
      h.blocks.sorted.sublist hsub⟩, fun client => le_trans (Nat.div_le_div_right ?_) (h.covers client)⟩
    exact lastRamOffset_le_iff.mpr fun b hb => last_le_lastRamOffset (hsub.subset hb)
  · exact h
end

inductive RamOp
  | alloc (size host : Nat)
  | free (addr : Nat)

def RamOp.step : RamOp → RamList → Option RamList
  | .alloc size host, s => (qemuRamAllocFromPtr size host s).map fst
  | .free addr, s => some (qemuRamFree addr s)

def RamList.initial : RamList :=
  { blocks := []
    mruBlock := none
    dirtyMemory := fun _ => ⟨0, fun _ => false⟩ }

inductive Reachable : RamList → Prop
  | initial : Reachable RamList.initial
  | step {s s' : RamList} {op : RamOp} : Reachable s → op.step s = some s' → Reachable s'

lemma Reachable.valid {s : RamList} (h : Reachable s) : s.Valid := by
  induction h with
  | initial => exact ⟨⟨nofun, .nil, .nil⟩, fun _ => le_rfl⟩
  | @step s s' op _ hstep ih =>
    cases op with
    | alloc size host =>
      obtain ⟨⟨s₁, offset⟩, hrun, rfl⟩ := Option.map_eq_some_iff.mp hstep
      obtain ⟨offset', hfind, -⟩ := Option.bind_eq_some_iff.mp hrun
      obtain ⟨s₂, hrun', -, hvalid⟩ := @RamList.Valid.alloc s ih size host _ hfind
      obtain ⟨rfl, -⟩ := Prod.mk.inj (Option.some.inj (hrun.symm.trans hrun'))
      exact hvalid
    | free addr => exact Option.some.inj hstep ▸ ih.free addr

/-- After any sequence of calls, the blocks are pairwise disjoint intervals that are aligned to
pages and sorted by their length, and all bitmaps have a bit for every page below
`last_ram_offset`. A call of `find_ram_offset` returns the start of a smallest gap behind a
block that is large enough, and fails only if there is none. -/
theorem ramBlocks_disjoint_and_covered {s : RamList} (h : Reachable s) :
    (s.blocks.Pairwise fun b c =>
        b.offset + b.length ≤ c.offset ∨ c.offset + c.length ≤ b.offset) ∧
      (∀ b ∈ s.blocks, targetPageSize ∣ b.offset ∧ targetPageSize ∣ b.length ∧ 0 < b.length ∧
        b.offset + b.length < 2 ^ 64) ∧
      (s.blocks.Pairwise fun b c => c.length ≤ b.length) ∧
      (∀ client page, page < lastRamOffset s.blocks / targetPageSize →
        page < (s.dirtyMemory client).nbits) ∧
      ∀ size, size ≠ 0 → s.blocks ≠ [] → match findRamOffset s.blocks size with
        | some offset => ∃ b ∈ s.blocks, ∃ gap, GapAfter s.blocks b gap ∧
            offset = b.offset + b.length ∧ size ≤ gap ∧
            ∀ c ∈ s.blocks, ∀ gap', GapAfter s.blocks c gap' → size ≤ gap' → gap ≤ gap'
        | none => ∀ b ∈ s.blocks, ∀ gap, GapAfter s.blocks b gap → gap < size := by
  have hvalid := h.valid
  refine ⟨hvalid.blocks.disjoint, hvalid.blocks.block, hvalid.blocks.sorted,
    fun client page hpage => hpage.trans_le (hvalid.covers client), fun size hsize hne => ?_⟩
  split
  · next hrun => exact findRamOffset_eq_some hvalid.blocks hne hrun
  · next hrun => exact findRamOffset_eq_none hvalid.blocks hsize hrun

/-- Two blocks, of which the first one is freed: the bitmaps still have bits for the page at
zero and for the block that is left. -/
theorem ramBlocks_disjoint_and_covered_freed :
    ∃ s, Reachable s ∧ s.blocks = [⟨0x1000, 0x2000, 0⟩] ∧ ∀ client, 2 < (s.dirtyMemory client).nbits := by
  let s₁ := ((RamOp.alloc 1 0).step RamList.initial).get (by decide)
  let s₂ := ((RamOp.alloc 0x2000 0).step s₁).get (by decide)
  have hfirst : (RamOp.alloc 1 0).step RamList.initial = some s₁ := (Option.some_get _).symm
  have hsecond : (RamOp.alloc 0x2000 0).step s₁ = some s₂ := (Option.some_get _).symm
  have hreach : Reachable (qemuRamFree 0 s₂) :=
    .step (.step (.step .initial hfirst) hsecond) (show (RamOp.free 0).step s₂ = _ from rfl)
  have hblocks : (qemuRamFree 0 s₂).blocks = [⟨0x1000, 0x2000, 0⟩] := by decide
  obtain ⟨-, -, -, hcovers, -⟩ := ramBlocks_disjoint_and_covered hreach
  exact ⟨_, hreach, hblocks, fun client => hcovers client 2 (by rw [hblocks]; decide)⟩

end QemuVmi.Exec
