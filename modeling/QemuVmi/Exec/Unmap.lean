import QemuVmi.Exec.RamBlocks

/-!
# Unmapping guest RAM

`address_space_unmap` marks the pages dirty that were written through a mapping of guest
RAM. The mapping is a host pointer, which `qemu_ram_ptr_length` made from a RAM address and
`qemu_ram_addr_from_host` turns back into one.

The loop goes from the start of the mapping in steps of a page, and each step marks the page
it starts in. If the mapping starts inside of a page, the last page that was written may be one
that no step starts in.

Xen is left out: its mappings do not go through the RAM blocks.
-/

namespace QemuVmi.Exec

def distance (a b : Nat) : Nat := (a + 2 ^ 64 - b) % 2 ^ 64

/-- `qemu_ram_ptr_length`: the host pointer, and the size that can be accessed. -/
def qemuRamPtrLength (addr size : Nat) (s : RamList) : Option (Nat × Nat) :=
  if size = 0 then none
  else
    (s.blocks.find? fun block => distance addr block.offset < block.length).map fun block =>
      ((block.host + distance addr block.offset) % 2 ^ 64,
        if (distance addr block.offset + size) % 2 ^ 64 > block.length then
          (distance block.length addr + block.offset) % 2 ^ 64 else size)

/-- The test of `qemu_ram_addr_from_host` for one block. -/
def RamBlock.hasHost (host : Nat) (block : RamBlock) : Bool :=
  block.host != 0 && decide (distance host block.host < block.length)

def qemuRamAddrFromHost (host : Nat) (s : RamList) : Option Nat :=
  ((s.mruBlock.filter (RamBlock.hasHost host)).or (s.blocks.find? (RamBlock.hasHost host))).map
    fun block => (block.offset + distance host block.host) % 2 ^ 64

/-- `cpu_physical_memory_get_dirty`: `find_next_bit` finds a bit before the end. -/
def cpuPhysicalMemoryGetDirty (start length : Nat) (client : DirtyClient) (s : RamList) : Bool :=
  let last := targetPageAlign (start + length) / targetPageSize
  let page := start / targetPageSize
  (List.range' page (last - page)).any (s.dirtyMemory client).bits

def cpuPhysicalMemoryGetDirtyFlag (addr : Nat) (client : DirtyClient) (s : RamList) : Bool :=
  cpuPhysicalMemoryGetDirty addr 1 client s

def cpuPhysicalMemoryIsClean (addr : Nat) (s : RamList) : Bool :=
  let vga := cpuPhysicalMemoryGetDirtyFlag addr .vga s
  let code := cpuPhysicalMemoryGetDirtyFlag addr .code s
  let migration := cpuPhysicalMemoryGetDirtyFlag addr .migration s
  !(vga && code && migration)

def cpuPhysicalMemorySetDirtyFlag (addr : Nat) (client : DirtyClient) (s : RamList) : Option RamList :=
  s.bitmapSet client (addr / targetPageSize) 1

/-- `tb_invalidate_phys_page_range`, which changes no more than the dirty flags for code. -/
structure TbInvalidate where
  run : Nat → Nat → RamList → RamList
  blocks : ∀ start last s, (run start last s).blocks = s.blocks
  nbits : ∀ start last s client, ((run start last s).dirtyMemory client).nbits =
    (s.dirtyMemory client).nbits
  bits : ∀ start last s client, client ≠ .code →
    ((run start last s).dirtyMemory client).bits = (s.dirtyMemory client).bits

section
variable (tb : TbInvalidate)

def invalidateAndSetDirty (addr length : Nat) (s : RamList) : Option RamList :=
  if cpuPhysicalMemoryIsClean addr s then do
    let s ← cpuPhysicalMemorySetDirtyFlag addr .vga (tb.run addr ((addr + length) % 2 ^ 64) s)
    cpuPhysicalMemorySetDirtyFlag addr .migration s
  else some s

/-- The loop of `address_space_unmap`. -/
def unmapLoop : Nat → Nat → Nat → RamList → Option RamList
  | _, _, 0, s => some s
  | 0, _, _ + 1, _ => none
  | fuel + 1, addr, accessLen, s =>
      let l := min targetPageSize accessLen
      (invalidateAndSetDirty tb addr l s).bind (unmapLoop fuel ((addr + l) % 2 ^ 64) (accessLen - l))

/-- `address_space_unmap` for a buffer in guest RAM. -/
def addressSpaceUnmap (buffer : Nat) (isWrite : Bool) (accessLen : Nat) (s : RamList) :
    Option RamList :=
  (qemuRamAddrFromHost buffer s).bind fun addr =>
    if isWrite then unmapLoop tb accessLen addr accessLen s else some s
end

/-- The memory of the blocks: it is allocated at different places, and the cached block is one
of the list. -/
structure HostsValid (s : RamList) : Prop where
  host : ∀ b ∈ s.blocks, 0 < b.host ∧ b.host + b.length ≤ 2 ^ 64
  disjoint : ∀ b ∈ s.blocks, ∀ c ∈ s.blocks,
    b = c ∨ b.host + b.length ≤ c.host ∨ c.host + c.length ≤ b.host
  mru : ∀ b, s.mruBlock = some b → b ∈ s.blocks

section
variable {s : RamList} {b : RamBlock} {addr size : Nat}

lemma distance_lt_iff {a start length : Nat} (ha : a < 2 ^ 64) (hend : start + length ≤ 2 ^ 64) :
    distance a start < length ↔ start ≤ a ∧ a < start + length := by
  rw [distance]
  omega

lemma distance_of_le {a start : Nat} (hle : start ≤ a) (ha : a < 2 ^ 64) :
    distance a start = a - start := by
  rw [distance]
  omega

lemma hasHost_iff {host : Nat} (hhost : host < 2 ^ 64) (hb : 0 < b.host ∧ b.host + b.length ≤ 2 ^ 64) :
    RamBlock.hasHost host b = true ↔ b.host ≤ host ∧ host < b.host + b.length := by
  rw [RamBlock.hasHost, Bool.and_eq_true, decide_eq_true_iff, distance_lt_iff hhost hb.2, bne_iff_ne]
  exact and_iff_right hb.1.ne'

lemma qemuRamAddrFromHost_eq (hhosts : HostsValid s) (hb : b ∈ s.blocks) {host : Nat}
    (hle : b.host ≤ host) (hlt : host < b.host + b.length) :
    qemuRamAddrFromHost host s = some ((b.offset + (host - b.host)) % 2 ^ 64) := by
  have hbound := hhosts.host b hb
  have hhost : host < 2 ^ 64 := by omega
  have hunique : ∀ c ∈ s.blocks, RamBlock.hasHost host c = true → c = b := by
    intro c hc hhas
    have := (hasHost_iff hhost (hhosts.host c hc)).mp hhas
    rcases hhosts.disjoint c hc b hb with heq | hdisjoint
    · exact heq
    · omega
  have hfound : (s.mruBlock.filter (RamBlock.hasHost host)).or
      (s.blocks.find? (RamBlock.hasHost host)) = some b := by
    cases hmru : s.mruBlock.filter (RamBlock.hasHost host) with
    | some c =>
      obtain ⟨hc, hhas⟩ := Option.filter_eq_some_iff.mp hmru
      rw [Option.some_or, hunique c (hhosts.mru c hc) hhas]
    | none =>
      rw [Option.none_or]
      cases hfind : s.blocks.find? (RamBlock.hasHost host) with
      | some c => rw [hunique c (List.mem_of_find?_eq_some hfind) (List.find?_some hfind)]
      | none =>
        have := List.find?_eq_none.mp hfind b hb
        exact absurd ((hasHost_iff hhost hbound).mpr ⟨hle, hlt⟩) this
  rw [qemuRamAddrFromHost, hfound, Option.map_some, distance_of_le hle hhost]

lemma qemuRamAddrFromHost_qemuRamPtrLength (hblocks : BlocksValid s.blocks) (hhosts : HostsValid s)
    (haddr : addr + size < 2 ^ 64) {buffer len : Nat}
    (hmap : qemuRamPtrLength addr size s = some (buffer, len)) :
    qemuRamAddrFromHost buffer s = some addr ∧
      ∃ b ∈ s.blocks, b.offset ≤ addr ∧ addr + len ≤ b.offset + b.length := by
  rw [qemuRamPtrLength] at hmap
  split at hmap
  · cases hmap
  obtain ⟨b, hfind, hresult⟩ := Option.map_eq_some_iff.mp hmap
  obtain ⟨hbuffer, hlen⟩ := Prod.mk.inj hresult
  have hb := List.mem_of_find?_eq_some hfind
  have hbound := (hblocks.block b hb).2.2.2
  have hhost := hhosts.host b hb
  obtain ⟨hle, hlt⟩ := (distance_lt_iff (by omega) hbound.le).mp
    (of_decide_eq_true (@List.find?_some _ (fun block : RamBlock =>
      decide (distance addr block.offset < block.length)) _ _ hfind))
  rw [distance_of_le hle (by omega)] at hbuffer hlen
  refine ⟨?_, b, hb, hle, ?_⟩
  · rw [← hbuffer, Nat.mod_eq_of_lt (by omega), qemuRamAddrFromHost_eq hhosts hb (by omega) (by omega)]
    congr 1
    omega
  rw [← hlen]
  split
  · rw [distance]
    omega
  · omega
end

section
variable {tb : TbInvalidate} {s : RamList} {addr : Nat}

lemma cpuPhysicalMemoryGetDirtyFlag_eq (haddr : addr < 2 ^ 64 - targetPageSize) (client : DirtyClient) :
    cpuPhysicalMemoryGetDirtyFlag addr client s =
      (s.dirtyMemory client).bits (addr / targetPageSize) := by
  have hlast : targetPageAlign (addr + 1) / targetPageSize - addr / targetPageSize = 1 := by
    rw [targetPageAlign, targetPageSize]
    rw [targetPageSize] at haddr
    omega
  rw [cpuPhysicalMemoryGetDirtyFlag, cpuPhysicalMemoryGetDirty]
  simp [hlast]

lemma invalidateAndSetDirty_eq (haddr : addr < 2 ^ 64 - targetPageSize)
    (hpage : ∀ client, addr / targetPageSize < (s.dirtyMemory client).nbits) (length : Nat) :
    ∃ s', invalidateAndSetDirty tb addr length s = some s' ∧
      (∀ client, (s'.dirtyMemory client).nbits = (s.dirtyMemory client).nbits) ∧
      ∀ client, client ≠ .code → ∀ page, (s'.dirtyMemory client).bits page =
        (decide (page = addr / targetPageSize) || (s.dirtyMemory client).bits page) := by
  rw [invalidateAndSetDirty]
  split
  · have htb := tb.nbits addr ((addr + length) % 2 ^ 64) s
    obtain ⟨s₁, hvga, -, -, hnbits₁, hbits₁⟩ :=
      @bitmapSet_eq (tb.run addr ((addr + length) % 2 ^ 64) s) .vga (addr / targetPageSize) 1
        (by rw [htb]; exact hpage .vga)
    obtain ⟨s₂, hmigration, -, -, hnbits₂, hbits₂⟩ :=
      @bitmapSet_eq s₁ .migration (addr / targetPageSize) 1
        (by rw [hnbits₁, htb]; exact hpage .migration)
    refine ⟨s₂, Option.bind_eq_some_iff.mpr ⟨s₁, hvga, hmigration⟩, fun client => ?_,
      fun client hclient page => ?_⟩
    · rw [hnbits₂, hnbits₁, htb]
    have hone : (addr / targetPageSize ≤ page ∧ page < addr / targetPageSize + 1) ↔
        page = addr / targetPageSize := by omega
    rw [hbits₂, hbits₁, tb.bits _ _ _ _ hclient]
    simp only [hone]
    cases client with
    | vga => rfl
    | code => exact absurd rfl hclient
    | migration => rfl
  · next hclean =>
    refine ⟨s, rfl, fun _ => rfl, fun client hclient page => ?_⟩
    -- all flags of the page are set already
    simp only [cpuPhysicalMemoryIsClean, cpuPhysicalMemoryGetDirtyFlag_eq haddr, Bool.not_eq_true',
      Bool.not_eq_false, Bool.and_eq_true] at hclean
    by_cases heq : page = addr / targetPageSize
    · subst heq
      cases client with
      | vga => simp [hclean.1.1]
      | code => exact absurd rfl hclient
      | migration => simp [hclean.2]
    · simp [heq]

lemma unmapLoop_succ (fuel n : Nat) : unmapLoop tb (fuel + 1) addr (n + 1) s =
    (invalidateAndSetDirty tb addr (min targetPageSize (n + 1)) s).bind
      (unmapLoop tb fuel ((addr + min targetPageSize (n + 1)) % 2 ^ 64)
        (n + 1 - min targetPageSize (n + 1))) := rfl

lemma unmapLoop_eq {fuel accessLen : Nat} (hfuel : accessLen ≤ fuel)
    (haddr : addr + accessLen ≤ 2 ^ 64 - targetPageSize)
    (hpages : ∀ client, addr + accessLen ≤ (s.dirtyMemory client).nbits * targetPageSize) :
    ∃ s', unmapLoop tb fuel addr accessLen s = some s' ∧
      ∀ client, client ≠ .code → ∀ page, (s'.dirtyMemory client).bits page =
        (decide (addr / targetPageSize ≤ page ∧
          page < addr / targetPageSize + (accessLen + targetPageSize - 1) / targetPageSize) ||
            (s.dirtyMemory client).bits page) := by
  induction fuel generalizing addr accessLen s with
  | zero =>
    obtain rfl : accessLen = 0 := by omega
    refine ⟨s, rfl, fun client _ page => ?_⟩
    rw [decide_eq_false (by rw [targetPageSize]; omega), Bool.false_or]
  | succ fuel ih =>
    cases accessLen with
    | zero =>
      refine ⟨s, rfl, fun client _ page => ?_⟩
      rw [decide_eq_false (by rw [targetPageSize]; omega), Bool.false_or]
    | succ n =>
      obtain ⟨l, hl⟩ : ∃ l, l = min targetPageSize (n + 1) := ⟨_, rfl⟩
      have hsize : targetPageSize = 4096 := rfl
      obtain ⟨s₁, hstep, hnbits, hbits⟩ := @invalidateAndSetDirty_eq tb s addr
        (by omega) (fun client => by have := hpages client; rw [hsize] at this ⊢; omega) l
      obtain ⟨s', hrest, hbits'⟩ := @ih s₁ ((addr + l) % 2 ^ 64) (n + 1 - l) (by omega) (by omega)
        (fun client => by have := hpages client; rw [hnbits]; omega)
      refine ⟨s', ?_, fun client hclient page => ?_⟩
      · rw [unmapLoop_succ, ← hl, hstep, Option.bind_some, hrest]
      have hpage : ((addr + l) % 2 ^ 64 / targetPageSize ≤ page ∧ page < (addr + l) % 2 ^ 64 /
            targetPageSize + (n + 1 - l + targetPageSize - 1) / targetPageSize) ∨
          page = addr / targetPageSize ↔ addr / targetPageSize ≤ page ∧
            page < addr / targetPageSize + (n + 1 + targetPageSize - 1) / targetPageSize := by
        rw [hsize] at haddr hl ⊢
        omega
      rw [hbits' client hclient, hbits client hclient, ← Bool.or_assoc, ← Bool.decide_or]
      exact congrArg (· || _) (decide_eq_decide.mpr hpage)
end

/-- After a mapping for writing is unmapped, the pages of all written bytes have the flags for
VGA and migration exactly if no byte was written, or the steps of the loop, counted from the
start of the first page, reach behind the last byte, or the last page had both flags
before. -/
theorem addressSpaceUnmap_dirty_iff (tb : TbInvalidate) {s : RamList} (hvalid : s.Valid)
    (hhosts : HostsValid s) {addr size buffer len accessLen : Nat} (haddr : addr + size < 2 ^ 64)
    (hmap : qemuRamPtrLength addr size s = some (buffer, len)) (haccess : accessLen ≤ len) :
    ∃ s', addressSpaceUnmap tb buffer true accessLen s = some s' ∧
      ((∀ a, addr ≤ a → a < addr + accessLen →
          (s'.dirtyMemory .vga).bits (a / targetPageSize) = true ∧
            (s'.dirtyMemory .migration).bits (a / targetPageSize) = true) ↔
        accessLen = 0 ∨
        addr % targetPageSize + accessLen ≤
          (accessLen + targetPageSize - 1) / targetPageSize * targetPageSize ∨
        (s.dirtyMemory .vga).bits ((addr + accessLen - 1) / targetPageSize) = true ∧
          (s.dirtyMemory .migration).bits ((addr + accessLen - 1) / targetPageSize) = true) := by
  obtain ⟨hback, b, hb, hle, hend⟩ :=
    qemuRamAddrFromHost_qemuRamPtrLength hvalid.blocks hhosts haddr hmap
  have hbound := hvalid.blocks.block b hb
  have hlast := last_le_lastRamOffset hb
  rw [hvalid.blocks.last_eq hb] at hlast
  have hcovers := hvalid.covers
  simp only [targetPageSize] at hbound hcovers ⊢
  obtain ⟨s', hrun, hbits⟩ := @unmapLoop_eq tb s addr accessLen accessLen le_rfl
    (by rw [targetPageSize]; omega)
    (fun client => by have := hcovers client; rw [targetPageSize]; omega)
  rw [targetPageSize] at hbits
  refine ⟨s', ?_, ?_⟩
  · rw [addressSpaceUnmap, hback, Option.bind_some, if_pos rfl, hrun]
  have hvga := hbits .vga (by decide)
  have hmigration := hbits .migration (by decide)
  constructor
  · intro h
    by_contra hnot
    simp only [not_or] at hnot
    obtain ⟨hzero, hcrosses, hclean⟩ := hnot
    obtain ⟨h1, h2⟩ := h (addr + accessLen - 1) (by omega) (by omega)
    refine hclean ⟨?_, ?_⟩
    · rwa [hvga, decide_eq_false (by omega), Bool.false_or] at h1
    · rwa [hmigration, decide_eq_false (by omega), Bool.false_or] at h2
  · intro h a hstart hlt
    rw [hvga, hmigration]
    by_cases hmarked : addr / 4096 ≤ a / 4096 ∧
        a / 4096 < addr / 4096 + (accessLen + 4096 - 1) / 4096
    · rw [decide_eq_true hmarked]
      exact ⟨rfl, rfl⟩
    rcases h with hzero | hfits | hdirty
    · omega
    · omega
    · have hpage : a / 4096 = (addr + accessLen - 1) / 4096 := by omega
      rw [hpage, hdirty.1, hdirty.2, Bool.or_true]
      exact ⟨rfl, rfl⟩

def cleanRam : RamList :=
  { blocks := [⟨0, 0x2000, 0x10000⟩]
    mruBlock := none
    dirtyMemory := fun _ => ⟨64, fun _ => false⟩ }

def keepCode : TbInvalidate :=
  { run := fun _ _ s => s
    blocks := fun _ _ _ => rfl
    nbits := fun _ _ _ _ => rfl
    bits := fun _ _ _ _ _ => rfl }

lemma cleanRam_valid : cleanRam.Valid ∧ HostsValid cleanRam := by
  refine ⟨⟨⟨by decide, by decide, by decide⟩, fun client => by cases client <;> decide⟩, by decide, by decide, nofun⟩

/-- A page that is written from its start is marked. -/
theorem addressSpaceUnmap_dirty_iff_aligned :
    ∃ s', addressSpaceUnmap keepCode 0x10000 true 0x1000 cleanRam = some s' ∧
      (s'.dirtyMemory .vga).bits 0 = true ∧ (s'.dirtyMemory .migration).bits 0 = true := by
  obtain ⟨s', hrun, hiff⟩ := addressSpaceUnmap_dirty_iff keepCode cleanRam_valid.1 cleanRam_valid.2
    (by decide : 0 + 0x2000 < 2 ^ 64)
    (by decide : qemuRamPtrLength 0 0x2000 cleanRam = some (0x10000, 0x2000))
    (by decide : 0x1000 ≤ 0x2000)
  exact ⟨s', hrun, hiff.mpr (.inr (.inl (by decide))) 0 (by decide) (by decide)⟩

/-- Two bytes around a page boundary: the mapping starts at the last byte of the first page, and
the second page is not marked. -/
theorem addressSpaceUnmap_misses_page :
    ∃ s', qemuRamPtrLength 0xfff 2 cleanRam = some (0x10fff, 2) ∧
      addressSpaceUnmap keepCode 0x10fff true 2 cleanRam = some s' ∧
      (s'.dirtyMemory .migration).bits 0 = true ∧ (s'.dirtyMemory .migration).bits 1 = false ∧
      (s'.dirtyMemory .vga).bits 1 = false := by
  let s' := (addressSpaceUnmap keepCode 0x10fff true 2 cleanRam).get (by decide)
  exact ⟨s', by decide, (Option.some_get _).symm, by decide, by decide, by decide⟩

end QemuVmi.Exec
