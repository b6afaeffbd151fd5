import QemuVmi.Lib.WordBits
import QemuVmi.Plugin.Memory
import QemuVmi.TargetI386.Helper

/-!
# The plugin's walk against the emulator's walk

`trans_addr` and `x86_cpu_get_phys_page_debug` walk the same tables. The plugin
goes through the direct map at each level (`virtToPhys_va`), keeps 34 frame bits
of an entry where the emulator keeps 40, and always walks four levels: it has no
test of the page-size bit, so it reads the data of a large page as a table.

Results:
1. `transAddr_eq_walk_iff`: on every address that the long-mode walk maps,
   `trans_addr` returns the walk's address exactly when the walk ends at a 4 KB
   page, or the data of the large page happens to name the right frame.
-/

namespace QemuVmi.Plugin

open ByteMemory WordBits QemuVmi.TargetI386 BitVec

lemma toNat_tableIndex_mul_eight (shift : Nat) (address : BitVec 64) :
    (tableIndex shift address * 8).toNat < 2 ^ 12 := by
  have hindex : (tableIndex shift address).toNat = (address >>> shift).toNat % 2 ^ 9 :=
    toNat_and_lowMask (n := 9) _ (by decide)
  rw [toNat_mul, hindex, show (8 : BitVec 64).toNat = 8 by decide]
  omega

lemma shiftLeft_three_eq (shift : Nat) (address : BitVec 64) :
    ((address >>> shift) &&& 0x1ff#64) <<< 3 = tableIndex shift address * 8 := by
  rw [shiftLeft_eq_mul_twoPow]
  rfl

lemma virtToPhys_entry {table : BitVec 64} (haligned : table &&& lowMask 12 = 0#64)
    (hlt : table.toNat < 2 ^ 46) (shift : Nat) (address : BitVec 64) :
    virtToPhys (va table + tableIndex shift address * 8) =
      table + tableIndex shift address * 8 := by
  have hsum : va table + tableIndex shift address * 8 =
      va (table + tableIndex shift address * 8) := by
    rw [va, va, add_assoc, add_comm pageOffset, add_assoc]
  rw [hsum]
  exact virtToPhys_va (toNat_add_lt_of_aligned (by decide) (by decide) haligned hlt
    (toNat_tableIndex_mul_eight shift address))

lemma and_aligned {x mask : BitVec 64} (hmask : mask &&& lowMask 12 = 0#64) :
    (x &&& mask) &&& lowMask 12 = 0#64 := by
  rw [BitVec.and_assoc, hmask, BitVec.and_zero]

lemma pfn_aligned (entry : BitVec 64) : (entry &&& ptePfnMask) &&& lowMask 12 = 0#64 :=
  and_aligned (by decide)

lemma pfn_lt (entry : BitVec 64) : (entry &&& ptePfnMask).toNat < 2 ^ 46 := by
  have hle : (entry &&& ptePfnMask).toNat ≤ ptePfnMask.toNat := by
    rw [toNat_and]
    exact Nat.and_le_right
  have hmask : ptePfnMask.toNat = 0x00003ffffffff000 := by decide
  omega

lemma pfn_eq_frame {entry : BitVec 64} (h : (frame entry).toNat < 2 ^ 46) :
    entry &&& ptePfnMask = frame entry := by
  have hmask : ptePfnMask = targetPageMask &&& ~~~ (pgNxMask ||| pgHiUserMask) &&& lowMask 46 := by
    decide
  have hlow := and_lowMask_of_lt (by decide) h
  rw [frame, BitVec.and_assoc, BitVec.and_assoc] at hlow
  rw [hmask, BitVec.and_assoc targetPageMask, hlow, frame, BitVec.and_assoc]

/-- The last entry that the plugin reads below the page-directory entry `pmd`. -/
def lastEntry (mem : Mem) (pmd addr : BitVec 64) : BitVec 64 :=
  load64 mem ((pmd &&& ptePfnMask) + pteIndex addr * 8)

/-- `trans_addr` in physical addresses: three table reads through the frames
that `PTE_PFN_MASK` selects, then the frame of the fourth entry. -/
lemma transAddr_eq (mem : Mem) (addr : BitVec 64) {root : BitVec 64}
    (haligned : root &&& lowMask 12 = 0#64) (hroot : root.toNat < 2 ^ 46) :
    transAddr mem addr (va root) = let pgd := load64 mem (root + pgdIndex addr * 8)
      let pud := load64 mem ((pgd &&& ptePfnMask) + pudIndex addr * 8)
      let pmd := load64 mem ((pud &&& ptePfnMask) + pmdIndex addr * 8)
      (lastEntry mem pmd addr &&& ptePfnMask) ||| (addr &&& lowMask 12) := by
  have hentry : ∀ entry shift, virtToPhys (pageVaddr entry + tableIndex shift addr * 8) =
      (entry &&& ptePfnMask) + tableIndex shift addr * 8 := fun entry shift =>
    virtToPhys_entry (pfn_aligned entry) (pfn_lt entry) shift addr
  have hpgd : virtToPhys (pgdOffset (va root) addr) = root + pgdIndex addr * 8 := by
    rw [pgdOffset, mul_comm]
    exact virtToPhys_entry haligned hroot _ _
  have hpfn : ∀ pte, ptePfn pte <<< pageShift = pte &&& ptePfnMask := by
    intro pte
    exact shiftRight_shiftLeft_of_aligned (by decide) (pfn_aligned pte)
  have hmask : ~~~ pageLevelMask 1 = lowMask 12 := by decide
  simp only [transAddr, hpgd, pudOffset, pmdOffset, pteOffsetKernel, pudIndex, pmdIndex, pteIndex,
    hentry, hpfn, hmask, lastEntry]

section
variable {env : CPUX86State} {mem : Mem} {addr : BitVec 64}

lemma entryAddr_eq (ha20 : env.a20Mask = allOnes 32) (entry addr : BitVec 64)
    (shift : Nat) : entryAddr env entry addr shift = frame entry + tableIndex shift addr * 8 := by
  have hmask : env.a20 = allOnes 64 := by
    rw [CPUX86State.a20, ha20]
    decide
  rw [entryAddr, hmask, and_allOnes, shiftLeft_three_eq]

lemma pml4eAddr_eq (ha20 : env.a20Mask = allOnes 32) (addr : BitVec 64) :
    pml4eAddr env addr = (env.cr3 &&& targetPageMask) + pgdIndex addr * 8 := by
  have hmask : env.a20 = allOnes 64 := by
    rw [CPUX86State.a20, ha20]
    decide
  rw [pml4eAddr, hmask, and_allOnes, shiftLeft_three_eq]
  rfl

lemma transAddr_eq_of_maps (h : LongModeMaps env mem addr) :
    transAddr mem addr (va (env.cr3 &&& targetPageMask)) =
      (lastEntry mem (pdeOf env mem addr) addr &&& ptePfnMask) ||| (addr &&& lowMask 12) := by
  have hroot : (env.cr3 &&& targetPageMask) &&& lowMask 12 = 0#64 := and_aligned (by decide)
  have hpgd : load64 mem ((env.cr3 &&& targetPageMask) + pgdIndex addr * 8) =
      pml4eOf env mem addr := by
    rw [pml4eOf, pml4eAddr_eq h.a20]
  have hpud : load64 mem ((pml4eOf env mem addr &&& ptePfnMask) + pudIndex addr * 8) =
      pdpeOf env mem addr := by
    rw [pfn_eq_frame h.pml4e_lt, pdpeOf, entryAddr_eq h.a20]
    rfl
  have hpmd : load64 mem ((pdpeOf env mem addr &&& ptePfnMask) + pmdIndex addr * 8) =
      pdeOf env mem addr := by
    rw [pfn_eq_frame h.pdpe_lt, pdeOf, entryAddr_eq h.a20]
    rfl
  rw [transAddr_eq mem addr hroot h.root_lt]
  simp only [hpgd, hpud, hpmd]

lemma lastEntry_page4K (h : LongModeMaps env mem addr) (hleaf : leafOf env mem addr = .page4K) :
    lastEntry mem (pdeOf env mem addr) addr &&& ptePfnMask = leafPage env mem addr .page4K := by
  have hpde := h.pde_lt (by rw [hleaf]; decide)
  have hpte : lastEntry mem (pdeOf env mem addr) addr = pteOf env mem addr := by
    rw [lastEntry, pfn_eq_frame hpde, pteOf, entryAddr_eq h.a20]
    rfl
  rw [hpte, pfn_eq_frame (h.pte_lt hleaf), leafPage]

end

/-- When `trans_addr` is right about an address that the long-mode walk maps.
Below a 4 KB page it always is. A large page it takes for a table: the word of
the page's own data that it finds there (for a 1 GB page, after one more such
step) would have to name the 4 KB frame of the address. -/
def TransAddrRight (env : CPUX86State) (mem : Mem) (addr : BitVec 64) : Prop :=
  match leafOf env mem addr with
  | .page4K => True
  | .page2M =>
      load64 mem ((pdeOf env mem addr &&& ptePfnMask) + pteIndex addr * 8) &&& ptePfnMask =
        leafPage env mem addr .page2M
  | .page1G =>
      let word := load64 mem ((pdpeOf env mem addr &&& ptePfnMask) + pmdIndex addr * 8)
      load64 mem ((word &&& ptePfnMask) + pteIndex addr * 8) &&& ptePfnMask =
        leafPage env mem addr .page1G

/-- On every canonical address that the long-mode walk maps, and with the root
handed over as a direct-map address, `trans_addr` returns the walk's page plus
the page offset exactly when `TransAddrRight` holds. -/
theorem transAddr_eq_walk_iff {env : CPUX86State} {mem : Mem} {addr cr3 : BitVec 64}
    (h : LongModeMaps env mem addr) (hcr3 : cr3 = pageOffset + (env.cr3 &&& targetPageMask)) :
    transAddr mem addr cr3 = x86CpuGetPhysPageDebug env mem addr + (addr &&& 0xfff#64) ↔
      TransAddrRight env mem addr := by
  have hva : cr3 = va (env.cr3 &&& targetPageMask) := by rw [hcr3, va, add_comm]
  have hoffset : (addr &&& 0xfff#64) &&& lowMask 12 = addr &&& 0xfff#64 := by
    rw [BitVec.and_assoc]
    rfl
  -- both sides are a frame and the same offset, so the frames decide
  rw [hva, transAddr_eq_of_maps h, x86CpuGetPhysPageDebug_eq_leafPage h]
  refine (or_inj_of_low (pfn_aligned _) hoffset).trans ?_
  cases hleaf : leafOf env mem addr with
  | page4K =>
    simp only [TransAddrRight, hleaf, iff_true]
    exact lastEntry_page4K h hleaf
  | page2M =>
    simp only [TransAddrRight, hleaf]
    rfl
  | page1G =>
    simp only [TransAddrRight, hleaf]
    rw [pfn_eq_frame h.pdpe_lt, pdeOf, entryAddr_eq h.a20]
    rfl

/-- Long mode with the PML4 at `0x1000`. -/
def exEnv : CPUX86State :=
  { cr0 := cr0PgMask, cr3 := 0x1000#64, cr4 := cr4PaeMask, hflags := hfLmaMask,
    a20Mask := allOnes 32 }

/-- Tables at `0x1000`, `0x2000` and `0x3000` whose first directory entry is
`pde`, and a page table at `0x4000` that maps the second page to `0x7000`. -/
def exMem (pde : BitVec 64) : Mem :=
  store64 (store64 (store64 (store64 (fun _ => 0#8) 0x1000#64 0x2001#64) 0x2000#64 0x3001#64)
    0x3000#64 pde) 0x4008#64 0x7001#64

lemma exMem_maps4K : LongModeMaps exEnv (exMem 0x4001#64) 0x1234#64 := by constructor <;> decide

lemma exMem_maps2M : LongModeMaps exEnv (exMem 0x200081#64) 0x1234#64 := by constructor <;> decide

/-- The two walks agree on the 4 KB page of `exMem`. -/
theorem transAddr_eq_walk_iff_page4K :
    transAddr (exMem 0x4001#64) 0x1234#64 0xffff880000001000#64 =
      x86CpuGetPhysPageDebug exEnv (exMem 0x4001#64) 0x1234#64 + (0x1234#64 &&& 0xfff#64) :=
  (transAddr_eq_walk_iff exMem_maps4K (by decide)).mpr (by
    have hleaf : leafOf exEnv (exMem 0x4001#64) 0x1234#64 = .page4K := by decide
    simp only [TransAddrRight, hleaf])

/-- The walk maps `0x1234` to `0x201234` through a 2 MB page, and `trans_addr`
reads the page's data, all zero, as a page table and returns `0x234`. -/
theorem transAddr_large_page_wrong : LongModeMaps exEnv (exMem 0x200081#64) 0x1234#64 ∧
    x86CpuGetPhysPageDebug exEnv (exMem 0x200081#64) 0x1234#64 + (0x1234#64 &&& 0xfff#64) =
      0x201234#64 ∧
    transAddr (exMem 0x200081#64) 0x1234#64
      (pageOffset + (exEnv.cr3 &&& targetPageMask)) = 0x234#64 :=
  ⟨exMem_maps2M, by decide, by decide +kernel⟩

end QemuVmi.Plugin
