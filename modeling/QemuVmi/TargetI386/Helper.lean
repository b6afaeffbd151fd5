import QemuVmi.Lib.ByteMemory

/-!
# The debug page walk of the x86 target

`x86_cpu_get_phys_page_debug` of `target-i386/helper.c`, built for
`TARGET_X86_64`: the walk that the emulator's own debugger uses to find the
physical page of a virtual address. It covers paging off, two-level paging, PAE
paging and long mode, with the page sizes of each.

The `int` constants of the source (`~0xfff`, `page_size - 1`, `a20_mask`) are
sign-extended when they meet a 64-bit operand, and appear here extended.
-/

namespace QemuVmi.TargetI386

open ByteMemory BitVec

/-- The registers of `CPUX86State` that the walk reads. -/
structure CPUX86State where
  cr0 : BitVec 64
  cr3 : BitVec 64
  cr4 : BitVec 64
  hflags : BitVec 32
  a20Mask : BitVec 32
deriving DecidableEq, Repr

def cr0PgMask : BitVec 64 := 0x80000000#64
def cr4PseMask : BitVec 64 := 0x10#64
def cr4PaeMask : BitVec 64 := 0x20#64
def hfLmaMask : BitVec 32 := 0x4000#32
def pgPresentMask : BitVec 64 := 0x1#64
def pgPseMask : BitVec 64 := 0x80#64
def pgHiUserMask : BitVec 64 := 0x7ff0000000000000#64
def pgNxMask : BitVec 64 := 0x8000000000000000#64

/-- `TARGET_PAGE_MASK`, which is also the `~0xfff` of the source. -/
def targetPageMask : BitVec 64 := ~~~ 0xfff#64

section
variable (env : CPUX86State)

def CPUX86State.a20 : BitVec 64 := env.a20Mask.signExtend 64

/-- `entry & ~0xfff & ~(PG_NX_MASK | PG_HI_USER_MASK)`: the frame of a 64-bit
entry. -/
def frame (entry : BitVec 64) : BitVec 64 :=
  entry &&& targetPageMask &&& ~~~ (pgNxMask ||| pgHiUserMask)

/-- The address of the entry for `addr` in the table at `frame entry`, whose
entries each map `2^shift` bytes. -/
def entryAddr (entry addr : BitVec 64) (shift : Nat) : BitVec 64 :=
  (frame entry + (((addr >>> shift) &&& 0x1ff#64) <<< 3)) &&& env.a20

/-- The address of the PML4 entry for `addr`. -/
def pml4eAddr (addr : BitVec 64) : BitVec 64 :=
  ((env.cr3 &&& targetPageMask) + (((addr >>> 39) &&& 0x1ff#64) <<< 3)) &&& env.a20

/-- The value `-1` that the walk returns for an address without a page. -/
def noPage : BitVec 64 := allOnes 64

/-- The common exit: the page of `addr` inside a page of `pageSize` bytes. -/
def walkOut (addr pte pageSize : BitVec 64) : BitVec 64 :=
  (pte &&& targetPageMask) + ((addr &&& targetPageMask) &&& (pageSize - 1))

section
variable (mem : Mem)

/-- The part that PAE paging and long mode share, below the page-directory
pointer entry `pdpe`. -/
def walkPdpe (addr pdpe : BitVec 64) : BitVec 64 :=
  let pde := load64 mem (entryAddr env pdpe addr 21)
  if pde &&& pgPresentMask = 0#64 then noPage
  else
    -- a 2 MB page ends the walk at the page-directory entry
    let large := pde &&& pgPseMask ≠ 0#64
    let pageSize : BitVec 64 := if large then 0x200000#64 else 0x1000#64
    let entry :=
      if large then pde &&& ~~~ ((0x200000#64 - 1) &&& targetPageMask)
      else load64 mem (entryAddr env pde addr 12)
    let pte := entry &&& ~~~ (pgNxMask ||| pgHiUserMask)
    if pte &&& pgPresentMask = 0#64 then noPage else walkOut addr pte pageSize

section
variable (addr : BitVec 64)

/-- The long-mode walk. -/
def walkLongMode : BitVec 64 :=
  let sext := addr.sshiftRight 47
  if sext ≠ 0#64 ∧ sext ≠ -1#64 then noPage
  else
    let pml4e := load64 mem (pml4eAddr env addr)
    if pml4e &&& pgPresentMask = 0#64 then noPage
    else
      let pdpe := load64 mem (entryAddr env pml4e addr 30)
      if pdpe &&& pgPresentMask = 0#64 then noPage
      else if pdpe &&& pgPseMask ≠ 0#64 then
        let pte := pdpe &&& ~~~ ((0x40000000#64 - 1) &&& targetPageMask)
        walkOut addr (pte &&& ~~~ (pgNxMask ||| pgHiUserMask)) 0x40000000#64
      else walkPdpe env mem addr pdpe

/-- The walk of PAE paging outside long mode. -/
def walkPae : BitVec 64 :=
  let pdpe := load64 mem (((env.cr3 &&& ~~~ 0x1f#64) + ((addr >>> 27) &&& 0x18#64)) &&& env.a20)
  if pdpe &&& pgPresentMask = 0#64 then noPage else walkPdpe env mem addr pdpe

/-- The walk of two-level paging, with 4 MB pages when `CR4.PSE` is set. -/
def walkTwoLevel : BitVec 64 :=
  let pde := (load32 mem
    (((env.cr3 &&& targetPageMask) + ((addr >>> 20) &&& 0xffc#64)) &&& env.a20)).setWidth 64
  if pde &&& pgPresentMask = 0#64 then noPage
  else if pde &&& pgPseMask ≠ 0#64 ∧ env.cr4 &&& cr4PseMask ≠ 0#64 then
    walkOut addr ((pde &&& ~~~ 0x003ff000#64) &&& env.a20) 0x400000#64
  else
    let pte := (load32 mem
      (((pde &&& targetPageMask) + ((addr >>> 10) &&& 0xffc#64)) &&& env.a20)).setWidth 64
    if pte &&& pgPresentMask = 0#64 then noPage else walkOut addr (pte &&& env.a20) 0x1000#64

/-- `x86_cpu_get_phys_page_debug`: the physical address of the page of `addr`,
without the offset of `addr` in it, or `-1`. -/
def x86CpuGetPhysPageDebug : BitVec 64 :=
  if env.cr0 &&& cr0PgMask = 0#64 then walkOut addr (addr &&& env.a20) 0x1000#64
  else if env.cr4 &&& cr4PaeMask ≠ 0#64 then
    if env.hflags &&& hfLmaMask ≠ 0#32 then walkLongMode env mem addr else walkPae env mem addr
  else walkTwoLevel env mem addr
end

end
end

section
variable (env : CPUX86State) (mem : Mem) (addr : BitVec 64)

/-- The PML4 entry that the walk of `addr` loads. -/
def pml4eOf : BitVec 64 := load64 mem (pml4eAddr env addr)

/-- The page-directory-pointer entry that the walk of `addr` loads. -/
def pdpeOf : BitVec 64 := load64 mem (entryAddr env (pml4eOf env mem addr) addr 30)

/-- The page-directory entry that the walk of `addr` loads unless it ends at a
1 GB page. -/
def pdeOf : BitVec 64 := load64 mem (entryAddr env (pdpeOf env mem addr) addr 21)

/-- The page-table entry that the walk of `addr` loads when it ends at a 4 KB
page. -/
def pteOf : BitVec 64 := load64 mem (entryAddr env (pdeOf env mem addr) addr 12)

/-- The size of the page that ends a long-mode walk. -/
inductive Leaf
  | page4K
  | page2M
  | page1G
deriving DecidableEq, Repr

/-- Where the walk of `addr` ends. -/
def leafOf : Leaf :=
  if pdpeOf env mem addr &&& pgPseMask ≠ 0#64 then .page1G
  else if pdeOf env mem addr &&& pgPseMask ≠ 0#64 then .page2M
  else .page4K

/-- The long-mode walk maps the canonical address `addr`, with the A20 line on
and with every table and page frame below `2^46`. The frame of a large page is
below `2^46` exactly when the frame field of its entry is. -/
structure LongModeMaps : Prop where
  paging : env.cr0 &&& cr0PgMask ≠ 0#64
  pae : env.cr4 &&& cr4PaeMask ≠ 0#64
  longMode : env.hflags &&& hfLmaMask ≠ 0#32
  a20 : env.a20Mask = allOnes 32
  canonical : addr.sshiftRight 47 = 0#64 ∨ addr.sshiftRight 47 = -1#64
  mapped : x86CpuGetPhysPageDebug env mem addr ≠ noPage
  root_lt : (env.cr3 &&& targetPageMask).toNat < 2 ^ 46
  pml4e_lt : (frame (pml4eOf env mem addr)).toNat < 2 ^ 46
  pdpe_lt : (frame (pdpeOf env mem addr)).toNat < 2 ^ 46
  pde_lt : leafOf env mem addr ≠ .page1G → (frame (pdeOf env mem addr)).toNat < 2 ^ 46
  pte_lt : leafOf env mem addr = .page4K → (frame (pteOf env mem addr)).toNat < 2 ^ 46

/-- The page address that a walk ending at a page of the given size computes. -/
def leafPage : Leaf → BitVec 64
  | .page4K => frame (pteOf env mem addr)
  | .page2M => (frame (pdeOf env mem addr) &&& ~~~ 0x1fffff#64) + (addr &&& 0x1ff000#64)
  | .page1G => (frame (pdpeOf env mem addr) &&& ~~~ 0x3fffffff#64) + (addr &&& 0x3ffff000#64)
end

section
variable {env : CPUX86State} {mem : Mem} {addr : BitVec 64}

lemma walkOut_page4K (addr pte : BitVec 64) :
    walkOut addr (pte &&& ~~~ (pgNxMask ||| pgHiUserMask)) 0x1000#64 = frame pte := by
  have hoffset : addr &&& targetPageMask &&& (0x1000#64 - 1) = 0#64 := by
    rw [BitVec.and_assoc, show targetPageMask &&& (0x1000#64 - 1) = 0#64 by decide, BitVec.and_zero]
  rw [walkOut, hoffset, BitVec.add_zero, frame, BitVec.and_assoc, BitVec.and_assoc,
    and_comm targetPageMask]

/-- The masks of a large page: clearing the frame bits below the page size and
then the low bits leaves the aligned frame. -/
lemma walkOut_large (addr entry sizeMask offsetMask : BitVec 64) (pageSize : BitVec 64)
    (hframe : ~~~ ((pageSize - 1) &&& targetPageMask) &&& ~~~ (pgNxMask ||| pgHiUserMask) &&&
      targetPageMask = targetPageMask &&& ~~~ (pgNxMask ||| pgHiUserMask) &&& ~~~ sizeMask)
    (hoffset : targetPageMask &&& (pageSize - 1) = offsetMask) :
    walkOut addr (entry &&& ~~~ ((pageSize - 1) &&& targetPageMask) &&&
      ~~~ (pgNxMask ||| pgHiUserMask)) pageSize =
    (frame entry &&& ~~~ sizeMask) + (addr &&& offsetMask) := by
  rw [walkOut, frame, and_assoc addr, hoffset]
  congr 1
  rw [and_assoc entry, and_assoc entry, and_assoc entry, hframe, and_assoc entry]

lemma ite_of_ne {c : Prop} [Decidable c] {x : BitVec 64}
    (h : (if c then noPage else x) ≠ noPage) : (if c then noPage else x) = x :=
  if_neg fun hc => h (if_pos hc)

lemma walkPdpe_eq {pdpe : BitVec 64} (h : walkPdpe env mem addr pdpe ≠ noPage) :
    walkPdpe env mem addr pdpe = let pde := load64 mem (entryAddr env pdpe addr 21)
      if pde &&& pgPseMask ≠ 0#64 then
        (frame pde &&& ~~~ 0x1fffff#64) + (addr &&& 0x1ff000#64)
      else frame (load64 mem (entryAddr env pde addr 12)) := by
  simp only [walkPdpe] at h ⊢
  have hpde := ite_of_ne h
  rw [hpde] at h ⊢
  rw [ite_of_ne h]
  by_cases hlarge : load64 mem (entryAddr env pdpe addr 21) &&& pgPseMask ≠ 0#64
  · simp only [if_pos hlarge]
    exact walkOut_large addr _ 0x1fffff#64 0x1ff000#64 0x200000#64 (by decide) (by decide)
  · simp only [if_neg hlarge]
    exact walkOut_page4K addr _

lemma x86CpuGetPhysPageDebug_eq_leafPage (h : LongModeMaps env mem addr) :
    x86CpuGetPhysPageDebug env mem addr = leafPage env mem addr (leafOf env mem addr) := by
  have hmapped := h.mapped
  have hcanon : ¬ (addr.sshiftRight 47 ≠ 0#64 ∧ addr.sshiftRight 47 ≠ -1#64) := by
    rcases h.canonical with hc | hc <;> simp [hc]
  rw [x86CpuGetPhysPageDebug, if_neg h.paging, if_pos h.pae, if_pos h.longMode] at hmapped ⊢
  simp only [walkLongMode, if_neg hcanon] at hmapped ⊢
  have hpml4e := ite_of_ne hmapped
  rw [hpml4e] at hmapped ⊢
  have hpdpe := ite_of_ne hmapped
  rw [hpdpe] at hmapped ⊢
  by_cases hgiant : pdpeOf env mem addr &&& pgPseMask ≠ 0#64
  · have hleaf : leafOf env mem addr = .page1G := if_pos hgiant
    rw [hleaf]
    exact (if_pos hgiant).trans
      (walkOut_large addr _ 0x3fffffff#64 0x3ffff000#64 0x40000000#64 (by decide) (by decide))
  have hrest : walkPdpe env mem addr (pdpeOf env mem addr) ≠ noPage := by
    intro hnone
    exact hmapped ((if_neg hgiant).trans hnone)
  refine (if_neg hgiant).trans ((walkPdpe_eq hrest).trans ?_)
  by_cases hlarge : pdeOf env mem addr &&& pgPseMask ≠ 0#64
  · have hleaf : leafOf env mem addr = .page2M := (if_neg hgiant).trans (if_pos hlarge)
    rw [hleaf]
    exact if_pos hlarge
  · have hleaf : leafOf env mem addr = .page4K := (if_neg hgiant).trans (if_neg hlarge)
    rw [hleaf]
    exact if_neg hlarge
end

end QemuVmi.TargetI386
