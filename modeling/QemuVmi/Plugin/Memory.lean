import QemuVmi.Lib.ByteMemory

/-!
# Address translation of the introspection plugin

`plugin/linux-x86_64.c`, `plugin/memory.h` and `plugin/memory.c`: the direct map
of the guest kernel and the plugin's own four-level page-table walk.

The plugin holds one host pointer `mem` to the guest's RAM and reads the guest
word at physical address `gpa` through `mem + gpa`. The model's memory is that
RAM as a function of the physical address, so `*(mem + gpa)` is `load64 mem gpa`. This
is the guest's word only where the RAM lies at its physical addresses: `hw/i386/pc.c`
splits it at 4 GiB for guests of 3.5 GiB or more.
-/

namespace QemuVmi.Plugin

open ByteMemory

/-- `__START_KERNEL_map`: where the kernel image is mapped. -/
def startKernelMap : BitVec 64 := 0xffffffff80000000#64

/-- `PAGE_OFFSET`: where the direct map of physical memory starts. -/
def pageOffset : BitVec 64 := 0xffff880000000000#64

/-- `__va`: convert a guest physical address to a direct-map address. -/
def va (x : BitVec 64) : BitVec 64 := x + pageOffset

/-- `virt_to_phys`: convert a kernel-map or direct-map address to a guest
physical address. The comparison stands for the carry of the subtraction. -/
def virtToPhys (x : BitVec 64) : BitVec 64 :=
  let y := x - startKernelMap
  y + (if y < x then 0 else startKernelMap - pageOffset)

def pgdirShift : Nat := 39
def pudShift : Nat := 30
def pmdShift : Nat := 21
def pageShift : Nat := 12

/-- `PTRS_PER_PGD`, `PTRS_PER_PUD`, `PTRS_PER_PMD` and `PTRS_PER_PTE` are one
number. -/
def ptrsPerTable : Nat := 512

/-- `PTE_PFN_MASK`: bits 12 to 45 of an entry, its frame. -/
def ptePfnMask : BitVec 64 := 0x00003ffffffff000#64

/-- The index into a table whose entries each map `2^shift` bytes. The four
`*_index` functions of the source are its instances. -/
def tableIndex (shift : Nat) (address : BitVec 64) : BitVec 64 :=
  (address >>> shift) &&& BitVec.ofNat 64 (ptrsPerTable - 1)

def pgdIndex : BitVec 64 → BitVec 64 := tableIndex pgdirShift
def pudIndex : BitVec 64 → BitVec 64 := tableIndex pudShift
def pmdIndex : BitVec 64 → BitVec 64 := tableIndex pmdShift
def pteIndex : BitVec 64 → BitVec 64 := tableIndex pageShift

/-- `pgd_offset`: the direct-map address of the PGD entry. -/
def pgdOffset (cr3 address : BitVec 64) : BitVec 64 := cr3 + 8 * pgdIndex address

/-- `pgd_page_vaddr`, `pud_page_vaddr` and `pmd_page_vaddr`: the direct-map
address of the table that an entry points to. -/
def pageVaddr (entry : BitVec 64) : BitVec 64 := va (entry &&& ptePfnMask)

def pudOffset (pgd address : BitVec 64) : BitVec 64 := pageVaddr pgd + pudIndex address * 8
def pmdOffset (pud address : BitVec 64) : BitVec 64 := pageVaddr pud + pmdIndex address * 8
def pteOffsetKernel (pmd address : BitVec 64) : BitVec 64 := pageVaddr pmd + pteIndex address * 8

/-- `ilog2`, which the source computes with the floating-point `log2`. Its one
call is `ilog2(PTRS_PER_PTE)`, where the two agree. -/
def ilog2 (v : Nat) : Nat := v.log2

def pteShift : Nat := ilog2 ptrsPerTable

def pageLevelShift (level : Nat) : Nat := (pageShift - pteShift) + level * pteShift
def pageLevelSize (level : Nat) : BitVec 64 := 1#64 <<< pageLevelShift level
def pageLevelMask (level : Nat) : BitVec 64 := ~~~ (pageLevelSize level - 1)

/-- `pte_pfn`: the frame number of a page-table entry. -/
def ptePfn (pte : BitVec 64) : BitVec 64 := (pte &&& ptePfnMask) >>> pageShift

/-- `trans_addr`: translate the guest virtual address `addr` in the address
space of `cr3`. It tests neither the present bit nor the page-size bit of any
entry. -/
def transAddr (mem : Mem) (addr cr3 : BitVec 64) : BitVec 64 :=
  let pgd := load64 mem (virtToPhys (pgdOffset cr3 addr))
  let pud := load64 mem (virtToPhys (pudOffset pgd addr))
  let pmd := load64 mem (virtToPhys (pmdOffset pud addr))
  let pte := load64 mem (virtToPhys (pteOffsetKernel pmd addr))
  let pageMask := pageLevelMask 1
  let physAddr := ptePfn pte <<< pageShift
  let offset := addr &&& ~~~ pageMask
  physAddr ||| offset

lemma toNat_pageOffset : pageOffset.toNat = 0xffff880000000000 := by decide
lemma toNat_startKernelMap : startKernelMap.toNat = 0xffffffff80000000 := by decide

/-- The direct map is undone by `virt_to_phys` for every physical address below
`2^46`. The sum stays below the kernel map, so the subtraction borrows. -/
lemma virtToPhys_va {x : BitVec 64} (hx : x.toNat < 2 ^ 46) : virtToPhys (va x) = x := by
  have hva : (va x).toNat = x.toNat + 0xffff880000000000 := by
    rw [va, BitVec.toNat_add, toNat_pageOffset]
    omega
  have hborrow : ¬ va x - startKernelMap < va x := by
    rw [BitVec.lt_def, BitVec.toNat_sub, hva, toNat_startKernelMap]
    omega
  rw [virtToPhys, if_neg hborrow, va]
  grind

end QemuVmi.Plugin
