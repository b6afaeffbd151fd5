import QemuVmi.Exec.RamBlocks

/-!
# Slots of KVM

`kvm_set_phys_mem` of `kvm-all.c` with the table of slots that it keeps: `kvm_alloc_slot`,
`kvm_lookup_overlapping_slot` and `kvm_slot_dirty_pages_log_change`. The kernel accepts what it is told,
so what is told to it is left out, as is the dirty bitmap. Guest addresses are 64 bits wide and wrap
around; host memory does not. `none` stands for `abort`.
-/

namespace QemuVmi.Kvm

open Exec

/-- `KVM_MEM_LOG_DIRTY_PAGES` and `KVM_MEM_READONLY` -/
structure MemFlags where
  logDirty : Bool
  readonly : Bool
deriving DecidableEq, Repr

structure KVMSlot where
  startAddr : Nat
  memorySize : Nat
  ram : Nat
  flags : MemFlags
deriving DecidableEq, Repr

structure KVMState where
  slots : List KVMSlot
  brokenSetMemRegion : Bool
  readonlyMemAllowed : Bool
deriving DecidableEq, Repr

/-- A `MemoryRegionSection` with what is read of its region. -/
structure Section where
  offsetWithinAddressSpace : Nat
  size : Nat
  /-- `memory_region_get_ram_ptr(mr) + section->offset_within_region` -/
  ram : Nat
  isRam : Bool
  readonly : Bool
  romDevice : Bool
  romdMode : Bool
  isLogging : Bool
deriving DecidableEq, Repr

def addAddr (a b : Nat) : Nat := (a + b) % 2 ^ 64

/-- `kvm_alloc_slot` and the assignments to the slot. -/
def registerSlot (slots : List KVMSlot) (slot : KVMSlot) : Option (List KVMSlot) :=
  (slots.findIdx? fun mem => mem.memorySize = 0).map fun i => slots.set i slot

def registerSlotIf (c : Prop) [Decidable c] (slots : List KVMSlot) (slot : KVMSlot) :
    Option (List KVMSlot) := if c then registerSlot slots slot else some slots

/-- The loop of `kvm_lookup_overlapping_slot` from a slot on. -/
def lookupFrom (startAddr endAddr : Nat) :
    List KVMSlot → Nat → Option (Nat × KVMSlot) → Option (Nat × KVMSlot)
  | [], _, found => found
  | mem :: slots, i, found =>
    if mem.memorySize = 0 ∨ found.any fun f => f.2.startAddr < mem.startAddr then
      lookupFrom startAddr endAddr slots (i + 1) found
    else if endAddr > mem.startAddr ∧ startAddr < addAddr mem.startAddr mem.memorySize then
      lookupFrom startAddr endAddr slots (i + 1) (some (i, mem))
    else lookupFrom startAddr endAddr slots (i + 1) found

/-- `kvm_lookup_overlapping_slot`: the number of the slot, and the slot. -/
def kvmLookupOverlappingSlot (slots : List KVMSlot) (startAddr endAddr : Nat) :
    Option (Nat × KVMSlot) := lookupFrom startAddr endAddr slots 0 none

def kvmMemFlags (s : KVMState) (logDirty readonly : Bool) : MemFlags :=
  ⟨logDirty, readonly && s.readonlyMemAllowed⟩

def kvmSlotDirtyPagesLogChange (mem : KVMSlot) (logDirty : Bool) : KVMSlot :=
  { mem with flags := { mem.flags with logDirty := logDirty } }

/-- `start_addr`, `size` and `ram`. -/
structure Range where
  startAddr : Nat
  size : Nat
  ram : Nat

/-- What a round of the loop of `kvm_set_phys_mem` comes to. -/
inductive Round
  | clear
  | returned (slots : List KVMSlot)
  | next (slots : List KVMSlot) (range : Range)

section
variable (s : KVMState) (add : Bool) (flags : MemFlags)

/-- A round of the loop. -/
def physMemRound (slots : List KVMSlot) (range : Range) : Option Round :=
  let endAddr := addAddr range.startAddr range.size
  match kvmLookupOverlappingSlot slots range.startAddr endAddr with
  | none => some .clear
  | some (i, old) =>
    let oldEnd := addAddr old.startAddr old.memorySize
    if add ∧ range.startAddr ≥ old.startAddr ∧ endAddr ≤ oldEnd ∧
        range.ram + old.startAddr = old.ram + range.startAddr then
      some (.returned (slots.set i (kvmSlotDirtyPagesLogChange old flags.logDirty)))
    else
      let slots := slots.set i { old with memorySize := 0 }
      if s.brokenSetMemRegion ∧ old.startAddr = range.startAddr ∧ old.memorySize < range.size ∧ add then do
        let slots ← registerSlot slots { old with flags := flags }
        some (.next slots ⟨addAddr range.startAddr old.memorySize, range.size - old.memorySize,
          range.ram + old.memorySize⟩)
      else do
        -- prefix slot
        let slots ← registerSlotIf (old.startAddr < range.startAddr) slots
          ⟨old.startAddr, range.startAddr - old.startAddr, old.ram, flags⟩
        -- suffix slot
        let slots ← registerSlotIf (oldEnd > endAddr) slots
          ⟨endAddr, old.memorySize - (endAddr - old.startAddr), old.ram + (endAddr - old.startAddr), flags⟩
        some (.next slots range)

/-- The loop and what comes after it. -/
def physMemLoop : Nat → List KVMSlot → Range → Option (List KVMSlot)
  | 0, _, _ => none
  | n + 1, slots, range =>
    match physMemRound s add flags slots range with
    | none => none
    | some (.returned slots) => some slots
    | some (.next slots range) => physMemLoop n slots range
    | some .clear =>
      if range.size = 0 then some slots
      else if !add then some slots
      else registerSlot slots ⟨range.startAddr, range.size, range.ram, flags⟩
end

section
variable (s : KVMState) (sec : Section)

/-- `readonly_flag`, with `kvm_mem_flags`. -/
def sectionFlags : MemFlags :=
  kvmMemFlags s sec.isLogging (sec.readonly || (sec.romDevice && sec.romdMode))

/-- The pages of a section, as `kvm_set_phys_mem` computes them; `none` if it returns. -/
def pageRange : Option Range :=
  let delta := (targetPageAlign sec.size + 2 ^ 64 - sec.size) % 2 ^ 64 % 2 ^ 32
  if delta > sec.size then none
  else
    let startAddr := addAddr sec.offsetWithinAddressSpace delta
    let size := (sec.size - delta) / targetPageSize * targetPageSize
    if size = 0 ∨ startAddr % targetPageSize ≠ 0 then none
    else some ⟨startAddr, size, sec.ram + delta⟩

/-- `kvm_set_phys_mem` for a range of pages. -/
def setRange (add : Bool) (range : Range) : Option KVMState :=
  let writeable := !sec.readonly && !sec.romDevice
  if !sec.isRam && (writeable || !s.readonlyMemAllowed) then some s
  else
    let add := add && (sec.isRam || sec.romdMode)
    (physMemLoop s add (sectionFlags s sec) (s.slots.length + 1) s.slots range).map
      fun slots => { s with slots := slots }

def kvmSetPhysMem (add : Bool) : Option KVMState :=
  (pageRange sec).elim (some s) (setRange s sec add)

/-- `kvm_region_add` and `kvm_region_del` -/
inductive Callback
  | regionAdd (sec : Section)
  | regionDel (sec : Section)

def callback : Callback → Option KVMState
  | .regionAdd sec => kvmSetPhysMem s sec true
  | .regionDel sec => kvmSetPhysMem s sec false
end

def callbacks (s : KVMState) : List Callback → Option KVMState
  | [] => some s
  | c :: cs => (callback s c).bind fun s => callbacks s cs

end QemuVmi.Kvm
