import QemuVmi.Kvm.PhysMem

/-!
# Dirty logging of the slots

The calls of `kvm-all.c` that start and stop dirty logging, of a slot or of all, and what they pass
to the kernel with `KVM_SET_USER_MEMORY_REGION`. The kernel answers 0 or an error, by all that it was
passed (`accepts`); every error ends in `abort` or in a failed assertion, `none`.

`kvm_set_migration_log` leaves out the slots whose own flag is the one asked for. At the end of a
migration these are the slots that do not log themselves, and the kernel goes on logging them.
-/

namespace QemuVmi.Kvm

open List Option

/-- `struct kvm_userspace_memory_region` -/
structure UserspaceMemoryRegion where
  slot : Nat
  flags : MemFlags
  guestPhysAddr : Nat
  memorySize : Nat
  userspaceAddr : Nat

structure LogState where
  slots : List KVMSlot
  migrationLog : Bool
  /-- What the kernel was passed, the last first. -/
  passed : List UserspaceMemoryRegion

section
variable (accepts : List UserspaceMemoryRegion → Bool) (s : LogState)

/-- The flags of a slot with those of the migration. -/
def LogState.effective (flags : MemFlags) : MemFlags :=
  { flags with logDirty := flags.logDirty || s.migrationLog }

def kvmSetUserMemoryRegion (i : Nat) (slot : KVMSlot) : Option LogState :=
  let flags := s.effective slot.flags
  let mem := fun size => ⟨i, flags, slot.startAddr, size, slot.ram⟩
  -- what the kernel says to a size of 0 is not looked at
  let passed := if slot.memorySize ≠ 0 ∧ flags.readonly then mem 0 :: s.passed else s.passed
  let passed := mem slot.memorySize :: passed
  if accepts passed then some { s with passed } else none

/-- `kvm_slot_dirty_pages_log_change` of slot `i`, with the ioctl. -/
def slotDirtyPagesLogChange (i : Nat) (mem : KVMSlot) (logDirty : Bool) : Option LogState :=
  let new := kvmSlotDirtyPagesLogChange mem logDirty
  let s := { s with slots := s.slots.set i new }
  if s.effective new.flags = mem.flags then some s else kvmSetUserMemoryRegion accepts s i new

/-- `kvm_lookup_matching_slot`: the number of the slot. -/
def kvmLookupMatchingSlot (slots : List KVMSlot) (startAddr endAddr : Nat) : Option Nat :=
  slots.findIdx? fun mem =>
    startAddr = mem.startAddr ∧ endAddr = addAddr mem.startAddr mem.memorySize

def kvmDirtyPagesLogChange (physAddr size : Nat) (logDirty : Bool) : Option LogState := do
  let i ← kvmLookupMatchingSlot s.slots physAddr (addAddr physAddr size)
  let mem ← s.slots[i]?
  slotDirtyPagesLogChange accepts s i mem logDirty

/-- A round of the loop of `kvm_set_migration_log`, for a slot and its number. -/
def migrationLogRound (enable : Bool) (mem : KVMSlot × Nat) : Option LogState :=
  if mem.1.memorySize = 0 ∨ mem.1.flags.logDirty = enable then some s
  else kvmSetUserMemoryRegion accepts s mem.2 mem.1

def kvmSetMigrationLog (enable : Bool) : Option LogState :=
  s.slots.zipIdx.foldlM (fun s => migrationLogRound accepts s enable)
    { s with migrationLog := enable }

/-- A call of the memory listener; a section is given by its offset and size. -/
inductive LogCall
  | logStart (offset size : Nat)
  | logStop (offset size : Nat)
  | logGlobalStart
  | logGlobalStop

def LogCall.run : LogCall → Option LogState
  | logStart offset size => kvmDirtyPagesLogChange accepts s offset size true
  | logStop offset size => kvmDirtyPagesLogChange accepts s offset size false
  | logGlobalStart => kvmSetMigrationLog accepts s true
  | logGlobalStop => kvmSetMigrationLog accepts s false
end

/-- `P` holds of every call of a run that returns, with the states before and after it. -/
def Along (accepts : List UserspaceMemoryRegion → Bool) (P : LogState → LogCall → LogState → Prop) :
    LogState → List LogCall → Prop
  | _, [] => True
  | s, c :: calls => ∀ t, c.run accepts s = some t → P s c t ∧ Along accepts P t calls

/-- Is the dirty log on, in the flags last passed for slot `i`? -/
def lastLog (passed : List UserspaceMemoryRegion) (i : Nat) : Option Bool :=
  (passed.find? (·.slot = i)).map (·.flags.logDirty)

/-- The kernel logs a slot in use iff the slot itself logs or a migration does. -/
def LogState.InSync (s : LogState) : Prop :=
  ∀ i mem, s.slots[i]? = some mem → mem.memorySize ≠ 0 →
    lastLog s.passed i = some (mem.flags.logDirty || s.migrationLog)

/-- The call ends a migration's logging while a slot in use does not log itself. -/
def LogCall.Forgets (s : LogState) (c : LogCall) : Prop :=
  c = .logGlobalStop ∧ s.migrationLog = true ∧
    ∃ (i : Nat) (mem : KVMSlot), s.slots[i]? = some mem ∧ mem.memorySize ≠ 0 ∧
      mem.flags.logDirty = false

variable {accepts : List UserspaceMemoryRegion → Bool} {s t : LogState} {i : Nat} {mem : KVMSlot}
  {enable : Bool}

lemma kvmSetUserMemoryRegion_spec (h : kvmSetUserMemoryRegion accepts s i mem = some t) :
    ∃ passed, t = { s with passed } ∧ ∀ j, lastLog passed j =
      if i = j then some (mem.flags.logDirty || s.migrationLog) else lastLog s.passed j := by
  obtain ⟨-, h⟩ := ite_none_right_eq_some.mp h
  cases h
  refine ⟨_, rfl, fun j => ?_⟩
  by_cases hj : i = j
  · simp [lastLog, hj, LogState.effective]
  · simp only [lastLog, hj]
    split <;> simp [hj]

lemma LogState.InSync.set {new : KVMSlot} {passed : List UserspaceMemoryRegion} (hs : s.InSync)
    (hnew : new.memorySize ≠ 0 → lastLog passed i = some (new.flags.logDirty || s.migrationLog))
    (hother : ∀ j, i ≠ j → lastLog passed j = lastLog s.passed j) :
    InSync { s with slots := s.slots.set i new, passed } := by
  intro j mem hj hsize
  rw [getElem?_set] at hj
  split at hj
  · split at hj <;> cases hj
    subst j
    exact hnew hsize
  next hij =>
    rw [hother j hij]
    exact hs j mem hj hsize

lemma kvmDirtyPagesLogChange_inSync {physAddr size : Nat} {logDirty : Bool} (hs : s.InSync)
    (h : kvmDirtyPagesLogChange accepts s physAddr size logDirty = some t) : t.InSync := by
  obtain ⟨i, -, h⟩ := bind_eq_some_iff.mp h
  obtain ⟨mem, hmem, h⟩ := bind_eq_some_iff.mp h
  rw [slotDirtyPagesLogChange] at h
  split at h
  next hsame =>
    cases h
    refine hs.set (fun hsize => ?_) fun _ _ => rfl
    have hlog : (logDirty || s.migrationLog) = mem.flags.logDirty :=
      congrArg MemFlags.logDirty hsame
    rw [hs i mem hmem hsize, ← hlog, Bool.or_assoc, Bool.or_self]
    rfl
  · obtain ⟨passed, rfl, hlast⟩ := kvmSetUserMemoryRegion_spec h
    exact hs.set (fun _ => by simp [hlast]) fun j hj => by simp [hlast, hj]

/-- Does the loop pass something for slot `j` when it comes to this one? -/
def passes (enable : Bool) (j : Nat) (m : KVMSlot × Nat) : Bool :=
  m.2 = j && m.1.memorySize ≠ 0 && m.1.flags.logDirty ≠ enable

/-- What the loop passes for a slot has the log on: the slot's own flag or the migration's is on. -/
lemma migrationLogRounds_spec {l : List (KVMSlot × Nat)} (hs : s.migrationLog = enable)
    (h : l.foldlM (fun s => migrationLogRound accepts s enable) s = some t) :
    ∃ passed, t = { s with passed } ∧ ∀ j, lastLog passed j =
      if l.any (passes enable j) then some true else lastLog s.passed j := by
  induction l generalizing s with
  | nil => cases h; exact ⟨_, rfl, fun _ => rfl⟩
  | cons m l ih =>
    obtain ⟨u, hu, h⟩ := bind_eq_some_iff.mp h
    simp only [migrationLogRound] at hu
    split at hu
    next hskip =>
      cases hu
      have hno : ∀ j, passes enable j m = false := fun j => by
        rcases hskip with h | h <;> simp [passes, h]
      obtain ⟨passed, rfl, hrest⟩ := ih hs h
      exact ⟨passed, rfl, fun j => by rw [hrest, any_cons, hno, Bool.false_or]⟩
    next hpass =>
      obtain ⟨hsize, hlog⟩ := not_or.mp hpass
      obtain ⟨passed, rfl, hlast⟩ := kvmSetUserMemoryRegion_spec hu
      obtain ⟨passed', rfl, hrest⟩ := ih (by exact hs) h
      have hon : (m.1.flags.logDirty || s.migrationLog) = true := by
        revert hlog; rw [hs]; cases m.1.flags.logDirty <;> cases enable <;> decide
      have hthis : ∀ j, passes enable j m = decide (m.2 = j) := fun j => by
        simp [passes, hsize, hlog]
      refine ⟨passed', rfl, fun j => ?_⟩
      rw [hrest, hlast, hon, any_cons, hthis]
      cases l.any (passes enable j) <;> by_cases hj : m.2 = j <;> simp [hj]

lemma kvmSetMigrationLog_inSync (hs : s.InSync)
    (h : kvmSetMigrationLog accepts s enable = some t) :
    t.InSync ↔ ∀ (i : Nat) (mem : KVMSlot), s.slots[i]? = some mem → mem.memorySize ≠ 0 →
      enable = false → s.migrationLog = true → mem.flags.logDirty = true := by
  rw [kvmSetMigrationLog] at h
  obtain ⟨passed, rfl, hlast⟩ := migrationLogRounds_spec (by rfl) h
  refine forall₄_congr fun i mem hi hsize => ?_
  have hany : s.slots.zipIdx.any (passes enable i) = decide (mem.flags.logDirty ≠ enable) := by
    rw [Bool.eq_iff_iff]
    simp [passes, mem_zipIdx_iff_getElem?, hi, hsize]
  rw [hlast, hany, hs i mem hi hsize]
  cases mem.flags.logDirty <;> cases enable <;> cases s.migrationLog <;> simp

lemma LogCall.run_inSync {c : LogCall} (hs : s.InSync) (h : c.run accepts s = some t) :
    t.InSync ↔ ¬ c.Forgets s := by
  cases c with
  | logStart | logStop => simp [Forgets, kvmDirtyPagesLogChange_inSync hs h]
  | logGlobalStart => simp [Forgets, kvmSetMigrationLog_inSync hs h]
  | logGlobalStop =>
    rw [kvmSetMigrationLog_inSync hs h]
    grind [Forgets]

/-- Along a run the kernel logs what it should until the first call that forgets a slot. -/
theorem inSync_along_iff (hs : s.InSync) (calls : List LogCall) :
    Along accepts (fun _ _ t => t.InSync) s calls ↔
      Along accepts (fun s c _ => ¬ c.Forgets s) s calls := by
  induction calls generalizing s with
  | nil => rfl
  | cons c calls ih =>
    refine forall_congr' fun t => imp_congr_right fun hrun => ?_
    exact (and_congr_right fun ht => ih ht).trans (and_congr_left' (LogCall.run_inSync hs hrun))

/-- A slot that does not log itself, and that the kernel knows of. -/
def oneSlot : LogState :=
  ⟨[⟨0, 4096, 0, ⟨false, false⟩⟩], false, [⟨0, ⟨false, false⟩, 0, 4096, 0⟩]⟩

lemma oneSlot_inSync : oneSlot.InSync
  | 0, _, hi, _ => by cases hi; rfl

theorem inSync_along_iff_oneSlot :
    Along (fun _ => true) (fun _ _ t => t.InSync) oneSlot [.logStart 0 4096, .logGlobalStart] :=
  (inSync_along_iff oneSlot_inSync _).mpr fun _ _ => ⟨nofun, fun _ _ => ⟨nofun, trivial⟩⟩

theorem oneSlot_forgotten : oneSlot.InSync ∧
    ¬ Along (fun _ => true) (fun _ _ t => t.InSync) oneSlot [.logGlobalStart, .logGlobalStop] := by
  refine ⟨oneSlot_inSync, fun h => ?_⟩
  have hstop := ((h _ rfl).2 _ rfl).1 0 _ rfl (by decide)
  exact absurd hstop (by decide)

end QemuVmi.Kvm
