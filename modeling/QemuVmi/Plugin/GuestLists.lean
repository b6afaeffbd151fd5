import QemuVmi.Lib.WhileLoop
import QemuVmi.Plugin.Memory

/-!
# Lists of the guest kernel

The introspection commands that follow a list of the guest: `traverse_tasks`
(`plugin/tasks.c`), `traverse_modules` (`plugin/module.c`), `getBuffers`
(`plugin/mem_usage.c`) and `print_net_device` (`plugin/net.c`). Each of them goes
from link to link until it meets the head of the list again, and none of them
counts its steps or remembers where it has been. The links are the guest's.

The entries that the commands collect are modelled with what is read of them. The
freeing of the task list in `traverse_modules` is not. The memory of the model has no
end, and a name no bound: `taskOk`, `moduleOk`, `bufferOk` and `deviceOk` say when all
that is read of an entry is in the guest's RAM and its name fits into the buffer.

Results:
1. `introspection_returns_iff`: inside of the RAM, a command returns exactly when its
   list comes back to its head.
2. `introspection_hangs`: lists that do not.
-/

namespace QemuVmi.Plugin

open ByteMemory WhileLoop Function Option List Nat

/-- The state of a loop over a guest list: the address of the next link, and what
the loop has collected. -/
structure Walk (σ : Type) where
  cursor : BitVec 64
  acc : σ

/-- One iteration: visit the link at the cursor and go to its successor. -/
def Walk.step {σ : Type} (next : BitVec 64 → BitVec 64) (visit : BitVec 64 → σ → σ)
    (w : Walk σ) : Walk σ :=
  { cursor := next w.cursor, acc := visit w.cursor w.acc }

/-- The loop that the four commands share: go on until the cursor is the head. -/
def walkList {σ : Type} (head : BitVec 64) (next : BitVec 64 → BitVec 64)
    (visit : BitVec 64 → σ → σ) (fuel : Nat) (w : Walk σ) : Option σ :=
  (whileLoop (fun w => decide (w.cursor ≠ head)) (Walk.step next visit) fuel w).map Walk.acc

/-- The bytes of the C string at `a`, up to its NUL. -/
def cString (mem : Mem) : Nat → BitVec 64 → List (BitVec 8)
  | 0, _ => []
  | n + 1, a => if mem a = 0#8 then [] else mem a :: cString mem n (a + 1)

section
variable (mem : Mem)

/-- `sprintf` with `%s` stops at the NUL only: no string is longer than the
address space. -/
def stringAt (a : BitVec 64) : List (BitVec 8) := cString mem (2 ^ 64) a

/-- The pieces of memory, by address and length, lie in a RAM of `ram` bytes. -/
def inRam (ram : Nat) (reads : List (BitVec 64 × Nat)) : Bool :=
  reads.all fun r => r.1.toNat + r.2 ≤ ram

/-- What is read of the string at `a`. -/
def stringRead (a : BitVec 64) : BitVec 64 × Nat := (a, (stringAt mem a).length + 1)

def initTaskGva : BitVec 64 := 0xffffffff81c14440#64

def taskPidOffset : BitVec 64 := 732#64
def taskCommOffset : BitVec 64 := 1184#64
def taskTasksOffset : BitVec 64 := 616#64
def taskMmOffset : BitVec 64 := 672#64
def mmPgdOffset : BitVec 64 := 64#64

/-- `struct task`. -/
structure Task where
  pid : BitVec 32
  name : List (BitVec 8)
  cr3 : BitVec 64
deriving DecidableEq, Repr

/-- `cr3` of the task at `base`: its `mm->pgd`, and 0 for a kernel thread. -/
def taskCr3 (base : BitVec 64) : BitVec 64 :=
  let mmBase := load64 mem (base + taskMmOffset)
  if mmBase ≠ 0#64 then load64 mem (virtToPhys mmBase + mmPgdOffset) else 0#64

section
variable (gva : BitVec 64)

/-- What `traverse_tasks` records about the `task_struct` at `gva`. -/
def taskAt : Task :=
  let base := virtToPhys gva
  { pid := load32 mem (base + taskPidOffset)
    name := stringAt mem (base + taskCommOffset)
    cr3 := taskCr3 mem base }

/-- The `task_struct` that the `tasks` link of the one at `gva` points into. -/
def nextTask : BitVec 64 :=
  load64 mem (virtToPhys gva + taskTasksOffset) - taskTasksOffset

def traverseTasks (fuel : Nat) (mem : Mem) : Option (List Task) :=
  walkList initTaskGva (nextTask mem) (fun gva tasks => tasks ++ [taskAt mem gva]) fuel
    ⟨nextTask mem initTaskGva, [taskAt mem initTaskGva]⟩

def taskNameLen : Nat := 30

/-- The pid, the link, the name and, if there is one, the `pgd` of the `mm`. -/
def taskOk (ram : Nat) : Bool :=
  let base := virtToPhys gva
  let mmBase := load64 mem (base + taskMmOffset)
  decide ((stringAt mem (base + taskCommOffset)).length < taskNameLen) &&
    inRam ram [(base + taskPidOffset, 4), (base + taskTasksOffset, 8), (base + taskMmOffset, 8),
      stringRead mem (base + taskCommOffset)] &&
    (mmBase == 0#64 || inRam ram [(virtToPhys mmBase + mmPgdOffset, 8)])

def modulesHeadGva : BitVec 64 := 0xffffffff81c4e130#64

def moduleListOffset : BitVec 64 := 8#64
def moduleNameOffset : BitVec 64 := 24#64
def moduleModuleCoreOffset : BitVec 64 := 352#64

/-- `struct module`. -/
structure Module where
  name : List (BitVec 8)
  core : BitVec 64
deriving DecidableEq, Repr

/-- The `cr3` that `traverse_modules` takes: the first one that is not 0. -/
def firstCr3 : List Task → BitVec 64
  | [] => 0#64
  | tsk :: tasks => if tsk.cr3 ≠ 0#64 then tsk.cr3 else firstCr3 tasks

/-- What `traverse_modules` records about the module whose link is at `gva`. -/
def moduleAt (cr3 gva : BitVec 64) : Module :=
  let base := transAddr mem gva cr3 - moduleListOffset
  { name := stringAt mem (base + moduleNameOffset)
    core := load64 mem (base + moduleModuleCoreOffset) }

/-- The loop of `traverse_modules`. The head is read through the kernel map, the
links through the page tables of `cr3`. -/
def moduleLoop (fuel : Nat) (mem : Mem) (cr3 : BitVec 64) : Option (List Module) :=
  walkList modulesHeadGva (fun gva => load64 mem (transAddr mem gva cr3))
    (fun gva mods => mods ++ [moduleAt mem cr3 gva]) fuel
    ⟨load64 mem (virtToPhys modulesHeadGva), []⟩

/-- `traverse_modules`: `some none` is its null result. -/
def traverseModules (fuel : Nat) (mem : Mem) : Option (Option (List Module)) :=
  (traverseTasks fuel mem).bind fun tasks =>
    if firstCr3 tasks = 0#64 then some none
    else (moduleLoop fuel mem (firstCr3 tasks)).map some

def nextModule (cr3 gva : BitVec 64) : BitVec 64 :=
  if gva = modulesHeadGva then load64 mem (virtToPhys gva)
  else load64 mem (transAddr mem gva cr3)

def modNameLen : Nat := 32

/-- The four entries that `trans_addr` reads, the link, the name and the core. Of the head only the
link is read. -/
def moduleOk (ram : Nat) (cr3 gva : BitVec 64) : Bool :=
  if gva = modulesHeadGva then inRam ram [(virtToPhys gva, 8)]
  else
    let pgd := virtToPhys (pgdOffset cr3 gva)
    let pud := virtToPhys (pudOffset (load64 mem pgd) gva)
    let pmd := virtToPhys (pmdOffset (load64 mem pud) gva)
    let pte := virtToPhys (pteOffsetKernel (load64 mem pmd) gva)
    let link := transAddr mem gva cr3
    let name := link - moduleListOffset + moduleNameOffset
    decide ((stringAt mem name).length < modNameLen) &&
      inRam ram [(pgd, 8), (pud, 8), (pmd, 8), (pte, 8), (link, 8), stringRead mem name,
        (link - moduleListOffset + moduleModuleCoreOffset, 8)]

def allBdevsGva : BitVec 64 := 0xffffffff81c6e520#64

def blockDeviceBdListOffset : BitVec 64 := 168#64
def blockDeviceBdInodeOffset : BitVec 64 := 8#64
def inodeIMappingOffset : BitVec 64 := 48#64
def addressSpaceNrpagesOffset : BitVec 64 := 96#64

def pageKb : BitVec 64 := 4#64

def nextLink : BitVec 64 := load64 mem (virtToPhys gva)

/-- `block_device.bd_inode->i_mapping->nrpages` of the device whose link is at
`gva`. -/
def nrpagesAt : BitVec 64 :=
  let bdevBase := virtToPhys gva - blockDeviceBdListOffset
  let inodeBase := load64 mem (bdevBase + blockDeviceBdInodeOffset)
  let addressSpace := load64 mem (virtToPhys inodeBase + inodeIMappingOffset)
  load64 mem (virtToPhys addressSpace + addressSpaceNrpagesOffset)

/-- `getBuffers`: the pages of all block devices, in KB. -/
def getBuffers (fuel : Nat) (mem : Mem) : Option (BitVec 64) :=
  (walkList allBdevsGva (nextLink mem) (fun gva tot => tot + nrpagesAt mem gva) fuel
    ⟨nextLink mem allBdevsGva, 0#64⟩).map (· * pageKb)

/-- The link and the three words on the way to `nrpages`. -/
def bufferOk (ram : Nat) : Bool :=
  let bdInode := virtToPhys gva - blockDeviceBdListOffset + blockDeviceBdInodeOffset
  let iMapping := virtToPhys (load64 mem bdInode) + inodeIMappingOffset
  let nrpages := virtToPhys (load64 mem iMapping) + addressSpaceNrpagesOffset
  inRam ram [(virtToPhys gva, 8)] &&
    (gva == allBdevsGva || inRam ram [(bdInode, 8), (iMapping, 8), (nrpages, 8)])

def devBaseHeadGva : BitVec 64 := 0xffffffff81cd2008#64

def ndDeviceListOffset : BitVec 64 := 80#64
def ndNameOffset : BitVec 64 := 0#64
def ndDevAddrOffset : BitVec 64 := 672#64
def ndIpPtrOffset : BitVec 64 := 624#64
def indIfaListOffset : BitVec 64 := 16#64
def inaIfaAddressOffset : BitVec 64 := 52#64
def inaIfaBroadcastOffset : BitVec 64 := 60#64
def inaIfaMaskOffset : BitVec 64 := 56#64

/-- `%s` of the string at `a`. -/
def showString (a : BitVec 64) : String :=
  String.ofList ((stringAt mem a).map fun b => Char.ofNat b.toNat)

/-- `%2.2X` of a byte. -/
def showHex (b : BitVec 8) : String :=
  String.ofList [(digitChar (b.toNat / 16)).toUpper, (digitChar (b.toNat % 16)).toUpper]

/-- `inet_ntoa`: the address is in network order, so its first byte in memory is
the first that is printed. -/
def inetNtoa (s : BitVec 32) : String :=
  ".".intercalate ([0, 8, 16, 24].map fun shift => toString ((s >>> shift).toNat % 256))

/-- What `print_net_device` prints about the address of a device. -/
def addressLines (indGva : BitVec 64) : List String :=
  if indGva = 0#64 then []
  else
    let inaGva := load64 mem (virtToPhys indGva + indIfaListOffset)
    if inaGva = 0#64 then []
    else
      let ina := virtToPhys inaGva
      ["   IP Address : " ++ inetNtoa (load32 mem (ina + inaIfaAddressOffset)) ++ "\n",
       "   Broadcast  : " ++ inetNtoa (load32 mem (ina + inaIfaBroadcastOffset)) ++ "\n",
       "   IP Mask    : " ++ inetNtoa (load32 mem (ina + inaIfaMaskOffset)) ++ "\n"]

/-- What `print_net_device` prints about the device whose link is at `gva`. -/
def deviceLines : List String :=
  let base := virtToPhys gva - ndDeviceListOffset
  let devAddr := virtToPhys (load64 mem (base + ndDevAddrOffset))
  let hwaddr := ":".intercalate ((range 6).map fun i => showHex (mem (devAddr + .ofNat 64 i)))
  ["Device: " ++ showString mem (base + ndNameOffset) ++ "\n",
   "   HWaddr     : " ++ hwaddr ++ "\n"] ++ addressLines mem (load64 mem (base + ndIpPtrOffset))

/-- The link, the name, the hardware address and the IP addresses. -/
def deviceOk (ram : Nat) : Bool :=
  let base := virtToPhys gva - ndDeviceListOffset
  let indGva := load64 mem (base + ndIpPtrOffset)
  let ifaList := virtToPhys indGva + indIfaListOffset
  let inaGva := load64 mem ifaList
  inRam ram [(virtToPhys gva, 8)] && (gva == devBaseHeadGva ||
    inRam ram [stringRead mem (base + ndNameOffset), (base + ndDevAddrOffset, 8),
      (virtToPhys (load64 mem (base + ndDevAddrOffset)), 6), (base + ndIpPtrOffset, 8)] &&
    (indGva == 0#64 || inRam ram [(ifaList, 8)] &&
      (inaGva == 0#64 || inRam ram [(virtToPhys inaGva + inaIfaAddressOffset, 12)])))
end

end

/-- `print_net_device`: what it prints. -/
def printNetDevice (fuel : Nat) (mem : Mem) : Option (List String) :=
  walkList devBaseHeadGva (nextLink mem) (fun gva lines => lines ++ deviceLines mem gva) fuel
    ⟨nextLink mem devBaseHeadGva, []⟩

/-- The computation returns exactly when `P` holds, and then with fuel for `2^64`
iterations. -/
def ReturnsWhen {α : Type} (run : Nat → Option α) (P : Prop) : Prop :=
  ((∃ fuel r, run fuel = some r) ↔ P) ∧ (P → ∃ r, run (2 ^ 64) = some r)

lemma card_address : Fintype.card (BitVec 64) = 2 ^ 64 := by
  rw [← FinEnum.card_eq_fintypeCard, FinEnum.card_bitVec]

/-- The points of the orbit of `head` behind it, up to its return. -/
noncomputable def orbitTail (succ : BitVec 64 → BitVec 64) (head : BitVec 64) : List (BitVec 64) :=
  (range (minimalPeriod succ head - 1)).map fun k => succ^[k + 1] head

section
variable {σ : Type} {head : BitVec 64} {next succ : BitVec 64 → BitVec 64}
  {visit : BitVec 64 → σ → σ} {w : Walk σ} (hnext : ∀ a, a ≠ head → next a = succ a)
  (hw : w.cursor = succ head)
include hnext hw

omit hw in
lemma walk_body (visit : BitVec 64 → σ → σ) (u : Walk σ) (hu : u.cursor ≠ head) :
    (Walk.step next visit u).cursor = succ u.cursor :=
  hnext u.cursor hu

lemma walk_cursor {k : Nat} (hk : ∀ j, j < k → succ^[j + 1] head ≠ head) :
    ((Walk.step next visit)^[k] w).cursor = succ^[k + 1] head :=
  cur_iterate (walk_body hnext visit) hw hk

lemma walk_acc {k : Nat} (hk : ∀ j, j < k → succ^[j + 1] head ≠ head) :
    ((Walk.step next visit)^[k] w).acc =
      ((range k).map fun j => succ^[j + 1] head).foldl (fun acc a => visit a acc) w.acc := by
  induction k with
  | zero => rfl
  | succ k ih =>
    have hk' : ∀ j, j < k → succ^[j + 1] head ≠ head := fun j hj => hk j (lt_succ_of_lt hj)
    rw [iterate_succ_apply', Walk.step, walk_cursor hnext hw hk', ih hk', range_succ,
      map_append, foldl_append]
    rfl

lemma walkList_of_periodic (hper : head ∈ periodicPts succ) :
    walkList head next visit (2 ^ 64) w =
      some ((orbitTail succ head).foldl (fun acc a => visit a acc) w.acc) := by
  have hend := cursor_ends (fun _ => rfl) (walk_body hnext visit) hw hper
  have hfuel : minimalPeriod succ head ≤ 2 ^ 64 := card_address ▸ minimalPeriod_le_card
  have hne : ∀ j, j < minimalPeriod succ head - 1 → succ^[j + 1] head ≠ head := fun j hj hback =>
    not_isPeriodicPt_of_pos_of_lt_minimalPeriod (succ_ne_zero j) (add_lt_of_lt_sub hj) hback
  rw [walkList, whileLoop_mono hfuel hend, map_some, walk_acc hnext hw hne]
  rfl

lemma walkList_eq_some {fuel : Nat} {r : σ} (h : walkList head next visit fuel w = some r) :
    head ∈ periodicPts succ ∧ r = (orbitTail succ head).foldl (fun acc a => visit a acc) w.acc := by
  obtain ⟨t, ht, rfl⟩ := map_eq_some_iff.mp h
  have hper : head ∈ periodicPts succ :=
    periodic_of_ends (fun _ => rfl) (walk_body hnext visit) hw ⟨fuel, ht⟩
  obtain ⟨u, hu, hacc⟩ := map_eq_some_iff.mp (walkList_of_periodic hnext hw hper)
  exact ⟨hper, Ends.unique ⟨fuel, ht⟩ ⟨_, hu⟩ ▸ hacc⟩

lemma walkList_returnsWhen :
    ReturnsWhen (fun fuel => walkList head next visit fuel w) (head ∈ periodicPts succ) := by
  refine ⟨⟨?_, fun hper => ⟨_, _, walkList_of_periodic hnext hw hper⟩⟩, fun hper =>
    ⟨_, walkList_of_periodic hnext hw hper⟩⟩
  rintro ⟨fuel, r, h⟩
  exact (walkList_eq_some hnext hw h).1
end

lemma walkList_of_self_loop {σ : Type} {head : BitVec 64} {next : BitVec 64 → BitVec 64}
    {visit : BitVec 64 → σ → σ} {w : Walk σ} (hloop : next w.cursor = w.cursor)
    (hne : w.cursor ≠ head) (fuel : Nat) : walkList head next visit fuel w = none := by
  rw [walkList, map_eq_none_iff, eq_none_iff_forall_ne_some]
  intro t ht
  refine not_ends_of_invariant (I := fun u => u.cursor = w.cursor) rfl (fun u hu => ?_)
    (fun u hu => decide_eq_true (hu ▸ hne)) t ⟨fuel, ht⟩
  rw [Walk.step, hu, hloop]

lemma ReturnsWhen.map {α β : Type} {run : Nat → Option α} {P : Prop} (h : ReturnsWhen run P)
    (f : α → β) : ReturnsWhen (fun fuel => (run fuel).map f) P := by
  obtain ⟨hiff, hfuel⟩ := h
  refine ⟨⟨?_, fun hP => ?_⟩, fun hP => ?_⟩
  · rintro ⟨fuel, r, hr⟩
    obtain ⟨a, ha, _⟩ := map_eq_some_iff.mp hr
    exact hiff.mp ⟨fuel, a, ha⟩
  · obtain ⟨r, hr⟩ := hfuel hP
    exact ⟨2 ^ 64, f r, by simp only [hr, map_some]⟩
  · obtain ⟨r, hr⟩ := hfuel hP
    exact ⟨f r, by simp only [hr, map_some]⟩

noncomputable def taskChain (mem : Mem) : List Task :=
  taskAt mem initTaskGva :: (orbitTail (nextTask mem) initTaskGva).map (taskAt mem)

lemma foldl_append_map {α β : Type} (f : α → β) (l : List α) (init : List β) :
    l.foldl (fun acc a => acc ++ [f a]) init = init ++ l.map f := by
  rw [foldl_append_eq_append, ← flatMap_def, map_eq_flatMap]

lemma traverseTasks_eq_some {fuel : Nat} {mem : Mem} {tasks : List Task}
    (h : traverseTasks fuel mem = some tasks) :
    initTaskGva ∈ periodicPts (nextTask mem) ∧ tasks = taskChain mem := by
  obtain ⟨hper, htasks⟩ := walkList_eq_some (fun _ _ => rfl) rfl h
  rw [foldl_append_map, singleton_append] at htasks
  exact ⟨hper, htasks⟩

lemma traverseTasks_of_periodic {mem : Mem} (h : initTaskGva ∈ periodicPts (nextTask mem)) :
    traverseTasks (2 ^ 64) mem = some (taskChain mem) := by
  rw [traverseTasks, walkList_of_periodic (fun _ _ => rfl) rfl h, foldl_append_map]
  rfl

lemma moduleLoop_returnsWhen (mem : Mem) (cr3 : BitVec 64) :
    ReturnsWhen (fun fuel => moduleLoop fuel mem cr3)
      (modulesHeadGva ∈ periodicPts (nextModule mem cr3)) :=
  walkList_returnsWhen (fun _ ha => (if_neg ha).symm) (if_pos rfl).symm

lemma traverseModules_returnsWhen (mem : Mem) : ReturnsWhen (fun fuel => traverseModules fuel mem)
      (initTaskGva ∈ periodicPts (nextTask mem) ∧ (firstCr3 (taskChain mem) ≠ 0#64 →
        modulesHeadGva ∈ periodicPts (nextModule mem (firstCr3 (taskChain mem))))) := by
  obtain ⟨hiff, hfuel⟩ := moduleLoop_returnsWhen mem (firstCr3 (taskChain mem))
  have hreturns : (initTaskGva ∈ periodicPts (nextTask mem) ∧ (firstCr3 (taskChain mem) ≠ 0#64 →
      modulesHeadGva ∈ periodicPts (nextModule mem (firstCr3 (taskChain mem))))) →
      ∃ r, traverseModules (2 ^ 64) mem = some r := by
    rintro ⟨htasks, hmodules⟩
    rw [traverseModules, traverseTasks_of_periodic htasks, bind_some]
    by_cases hcr3 : firstCr3 (taskChain mem) = 0#64
    · exact ⟨none, if_pos hcr3⟩
    · obtain ⟨mods, hmods⟩ := hfuel (hmodules hcr3)
      exact ⟨some mods, by rw [if_neg hcr3]; exact congrArg _ hmods⟩
  refine ⟨⟨?_, fun h => ⟨2 ^ 64, hreturns h⟩⟩, hreturns⟩
  rintro ⟨fuel, r, h⟩
  obtain ⟨tasks, htasks, hmods⟩ := bind_eq_some_iff.mp h
  obtain ⟨hper, rfl⟩ := traverseTasks_eq_some htasks
  refine ⟨hper, fun hcr3 => ?_⟩
  rw [if_neg hcr3] at hmods
  obtain ⟨mods, hmods, _⟩ := map_eq_some_iff.mp hmods
  exact hiff.mp ⟨fuel, mods, hmods⟩

/-- For every guest memory, each of the four commands returns exactly when its
list comes back to its head, `traverse_modules` when the list of tasks does and
the list of modules does in the address space it picked. A command that returns
does so within `2^64` iterations of each loop. What a command reads of the entries
on its way is in the RAM, and names fit into their buffers. -/
theorem introspection_returns_iff (ram : Nat) (mem : Mem) :
    ((∀ k, taskOk mem ((nextTask mem)^[k] initTaskGva) ram) →
      ReturnsWhen (fun fuel => traverseTasks fuel mem) (initTaskGva ∈ periodicPts (nextTask mem)) ∧
      ((initTaskGva ∈ periodicPts (nextTask mem) → firstCr3 (taskChain mem) ≠ 0#64 →
          ∀ k, moduleOk mem ram (firstCr3 (taskChain mem))
            ((nextModule mem (firstCr3 (taskChain mem)))^[k] modulesHeadGva)) →
        ReturnsWhen (fun fuel => traverseModules fuel mem)
          (initTaskGva ∈ periodicPts (nextTask mem) ∧ (firstCr3 (taskChain mem) ≠ 0#64 →
            modulesHeadGva ∈ periodicPts (nextModule mem (firstCr3 (taskChain mem))))))) ∧
    ((∀ k, bufferOk mem ((nextLink mem)^[k] allBdevsGva) ram) →
      ReturnsWhen (fun fuel => getBuffers fuel mem) (allBdevsGva ∈ periodicPts (nextLink mem))) ∧
    ((∀ k, deviceOk mem ((nextLink mem)^[k] devBaseHeadGva) ram) →
      ReturnsWhen (fun fuel => printNetDevice fuel mem)
        (devBaseHeadGva ∈ periodicPts (nextLink mem))) :=
  ⟨fun _ => ⟨walkList_returnsWhen (fun _ _ => rfl) rfl, fun _ => traverseModules_returnsWhen mem⟩,
    fun _ => (walkList_returnsWhen (fun _ _ => rfl) rfl).map _,
    fun _ => walkList_returnsWhen (fun _ _ => rfl) rfl⟩

/-- A memory in which every word is a pointer to the physical address 0x1000. -/
def exLasso : Mem := fun a => (pageOffset + 0x1000#64).extractLsb' (8 * (a.toNat % 8)) 8

lemma forall_iterate (ok : BitVec 64 → Bool) {succ : BitVec 64 → BitVec 64} {head : BitVec 64}
    (hloop : succ (succ head) = succ head) (hhead : ok head) (hok : ok (succ head)) (k : Nat) :
    ok (succ^[k] head) := by
  cases k with
  | zero => exact hhead
  | succ k => rwa [iterate_succ_apply, iterate_fixed hloop k]

/-- The first link of each list leads to one that points to itself, and none of the
loops returns, although all that they read is below 128 MiB. `traverse_modules` does
not return from `traverse_tasks`. -/
theorem introspection_hangs :
    ((∀ k, taskOk exLasso ((nextTask exLasso)^[k] initTaskGva) (2 ^ 27)) ∧
      ∀ fuel, traverseTasks fuel exLasso = none ∧ traverseModules fuel exLasso = none) ∧
    ((∀ k, bufferOk exLasso ((nextLink exLasso)^[k] allBdevsGva) (2 ^ 27)) ∧
      ∀ fuel, getBuffers fuel exLasso = none) ∧
    (∀ k, deviceOk exLasso ((nextLink exLasso)^[k] devBaseHeadGva) (2 ^ 27)) ∧
      ∀ fuel, printNetDevice fuel exLasso = none := by
  have htasks : ∀ fuel, traverseTasks fuel exLasso = none :=
    walkList_of_self_loop (by decide +kernel) (by decide +kernel)
  refine ⟨⟨forall_iterate (taskOk exLasso · (2 ^ 27)) (by decide +kernel)
      (by decide +kernel) (by decide +kernel), fun fuel => ⟨htasks fuel, ?_⟩⟩,
    ⟨forall_iterate (bufferOk exLasso · (2 ^ 27)) (by decide +kernel)
      (by decide +kernel) (by decide +kernel), fun fuel => ?_⟩,
    forall_iterate (deviceOk exLasso · (2 ^ 27)) (by decide +kernel)
      (by decide +kernel) (by decide +kernel),
    walkList_of_self_loop (by decide +kernel) (by decide +kernel)⟩
  · rw [traverseModules, htasks, bind_none]
  · rw [getBuffers, walkList_of_self_loop (by decide +kernel) (by decide +kernel), map_none]

end QemuVmi.Plugin
