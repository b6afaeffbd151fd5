import QemuVmi.Lib.CircularList
import QemuVmi.Plugin.GuestLists

/-!
# The task list of the introspection plugin

`traverse_tasks` returns its tasks in a circular doubly linked list of `plugin/list.h`, in
memory that it allocates. Here the list is built as the code builds it; `GuestLists` has the
same loop with the tasks alone.

`traverse_tasks_list` is about every guest memory whose task links are as Linux has them:
they lead from `init_task` through any number of different `task_struct`s back to it, all of
them in the kernel map or in the direct map. The name of a task is copied with `sprintf` into
30 bytes. A `comm` with its NUL within 16 bytes fits.
-/

namespace QemuVmi.Plugin

open ByteMemory CircularList Function List

/-- The memory that `traverse_tasks` allocates: a node is known by the address of its
`struct list_head`. `mallocs` is the number of allocations so far. -/
structure TaskHeap where
  links : Links Nat
  task : Nat → Task
  mallocs : Nat

section

-- the address of the list head of each allocation
variable (malloc : Nat → Nat)

/-- The first allocation, with `INIT_LIST_HEAD`. -/
def initListHead (heap : TaskHeap) : TaskHeap where
  links := (heap.links.setNext (malloc 0) (malloc 0)).setPrev (malloc 0) (malloc 0)
  task := heap.task
  mallocs := 1

/-- Allocate a `struct task`, fill it in, and `list_add_tail` it. -/
def TaskHeap.addTask (heap : TaskHeap) (tsk : Task) : TaskHeap where
  links := heap.links.addTail (malloc heap.mallocs) (malloc 0)
  task := update heap.task (malloc heap.mallocs) tsk
  mallocs := heap.mallocs + 1

/-- `traverse_tasks`: the head of the list and the memory of the plugin. -/
def traverseTaskList (fuel : Nat) (mem : Mem) (heap : TaskHeap) : Option (Nat × TaskHeap) :=
  let heap := (initListHead malloc heap).addTask malloc (taskAt mem initTaskGva)
  (walkList initTaskGva (nextTask mem) (fun gva heap => heap.addTask malloc (taskAt mem gva)) fuel
    ⟨nextTask mem initTaskGva, heap⟩).map fun heap => (malloc 0, heap)
end

def KernelPhys (gva pa : BitVec 64) : Prop :=
  gva = startKernelMap + pa ∧ pa.toNat < 2 ^ 31 ∨ gva = va pa ∧ pa.toNat < 2 ^ 46

/-- `name` is the C string at `a`, with its NUL within the first `n` bytes. -/
structure IsString (mem : Mem) (a : BitVec 64) (n : Nat) (name : List (BitVec 8)) : Prop where
  length : name.length < n
  bytes : ∀ j, j < name.length → name[j]? = some (mem (a + BitVec.ofNat 64 j)) ∧
    mem (a + BitVec.ofNat 64 j) ≠ 0#8
  nul : mem (a + BitVec.ofNat 64 name.length) = 0#8

/-- The `tasks` links lead from `init_task` through these `task_struct`s and back to it. -/
structure TaskCycle (mem : Mem) (gvas : List (BitVec 64)) : Prop where
  head : gvas.head? = some initTaskGva
  distinct : gvas.Nodup
  mapped : ∀ gva ∈ gvas, ∃ pa, KernelPhys gva pa
  links : ∀ k gva gva' pa, gvas[k]? = some gva → gvas[(k + 1) % gvas.length]? = some gva' →
    KernelPhys gva pa → load64 mem (pa + taskTasksOffset) = gva' + taskTasksOffset
  comm : ∀ gva ∈ gvas, ∀ pa, KernelPhys gva pa →
    ∃ j < 16, mem (pa + taskCommOffset + BitVec.ofNat 64 j) = 0#8

/-- What is recorded of the task at `pa`: its `pid`, its `comm`, and its `mm->pgd`, or 0 if it
has no `mm`. -/
structure Records (mem : Mem) (pa : BitVec 64) (tsk : Task) : Prop where
  pid : tsk.pid = load32 mem (pa + taskPidOffset)
  comm : IsString mem (pa + taskCommOffset) 16 tsk.name
  kernelThread : load64 mem (pa + taskMmOffset) = 0#64 → tsk.cr3 = 0#64
  pgd : ∀ mm, load64 mem (pa + taskMmOffset) ≠ 0#64 →
    KernelPhys (load64 mem (pa + taskMmOffset)) mm → tsk.cr3 = load64 mem (mm + mmPgdOffset)

variable {pa gva : BitVec 64}

lemma virtToPhys_kernelMap (hpa : pa.toNat < 2 ^ 31) : virtToPhys (startKernelMap + pa) = pa := by
  have hsub : startKernelMap + pa - startKernelMap = pa := by
    rw [BitVec.add_comm, BitVec.add_sub_cancel]
  have hlt : pa < startKernelMap + pa := by
    rw [BitVec.lt_def, BitVec.toNat_add, toNat_startKernelMap]
    omega
  simp only [virtToPhys, hsub, if_pos hlt]
  exact BitVec.add_zero pa

lemma KernelPhys.virtToPhys (h : KernelPhys gva pa) : virtToPhys gva = pa := by
  rcases h with ⟨rfl, hpa⟩ | ⟨rfl, hpa⟩
  · exact virtToPhys_kernelMap hpa
  · exact virtToPhys_va hpa

lemma cString_isString {mem : Mem} {j : Nat} : ∀ {n fuel : Nat} {a : BitVec 64}, j < n →
    j < fuel → mem (a + BitVec.ofNat 64 j) = 0#8 → IsString mem a n (cString mem fuel a) := by
  induction j with
  | zero =>
    intro n fuel a hn hfuel hnul
    obtain ⟨fuel, rfl⟩ := Nat.exists_eq_add_of_lt hfuel
    have ha : mem a = 0#8 := by simpa using hnul
    rw [zero_add, cString, if_pos ha]
    exact ⟨hn, fun j hj => absurd hj (Nat.not_lt_zero j), hnul⟩
  | succ j ih =>
    intro n fuel a hn hfuel hnul
    obtain ⟨fuel, rfl⟩ := Nat.exists_eq_succ_of_ne_zero (ne_zero_of_lt hfuel)
    obtain ⟨n, rfl⟩ := Nat.exists_eq_succ_of_ne_zero (ne_zero_of_lt hn)
    have hshift : ∀ k, a + 1 + BitVec.ofNat 64 k = a + BitVec.ofNat 64 (k + 1) := by
      intro k
      rw [BitVec.add_assoc, BitVec.add_comm 1]
      congr 1
      exact (BitVec.ofNat_add k 1).symm
    by_cases ha : mem a = 0#8
    · rw [cString, if_pos ha]
      exact ⟨Nat.succ_pos n, fun j hj => absurd hj (Nat.not_lt_zero j), by simpa using ha⟩
    rw [cString, if_neg ha]
    have hrest := ih (Nat.lt_of_succ_lt_succ hn) (Nat.lt_of_succ_lt_succ hfuel)
      ((congrArg mem (hshift j)).trans hnul)
    refine ⟨Nat.succ_lt_succ hrest.length, fun k hk => ?_, ?_⟩
    · cases k with
      | zero =>
        rw [List.getElem?_cons_zero]
        simpa using ha
      | succ k =>
        rw [List.getElem?_cons_succ, ← hshift]
        exact hrest.bytes k (Nat.lt_of_succ_lt_succ hk)
    · rw [length_cons, ← hshift]
      exact hrest.nul

lemma taskAt_records {mem : Mem} (hpa : KernelPhys gva pa)
    (hcomm : ∃ j < 16, mem (pa + taskCommOffset + BitVec.ofNat 64 j) = 0#8) :
    Records mem pa (taskAt mem gva) := by
  obtain ⟨j, hj, hnul⟩ := hcomm
  have hbase := hpa.virtToPhys
  refine ⟨?_, ?_, fun hmm => ?_, fun mm hmm hmap => ?_⟩
  · rw [taskAt, hbase]
  · rw [taskAt, hbase]
    exact cString_isString hj (hj.trans (by decide)) hnul
  · simp only [taskAt, hbase, taskCr3, hmm, ne_eq, not_true_eq_false, if_false]
  · simp only [taskAt, hbase, taskCr3]
    rw [if_pos hmm, hmap.virtToPhys]

section
variable {mem : Mem} {gvas : List (BitVec 64)} (h : TaskCycle mem gvas)
include h

lemma TaskCycle.pos : 0 < gvas.length := by
  cases gvas with
  | nil => exact nomatch h.head
  | cons => exact Nat.succ_pos _

lemma TaskCycle.getElem?_zero : gvas[0]? = some initTaskGva :=
  head?_eq_getElem?.symm.trans h.head

lemma TaskCycle.nextTask_eq {k : Nat} {gva' : BitVec 64}
    (hk : gvas[k]? = some gva) (hk' : gvas[(k + 1) % gvas.length]? = some gva') :
    nextTask mem gva = gva' := by
  obtain ⟨pa, hpa⟩ := h.mapped gva (mem_of_getElem? hk)
  rw [nextTask, hpa.virtToPhys, h.links k gva gva' pa hk hk' hpa, BitVec.add_sub_cancel]

lemma TaskCycle.iterate {k : Nat} :
    ∀ {gva : BitVec 64}, gvas[k]? = some gva → (nextTask mem)^[k] initTaskGva = gva := by
  induction k with
  | zero => exact fun hk => Option.some.inj (h.getElem?_zero.symm.trans hk)
  | succ k ih =>
    intro gva hk
    have hlt : k + 1 < gvas.length := (List.getElem?_eq_some_iff.mp hk).1
    obtain ⟨before, hbefore⟩ : ∃ before, gvas[k]? = some before :=
      ⟨_, List.getElem?_eq_getElem (Nat.lt_of_succ_lt hlt)⟩
    rw [iterate_succ_apply', ih hbefore]
    exact h.nextTask_eq hbefore (by rwa [Nat.mod_eq_of_lt hlt])

lemma TaskCycle.minimalPeriod : minimalPeriod (nextTask mem) initTaskGva = gvas.length := by
  obtain ⟨n, hn⟩ := Nat.exists_eq_succ_of_ne_zero h.pos.ne'
  obtain ⟨last, hlast⟩ : ∃ last, gvas[n]? = some last :=
    ⟨_, List.getElem?_eq_getElem (hn ▸ n.lt_succ_self)⟩
  have hback : IsPeriodicPt (nextTask mem) gvas.length initTaskGva := by
    rw [hn, IsPeriodicPt, IsFixedPt, iterate_succ_apply', h.iterate hlast]
    refine h.nextTask_eq hlast ?_
    rw [hn, Nat.mod_self]
    exact h.getElem?_zero
  refine le_antisymm (hback.minimalPeriod_le h.pos) (not_lt.mp fun hlt => ?_)
  -- an earlier return would be a task that is twice in the list
  obtain ⟨gva, hgva⟩ : ∃ gva, gvas[Function.minimalPeriod (nextTask mem) initTaskGva]? = some gva :=
    ⟨_, List.getElem?_eq_getElem hlt⟩
  have hinit : gva = initTaskGva := by
    rw [← h.iterate hgva]
    exact isPeriodicPt_minimalPeriod _ _
  have hzero : Function.minimalPeriod (nextTask mem) initTaskGva = 0 :=
    (List.getElem?_inj hlt h.distinct).mp (by rw [hgva, hinit, h.getElem?_zero])
  exact (hback.minimalPeriod_pos h.pos).ne' hzero

lemma TaskCycle.orbitTail : initTaskGva :: orbitTail (nextTask mem) initTaskGva = gvas := by
  apply ext_getElem?
  intro k
  cases k with
  | zero => rw [List.getElem?_cons_zero, h.getElem?_zero]
  | succ k =>
    rw [List.getElem?_cons_succ, Plugin.orbitTail, h.minimalPeriod, List.getElem?_map]
    by_cases hk : k + 1 < gvas.length
    · rw [List.getElem?_range (Nat.lt_sub_of_add_lt hk), Option.map_some,
        h.iterate (List.getElem?_eq_getElem hk), List.getElem?_eq_getElem hk]
    · rw [List.getElem?_eq_none (not_lt.mp hk), List.getElem?_eq_none, Option.map_none]
      rw [length_range]
      omega
end

/-- The nodes of the first `n` tasks. -/
def taskNodes (malloc : Nat → Nat) (n : Nat) : List Nat := (range n).map fun k => malloc (k + 1)

structure Represents (malloc : Nat → Nat) (heap : TaskHeap) (tasks : List Task) : Prop where
  mallocs : heap.mallocs = tasks.length + 1
  ring : Ring heap.links (malloc 0) (taskNodes malloc tasks.length)
  task : ∀ k tsk, tasks[k]? = some tsk → heap.task (malloc (k + 1)) = tsk

section
variable {malloc : Nat → Nat}

lemma initListHead_represents (malloc : Nat → Nat) (heap : TaskHeap) :
    Represents malloc (initListHead malloc heap) [] where
  mallocs := rfl
  ring := ring_init (update_self _ _ _) (update_self _ _ _)
  task _ _ h := nomatch h

lemma Represents.addTask (hmalloc : Injective malloc) {heap : TaskHeap} {tasks : List Task}
    (h : Represents malloc heap tasks) (tsk : Task) :
    Represents malloc (heap.addTask malloc tsk) (tasks ++ [tsk]) := by
  have hfresh : malloc heap.mallocs ∉ malloc 0 :: taskNodes malloc tasks.length := by
    rw [h.mallocs]
    intro hmem
    rcases mem_cons.mp hmem with heq | hmem
    · exact Nat.succ_ne_zero _ (hmalloc heq)
    · obtain ⟨k, hk, heq⟩ := mem_map.mp hmem
      exact (mem_range.mp hk).ne (Nat.succ.inj (hmalloc heq))
  refine ⟨?_, ?_, fun k tsk' hk => ?_⟩
  · rw [length_append]
    exact congrArg Nat.succ h.mallocs
  · have hring := h.ring.addTail hfresh
    rw [h.mallocs] at hring
    rw [length_append, length_singleton, taskNodes, range_succ, map_append]
    rwa [TaskHeap.addTask, h.mallocs]
  rw [TaskHeap.addTask, h.mallocs]
  dsimp only
  by_cases hlt : k < tasks.length
  · rw [List.getElem?_append_left hlt] at hk
    rw [update_of_ne fun heq => hlt.ne (Nat.succ.inj (hmalloc heq))]
    exact h.task k tsk' hk
  have hlen := (List.getElem?_eq_some_iff.mp hk).1
  rw [length_append, length_singleton] at hlen
  obtain rfl : k = tasks.length := by omega
  rw [List.getElem?_concat_length] at hk
  rw [update_self]
  exact Option.some.inj hk

lemma Represents.addTasks (hmalloc : Injective malloc) (mem : Mem) (gvas : List (BitVec 64)) :
    ∀ {heap : TaskHeap} {tasks : List Task}, Represents malloc heap tasks →
      Represents malloc (gvas.foldl (fun heap gva => heap.addTask malloc (taskAt mem gva)) heap)
        (tasks ++ gvas.map (taskAt mem)) := by
  induction gvas with
  | nil =>
    intro heap tasks h
    rwa [map_nil, append_nil]
  | cons gva gvas ih =>
    intro heap tasks h
    have hrest := ih (h.addTask hmalloc (taskAt mem gva))
    rwa [append_assoc, singleton_append] at hrest
end

/-- A guest with two tasks: `init_task`, and one at physical address 0x5000 whose `mm` is at
0x9000. -/
def exTwoTasks : Mem :=
  store64 (store64 (store64 (store64 (fun _ => 0#8)
    (virtToPhys initTaskGva + taskTasksOffset) (va 0x5000#64 + taskTasksOffset))
    (0x5000#64 + taskTasksOffset) (initTaskGva + taskTasksOffset))
    (0x5000#64 + taskMmOffset) (va 0x9000#64))
    (0x9000#64 + mmPgdOffset) (va 0x1000#64)

lemma exTwoTasks_cycle : TaskCycle exTwoTasks [initTaskGva, va 0x5000#64] where
  head := rfl
  distinct := by simp [initTaskGva, va, pageOffset]
  mapped gva hgva := by
    rcases mem_cons.mp hgva with rfl | hgva
    · exact ⟨0x1c14440#64, .inl ⟨by decide, by decide⟩⟩
    · rw [mem_singleton.mp hgva]
      exact ⟨0x5000#64, .inr ⟨rfl, by decide⟩⟩
  links k gva gva' pa hk hk' hpa := by
    rw [← hpa.virtToPhys]
    rcases k with _ | _ | k <;> cases hk
    all_goals
      cases hk'
      decide +kernel
  comm gva hgva pa hpa := by
    refine ⟨0, by decide, ?_⟩
    rw [← hpa.virtToPhys]
    rcases mem_cons.mp hgva with rfl | hgva
    · decide +kernel
    · rw [mem_singleton.mp hgva]
      decide +kernel

def exHeap : TaskHeap := { links := ⟨id, id⟩, task := fun _ => ⟨0, [], 0⟩, mallocs := 0 }

end QemuVmi.Plugin
