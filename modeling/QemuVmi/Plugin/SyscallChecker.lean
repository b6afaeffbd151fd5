import QemuVmi.Lib.WhileLoop
import QemuVmi.Plugin.Memory

/-!
# The system call table checker

`plugin/syscall_checker.c`: `syscall_checker_start` counts the entries of the
guest's system call table up to the first zero word and copies them, and the
thread it starts compares the table with the copy every few seconds, reports
each entry that changed and writes the copied value back.

The thread does not use the recorded size. It walks the table as it is now, up
to the first zero word, so the guest decides how far it looks:

1. `checkPass_restores_iff`: a pass does what it is for exactly when the guest
   has left no zero in the table and the word after it zero (and the table has
   fewer than `2^29` entries, for its size in bytes is an `unsigned int`).
2. `checkPass_blinded`: a zero in the first entry hides every other hook.
-/

namespace QemuVmi.Plugin

open ByteMemory WhileLoop Function BitVec List Nat

def systemCallGva : BitVec 64 := 0xffffffff81801420#64

/-- The guest physical address of `syscall_table_hva[i]`. -/
def syscallEntryGpa (i : Nat) : BitVec 64 := virtToPhys systemCallGva + 8 * BitVec.ofNat 64 i

/-- `syscall_table_hva[i]`. -/
def syscallEntry (mem : Mem) (i : Nat) : BitVec 64 := load64 mem (syscallEntryGpa i)

/-- `n++` on an `unsigned int`. -/
def incUint (n : Nat) : Nat := (n + 1) % 2 ^ 32

/-- `struct syscall_info`, without the monitor and the table's address, which
never change. -/
structure SyscallInfo where
  /-- `syscall_table_shadow`: the words of the copy. -/
  syscallTableShadow : List (BitVec 64)
  /-- `syscall_table_size`: the size of the copy in bytes. -/
  syscallTableSize : Nat
deriving DecidableEq, Repr

/-- The loop of `syscall_checker_start` that counts the entries. -/
def countEntries (fuel : Nat) (mem : Mem) : Option Nat :=
  whileLoop (fun n => decide (syscallEntry mem n ≠ 0#64)) incUint fuel 0

/-- The snapshot that `syscall_checker_start` hands to its thread. The size in
bytes wraps like any `unsigned int`. -/
def takeSnapshot (fuel : Nat) (mem : Mem) : Option SyscallInfo :=
  (countEntries fuel mem).map fun n =>
    let size := n * 8 % 2 ^ 32
    { syscallTableShadow := (range (size / 8)).map (syscallEntry mem)
      syscallTableSize := size }

def alertLines (sysNum : Nat) : List String :=
  [s!"\nALERT: syscall hook detected on {sysNum}\n", "(qemu) "]

/-- The state of one pass of `thread_func`: the guest's memory, the index, what
was printed, and the indices at which the snapshot was read. -/
structure CheckState where
  mem : Mem
  sysNum : Nat
  monitor : List String
  shadowReads : List Nat

/-- `info->syscall_table_shadow[i]`. Outside the copy it is whatever word
`beyond i` the heap holds there. -/
def shadowAt (info : SyscallInfo) (beyond : Nat → BitVec 64) (i : Nat) : BitVec 64 :=
  info.syscallTableShadow.getD i (beyond i)

/-- The body of the loop: compare an entry with the snapshot, report it and write
it back. -/
def checkEntry (info : SyscallInfo) (beyond : Nat → BitVec 64) (s : CheckState) : CheckState :=
  let shadow := shadowAt info beyond s.sysNum
  let hooked := syscallEntry s.mem s.sysNum ≠ shadow
  { mem := if hooked then store64 s.mem (syscallEntryGpa s.sysNum) shadow else s.mem
    sysNum := incUint s.sysNum
    monitor := if hooked then s.monitor ++ alertLines s.sysNum else s.monitor
    shadowReads := s.shadowReads ++ [s.sysNum] }

/-- The state in which a pass over `mem` starts. -/
def passStart (mem : Mem) : CheckState :=
  { mem := mem, sysNum := 0, monitor := [], shadowReads := [] }

/-- One pass of the loop in `thread_func`. -/
def checkPass (fuel : Nat) (info : SyscallInfo) (beyond : Nat → BitVec 64) (mem : Mem) :
    Option CheckState :=
  whileLoop (fun s => decide (syscallEntry s.mem s.sysNum ≠ 0#64)) (checkEntry info beyond) fuel
    (passStart mem)

/-- The table in `mem` has `n` nonzero entries, and then a zero word. -/
structure TableLength (mem : Mem) (n : Nat) : Prop where
  nonzero : ∀ i, i < n → syscallEntry mem i ≠ 0#64
  terminator : syscallEntry mem n = 0#64

/-- What a pass over `mem` is to leave: every entry restored, exactly the entries
that differed reported, and the snapshot read inside its `n` entries only. -/
structure PassRestores (n : Nat) (info : SyscallInfo) (mem : Mem) (s : CheckState) : Prop where
  restored : ∀ i, i < n → info.syscallTableShadow[i]? = some (syscallEntry s.mem i)
  reported : s.monitor = ((range n).filter fun i =>
    decide (info.syscallTableShadow[i]? ≠ some (syscallEntry mem i))).flatMap alertLines
  inBounds : ∀ i ∈ s.shadowReads, i < n

variable {i k n : Nat}

lemma toNat_syscallEntryGpa (hi : i < 2 ^ 32) :
    (syscallEntryGpa i).toNat = 0x1801420 + 8 * i := by
  have hbase : (virtToPhys systemCallGva).toNat = 0x1801420 := by decide
  rw [syscallEntryGpa, toNat_add, hbase, toNat_mul, toNat_ofNat,
    show (8 : BitVec 64).toNat = 8 by decide]
  omega

lemma syscallEntryGpa_disjoint {j : Nat} (hi : i < 2 ^ 32) (hj : j < 2 ^ 32) (hij : i ≠ j) :
    Disjoint64 (syscallEntryGpa i) (syscallEntryGpa j) := by
  constructor
  · rw [toNat_sub, toNat_syscallEntryGpa hi, toNat_syscallEntryGpa hj]
    omega
  · rw [toNat_sub, toNat_syscallEntryGpa hi, toNat_syscallEntryGpa hj]
    omega

lemma incUint_of_lt (h : n + 1 < 2 ^ 32) : incUint n = n + 1 := mod_eq_of_lt h

lemma incUint_lt (n : Nat) : incUint n < 2 ^ 32 := mod_lt _ (Nat.two_pow_pos 32)

/-! ### The snapshot -/

lemma incUint_iterate (hk : k < 2 ^ 32) : incUint^[k] 0 = k := by
  induction k with
  | zero => rfl
  | succ k ih => rw [iterate_succ_apply', ih (lt_of_succ_lt hk), incUint_of_lt hk]

variable {mem : Mem}

lemma ends_countEntries (h : TableLength mem n) (hn : n < 2 ^ 32) :
    ∃ fuel, countEntries fuel mem = some n := by
  refine ends_iff.mpr ⟨n, ?_, ?_, (incUint_iterate hn).symm⟩
  · intro j hj
    rw [incUint_iterate (hj.trans hn)]
    exact decide_eq_true (h.nonzero j hj)
  · rw [incUint_iterate hn]
    exact decide_eq_false (fun hne => hne h.terminator)

lemma countEntries_iff {m : Nat} (h : TableLength mem n) :
    (∃ fuel, countEntries fuel mem = some m) ↔ n < 2 ^ 32 ∧ m = n := by
  constructor
  · intro hends
    change Ends _ _ 0 m at hends
    by_cases hn : n < 2 ^ 32
    · exact ⟨hn, hends.unique (ends_countEntries h hn)⟩
    -- every index that an `unsigned int` can take is inside the table
    refine absurd hends (not_ends_of_invariant (I := fun k => k < 2 ^ 32) (Nat.two_pow_pos 32)
      (fun u _ => incUint_lt u) (fun u hu => ?_) m)
    exact decide_eq_true (h.nonzero u (hu.trans_le (not_lt.mp hn)))
  · rintro ⟨hn, rfl⟩
    exact ends_countEntries h hn

lemma tableLength_of_countEntries {fuel : Nat} (h : countEntries fuel mem = some n) :
    n < 2 ^ 32 ∧ TableLength mem n := by
  obtain ⟨k, hnonzero, hexit, rfl⟩ := ends_iff.mp ⟨fuel, h⟩
  have hk : k < 2 ^ 32 := by
    by_contra hbig
    -- the index has wrapped, so the loop has been at this word before
    have hlt : incUint^[k] 0 < 2 ^ 32 := by
      cases k with
      | zero => exact Nat.two_pow_pos 32
      | succ k => exact iterate_succ_apply' incUint k 0 ▸ incUint_lt _
    have hbefore := hnonzero _ (hlt.trans_le (not_lt.mp hbig))
    rw [incUint_iterate hlt, hexit] at hbefore
    cases hbefore
  rw [incUint_iterate hk] at hexit ⊢
  refine ⟨hk, fun i hi => ?_, not_not.mp (of_decide_eq_false hexit)⟩
  have hi' := of_decide_eq_true (hnonzero i hi)
  rwa [incUint_iterate (hi.trans hk)] at hi'

/-- The snapshot of a table of `n` entries: the first `n % 2^29` of them. -/
def snapshotOf (mem : Mem) (n : Nat) : SyscallInfo :=
  { syscallTableShadow := (range (n % 2 ^ 29)).map (syscallEntry mem)
    syscallTableSize := n * 8 % 2 ^ 32 }

lemma takeSnapshot_iff {info : SyscallInfo} (h : TableLength mem n) :
    (∃ fuel, takeSnapshot fuel mem = some info) ↔ n < 2 ^ 32 ∧ info = snapshotOf mem n := by
  have hwords : n * 8 % 2 ^ 32 / 8 = n % 2 ^ 29 := by omega
  constructor
  · rintro ⟨fuel, hsome⟩
    obtain ⟨m, hm, rfl⟩ := Option.map_eq_some_iff.mp hsome
    obtain ⟨hn, rfl⟩ := (countEntries_iff h).mp ⟨fuel, hm⟩
    exact ⟨hn, by simp only [snapshotOf, hwords]⟩
  · rintro ⟨hn, rfl⟩
    obtain ⟨fuel, hm⟩ := (countEntries_iff h).mpr ⟨hn, rfl⟩
    exact ⟨fuel, by simp only [takeSnapshot, hm, Option.map_some, snapshotOf, hwords]⟩

lemma snapshotOf_getElem? (mem : Mem) (n i : Nat) : (snapshotOf mem n).syscallTableShadow[i]? =
      if i < n % 2 ^ 29 then some (syscallEntry mem i) else none := by
  rw [snapshotOf, List.getElem?_map]
  by_cases hi : i < n % 2 ^ 29
  · rw [List.getElem?_range hi, if_pos hi]
    rfl
  · rw [if_neg hi, List.getElem?_eq_none (by simpa using not_lt.mp hi)]
    rfl

/-! ### The pass -/

/-- The pass over `mem` has visited the entries below `k`: they hold the snapshot,
the ones that differed are reported, and the rest of the table is as it was. -/
structure Visited (info : SyscallInfo) (beyond : Nat → BitVec 64) (mem : Mem) (k : Nat)
    (s : CheckState) : Prop where
  sysNum : s.sysNum = k
  shadowReads : s.shadowReads = range k
  before : ∀ i, i < k → syscallEntry s.mem i = shadowAt info beyond i
  after : ∀ i, k ≤ i → i < 2 ^ 32 → syscallEntry s.mem i = syscallEntry mem i
  monitor : s.monitor = ((range k).filter fun i =>
    decide (syscallEntry mem i ≠ shadowAt info beyond i)).flatMap alertLines

section
variable {info : SyscallInfo} {beyond : Nat → BitVec 64} {s : CheckState}

lemma checkEntry_here (info : SyscallInfo) (beyond : Nat → BitVec 64) (s : CheckState) :
    syscallEntry (checkEntry info beyond s).mem s.sysNum = shadowAt info beyond s.sysNum := by
  simp only [checkEntry]
  split
  · exact load64_store64_self _ _ _
  · next heq => exact not_not.mp heq

lemma checkEntry_elsewhere (hs : s.sysNum < 2 ^ 32) (hi : i < 2 ^ 32) (hne : s.sysNum ≠ i) :
    syscallEntry (checkEntry info beyond s).mem i = syscallEntry s.mem i := by
  simp only [checkEntry]
  split
  · exact load64_store64_of_disjoint _ _ (syscallEntryGpa_disjoint hs hi hne)
  · rfl

lemma Visited.step (h : Visited info beyond mem k s) (hk : k + 1 < 2 ^ 32) :
    Visited info beyond mem (k + 1) (checkEntry info beyond s) where
  sysNum := by
    rw [show (checkEntry info beyond s).sysNum = incUint s.sysNum from rfl, h.sysNum,
      incUint_of_lt hk]
  shadowReads := by
    rw [show (checkEntry info beyond s).shadowReads = s.shadowReads ++ [s.sysNum] from rfl,
      h.shadowReads, h.sysNum, range_succ]
  before := by
    intro i hi
    rcases Nat.lt_succ_iff_lt_or_eq.mp hi with hlt | rfl
    · rw [checkEntry_elsewhere (by rw [h.sysNum]; omega) (by omega) (by rw [h.sysNum]; omega)]
      exact h.before i hlt
    · have here := checkEntry_here info beyond s
      rwa [h.sysNum] at here
  after := by
    intro i hki hi
    rw [checkEntry_elsewhere (by rw [h.sysNum]; omega) hi (by rw [h.sysNum]; omega)]
    exact h.after i (le_of_succ_le hki) hi
  monitor := by
    have hentry := h.after k (le_refl k) (lt_of_succ_lt hk)
    rw [range_succ, filter_append, flatMap_append, ← h.monitor]
    simp only [checkEntry, h.sysNum, hentry]
    by_cases hooked : syscallEntry mem k ≠ shadowAt info beyond k
    · simp [hooked]
    · simp [hooked]

lemma visited_iterate (info : SyscallInfo) (beyond : Nat → BitVec 64) (mem : Mem)
    (hk : k < 2 ^ 32) :
    Visited info beyond mem k ((checkEntry info beyond)^[k] (passStart mem)) := by
  induction k with
  | zero => exact ⟨rfl, rfl, fun i hi => absurd hi (not_lt_zero i), fun _ _ _ => rfl, rfl⟩
  | succ k ih =>
    rw [iterate_succ_apply']
    exact (ih (lt_of_succ_lt hk)).step hk

lemma mem_shadowReads_iterate (hi : i ∈ s.shadowReads) (k : Nat) :
    i ∈ ((checkEntry info beyond)^[k] s).shadowReads := by
  induction k with
  | zero => exact hi
  | succ k ih =>
    rw [iterate_succ_apply']
    exact mem_append_left _ ih

lemma read_of_lt_iterate {n : Nat} (hn : n + 1 < 2 ^ 32) (hk : n < k) :
    n ∈ ((checkEntry info beyond)^[k] (passStart mem)).shadowReads := by
  obtain ⟨d, rfl⟩ := Nat.exists_eq_add_of_le (succ_le_of_lt hk)
  rw [add_comm, iterate_add_apply]
  apply mem_shadowReads_iterate
  rw [(visited_iterate info beyond mem hn).shadowReads]
  exact List.mem_range.mpr (lt_succ_self n)
end

lemma shadowAt_snapshotOf (beyond : Nat → BitVec 64) (hi : i < n % 2 ^ 29) :
    shadowAt (snapshotOf mem n) beyond i = syscallEntry mem i := by
  rw [shadowAt, getD_eq_getElem?_getD, snapshotOf_getElem?, if_pos hi]
  rfl

lemma iterations_of_passRestores {mem0 : Mem} {beyond : Nat → BitVec 64}
    (h0 : TableLength mem0 n) (hn : n < 2 ^ 29)
    (hexit : decide (syscallEntry ((checkEntry (snapshotOf mem0 n) beyond)^[k] (passStart mem)).mem
      ((checkEntry (snapshotOf mem0 n) beyond)^[k] (passStart mem)).sysNum ≠ 0#64) = false)
    (h : PassRestores n (snapshotOf mem0 n) mem ((checkEntry (snapshotOf mem0 n) beyond)^[k] (passStart mem))) :
    k = n := by
  have hmod : n % 2 ^ 29 = n := mod_eq_of_lt hn
  rcases Nat.lt_trichotomy k n with hlt | heq | hgt
  · -- the pass stopped at an entry below `n`, which is zero and so not restored
    have hvisited := visited_iterate (snapshotOf mem0 n) beyond mem (k := k) (by omega)
    have hzero := not_not.mp (of_decide_eq_false hexit)
    have hrestored := h.restored k hlt
    rw [snapshotOf_getElem?, hmod, if_pos hlt, Option.some.injEq] at hrestored
    rw [hvisited.sysNum, ← hrestored] at hzero
    exact absurd hzero (h0.nonzero k hlt)
  · exact heq
  · -- the pass went past the terminator and read the snapshot outside
    have hread := h.inBounds n (read_of_lt_iterate (by omega) hgt)
    exact absurd hread (lt_irrefl n)

/-- For every memory `mem0` at the start of the checker, with a table of `n`
entries, and every memory `mem` the guest has made of it since: the start
completes and a pass over `mem` completes and does what it is for exactly when
the table of `mem` still has its first zero word at `n`, and the size of the
table in bytes did not wrap. -/
theorem checkPass_restores_iff {mem0 mem : Mem} {n : Nat} (beyond : Nat → BitVec 64)
    (h0 : TableLength mem0 n) :
    (∃ info s, (∃ fuel, takeSnapshot fuel mem0 = some info) ∧
      (∃ fuel, checkPass fuel info beyond mem = some s) ∧ PassRestores n info mem s) ↔
    n < 2 ^ 29 ∧ TableLength mem n := by
  constructor
  · rintro ⟨info, s, hsnapshot, hpass, hrestores⟩
    obtain ⟨_, rfl⟩ := (takeSnapshot_iff h0).mp hsnapshot
    have hn : n < 2 ^ 29 := by
      by_contra hbig
      have hshort : n % 2 ^ 29 < n := (mod_lt n (Nat.two_pow_pos 29)).trans_le
        (not_lt.mp hbig)
      have hnone := hrestores.restored (n % 2 ^ 29) hshort
      rw [snapshotOf_getElem?, if_neg (lt_irrefl _)] at hnone
      cases hnone
    obtain ⟨k, hcond, hexit, rfl⟩ := ends_iff.mp hpass
    obtain rfl := iterations_of_passRestores h0 hn hexit hrestores
    have hvisited : ∀ i, i ≤ k → Visited (snapshotOf mem0 k) beyond mem i
        ((checkEntry (snapshotOf mem0 k) beyond)^[i] (passStart mem)) := fun i hi =>
      visited_iterate _ _ _ (by omega)
    refine ⟨hn, fun i hi => ?_, ?_⟩
    · have hnonzero := of_decide_eq_true (hcond i hi)
      have hv := hvisited i hi.le
      rwa [hv.sysNum, hv.after i (le_refl i) (by omega)] at hnonzero
    · have hzero := not_not.mp (of_decide_eq_false hexit)
      have hv := hvisited k (le_refl k)
      rwa [hv.sysNum, hv.after k (le_refl k) (by omega)] at hzero
  · rintro ⟨hn, h⟩
    have hmod : n % 2 ^ 29 = n := mod_eq_of_lt hn
    have hshadow : ∀ i, i < n → shadowAt (snapshotOf mem0 n) beyond i = syscallEntry mem0 i :=
      fun i hi => shadowAt_snapshotOf beyond (by rwa [hmod])
    have hvisited : ∀ i, i ≤ n → Visited (snapshotOf mem0 n) beyond mem i
        ((checkEntry (snapshotOf mem0 n) beyond)^[i] (passStart mem)) := fun i hi =>
      visited_iterate _ _ _ (by omega)
    have hlast := hvisited n (le_refl n)
    refine ⟨snapshotOf mem0 n, _, (takeSnapshot_iff h0).mpr ⟨by omega, rfl⟩,
      ends_iff.mpr ⟨n, fun i hi => ?_, ?_, rfl⟩, ?_, ?_, ?_⟩
    · have hv := hvisited i hi.le
      rw [hv.sysNum, hv.after i (le_refl i) (by omega)]
      exact decide_eq_true (h.nonzero i hi)
    · rw [hlast.sysNum, hlast.after n (le_refl n) (by omega)]
      exact decide_eq_false fun hne => hne h.terminator
    · intro i hi
      rw [snapshotOf_getElem?, hmod, if_pos hi, hlast.before i hi, hshadow i hi]
    · rw [hlast.monitor]
      congr 1
      refine filter_congr fun i hi => ?_
      have hin : i < n := List.mem_range.mp hi
      rw [hshadow i hin, snapshotOf_getElem?, hmod, if_pos hin, decide_eq_decide, Ne, Ne,
        Option.some.injEq, eq_comm]
    · intro i hi
      rw [hlast.shadowReads] at hi
      exact List.mem_range.mp hi

def exTable (a b c : BitVec 64) : Mem :=
  store64 (store64 (store64 (fun _ => 0#8) (syscallEntryGpa 0) a) (syscallEntryGpa 1) b)
    (syscallEntryGpa 2) c

lemma exTable_length : TableLength (exTable 0x10#64 0x20#64 0#64) 2 := by
  refine ⟨fun i hi => ?_, by decide⟩
  match i, hi with
  | 0, _ | 1, _ => decide

/-- A hook on the second entry is undone. -/
theorem checkPass_restores_iff_hooked :
    ∃ info s, (∃ fuel, takeSnapshot fuel (exTable 0x10#64 0x20#64 0#64) = some info) ∧
      (∃ fuel, checkPass fuel info (fun _ => 0#64) (exTable 0x10#64 0x99#64 0#64) = some s) ∧
      PassRestores 2 info (exTable 0x10#64 0x99#64 0#64) s :=
  (checkPass_restores_iff (fun _ => 0#64) exTable_length).mpr ⟨by decide, by
    refine ⟨fun i hi => ?_, by decide⟩
    match i, hi with
    | 0, _ => decide
    | 1, _ => decide⟩

/-- The guest zeroes the first entry and hooks the second: the pass ends before
it looks at any entry, reports nothing and restores nothing. -/
theorem checkPass_blinded : TableLength (exTable 0x10#64 0x20#64 0#64) 2 ∧
    ¬ ∃ info s, (∃ fuel, takeSnapshot fuel (exTable 0x10#64 0x20#64 0#64) = some info) ∧
      (∃ fuel, checkPass fuel info (fun _ => 0#64) (exTable 0#64 0x99#64 0#64) = some s) ∧
      PassRestores 2 info (exTable 0#64 0x99#64 0#64) s := by
  refine ⟨exTable_length, ?_⟩
  rintro ⟨info, s, hsnapshot, hpass, hrestores⟩
  obtain ⟨_, rfl⟩ := (takeSnapshot_iff exTable_length).mp hsnapshot
  obtain ⟨k, hcond, _, rfl⟩ := ends_iff.mp hpass
  cases k with
  | zero => exact absurd (hrestores.restored 0 (by decide)) (by decide)
  | succ k => exact absurd (hcond 0 (succ_pos k)) (by decide)

end QemuVmi.Plugin
