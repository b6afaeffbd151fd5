import QemuVmi.Kvm.PhysMem

/-!
# What the slots map

The slots in use, in any order, map guest addresses to host memory and flags (`Maps`). A round of the
loop of `kvm_set_phys_mem` takes a slot out and puts back what is left of it.

Results:
1. `live_set`, `live_registerSlot`: what an assignment to a slot does to the slots in use.
2. `physMemRound_spec`, `physMemLoop_spec`: a range of pages is mapped, or not mapped any more, and the
   rest stays as it is, if the slots that the range overlaps allow it (`SlotCond`).
-/

namespace QemuVmi.Kvm

open Exec List Option Nat

/-! ## Slots in use -/

def live (slots : List KVMSlot) : List KVMSlot := slots.filter fun mem => 0 < mem.memorySize

variable {mem old slot : KVMSlot}

lemma live_cons_of_pos (h : 0 < slot.memorySize) (slots : List KVMSlot) :
    live (slot :: slots) = slot :: live slots := filter_cons_of_pos (by simpa using h)

lemma live_cons_of_zero (h : slot.memorySize = 0) (slots : List KVMSlot) :
    live (slot :: slots) = live slots := filter_cons_of_neg (by simp [h])

variable {after slots slots' : List KVMSlot}

lemma live_perm (h : slots.Perm slots') : (live slots).Perm (live slots') := h.filter _

variable {i addr : Nat}

lemma live_set (h : slots[i]? = some old) (hold : 0 < old.memorySize) :
    ∃ rest, (live slots).Perm (old :: rest) ∧
      (∀ slot, 0 < slot.memorySize → (live (slots.set i slot)).Perm (slot :: rest)) ∧
      ∀ slot, slot.memorySize = 0 → (live (slots.set i slot)).Perm rest := by
  obtain ⟨hi, rfl⟩ := List.getElem?_eq_some_iff.mp h
  refine ⟨live (slots.eraseIdx i), ?_, fun slot hslot => ?_, fun slot hslot => ?_⟩
  · rw [← live_cons_of_pos hold]
    exact live_perm (getElem_cons_eraseIdx_perm hi).symm
  · rw [← live_cons_of_pos hslot]
    exact live_perm (set_perm_cons_eraseIdx hi slot)
  · rw [← live_cons_of_zero hslot (slots.eraseIdx i)]
    exact live_perm (set_perm_cons_eraseIdx hi slot)

lemma live_registerSlot {slots slots' : List KVMSlot} {slot : KVMSlot} (hslot : 0 < slot.memorySize)
    (h : registerSlot slots slot = some slots') : (live slots').Perm (slot :: live slots) := by
  obtain ⟨i, hfind, rfl⟩ := Option.map_eq_some_iff.mp h
  obtain ⟨hi, hfree, -⟩ := findIdx?_eq_some_iff_getElem.mp hfind
  have hset := live_perm (set_perm_cons_eraseIdx hi slot)
  have hget := live_perm (getElem_cons_eraseIdx_perm hi).symm
  rw [live_cons_of_pos hslot] at hset
  rw [live_cons_of_zero (of_decide_eq_true hfree)] at hget
  exact hset.trans (hget.symm.cons slot)

lemma registerSlot_isSome (h : (live slots).length < slots.length)
    (slot : KVMSlot) : ∃ slots', registerSlot slots slot = some slots' := by
  have hfree : ∃ mem ∈ slots, mem.memorySize = 0 := by
    by_contra hnone
    push Not at hnone
    have hall : live slots = slots := by
      rw [live, filter_eq_self]
      intro mem hmem
      exact decide_eq_true (Nat.pos_of_ne_zero (hnone mem hmem))
    rw [hall] at h
    exact lt_irrefl _ h
  unfold registerSlot
  cases hfind : slots.findIdx? fun mem => decide (mem.memorySize = 0) with
  | none =>
    obtain ⟨mem, hmem, hzero⟩ := hfree
    rw [findIdx?_eq_none_iff] at hfind
    exact absurd hzero (of_decide_eq_false (hfind mem hmem))
  | some i => exact ⟨_, rfl⟩

lemma registerSlot_length
    (h : registerSlot slots slot = some slots') : slots'.length = slots.length := by
  obtain ⟨i, -, rfl⟩ := Option.map_eq_some_iff.mp h
  exact length_set

/-! ## Ranges -/

def KVMSlot.endAddr (mem : KVMSlot) : Nat := mem.startAddr + mem.memorySize

def KVMSlot.Overlaps (mem : KVMSlot) (lo hi : Nat) : Prop := mem.startAddr < hi ∧ lo < mem.endAddr

instance KVMSlot.instDecidableOverlaps (mem : KVMSlot) (lo hi : Nat) : Decidable (mem.Overlaps lo hi) :=
  inferInstanceAs (Decidable (_ ∧ _))

def KVMSlot.Disjoint (mem mem' : KVMSlot) : Prop :=
  mem.endAddr ≤ mem'.startAddr ∨ mem'.endAddr ≤ mem.startAddr

lemma KVMSlot.Disjoint.symm {mem' : KVMSlot} (h : mem.Disjoint mem') : mem'.Disjoint mem :=
  Or.symm h

structure KVMSlot.Ok (mem : KVMSlot) : Prop where
  pos : 0 < mem.memorySize
  start_aligned : mem.startAddr % targetPageSize = 0
  size_aligned : mem.memorySize % targetPageSize = 0
  lt : mem.endAddr < 2 ^ 64

structure SlotsOk (slots : List KVMSlot) : Prop where
  ok : ∀ mem ∈ slots, mem.Ok
  disjoint : slots.Pairwise KVMSlot.Disjoint

section
variable {slots slots' : List KVMSlot} {mem : KVMSlot}

lemma SlotsOk.perm (h : SlotsOk slots) (hperm : slots.Perm slots') : SlotsOk slots' :=
  ⟨fun mem hmem => h.ok mem (hperm.mem_iff.mpr hmem),
    (hperm.pairwise_iff KVMSlot.Disjoint.symm).mp h.disjoint⟩

lemma SlotsOk.tail (h : SlotsOk (mem :: slots)) : SlotsOk slots :=
  ⟨fun mem' hmem => h.ok mem' (mem_cons_of_mem mem hmem), h.disjoint.of_cons⟩

lemma SlotsOk.cons (h : SlotsOk slots) (hmem : mem.Ok) (hdisjoint : ∀ mem' ∈ slots, mem.Disjoint mem') :
    SlotsOk (mem :: slots) :=
  ⟨forall_mem_cons.mpr ⟨hmem, h.ok⟩, pairwise_cons.mpr ⟨hdisjoint, h.disjoint⟩⟩

lemma SlotsOk.head (h : SlotsOk (mem :: slots)) : mem.Ok := h.ok mem mem_cons_self

lemma SlotsOk.head_disjoint (h : SlotsOk (mem :: slots)) : ∀ mem' ∈ slots, mem.Disjoint mem' :=
  (pairwise_cons.mp h.disjoint).1
end

/-! ## What is mapped -/

def KVMSlot.MapsTo (mem : KVMSlot) (addr : Nat) (target : Nat × MemFlags) : Prop :=
  mem.startAddr ≤ addr ∧ addr < mem.endAddr ∧ target = (mem.ram + (addr - mem.startAddr), mem.flags)

def Maps (slots : List KVMSlot) (addr : Nat) (target : Nat × MemFlags) : Prop :=
  ∃ mem ∈ slots, mem.MapsTo addr target

lemma maps_cons {target : Nat × MemFlags} :
    Maps (mem :: slots) addr target ↔ mem.MapsTo addr target ∨ Maps slots addr target := by
  simp only [Maps, mem_cons, exists_eq_or_imp]

lemma maps_perm {slots slots' : List KVMSlot} (h : slots.Perm slots') {addr : Nat}
    {target : Nat × MemFlags} : Maps slots addr target ↔ Maps slots' addr target :=
  exists_congr fun _ => and_congr_left fun _ => h.mem_iff

lemma SlotsOk.maps_head (h : SlotsOk (mem :: slots))
    {target : Nat × MemFlags} (hge : mem.startAddr ≤ addr) (hlt : addr < mem.endAddr) :
    Maps (mem :: slots) addr target ↔ target = (mem.ram + (addr - mem.startAddr), mem.flags) := by
  have hrest : ¬ Maps slots addr target := by
    rintro ⟨mem', hmem', hge', hlt', -⟩
    have hdisjoint := h.head_disjoint mem' hmem'
    unfold KVMSlot.Disjoint at hdisjoint
    omega
  rw [maps_cons, or_iff_left hrest, KVMSlot.MapsTo, and_iff_right hge, and_iff_right hlt]

/-! ## Overlapping slots -/

variable {startAddr endAddr : Nat}

lemma lookupFrom_spec (table : List KVMSlot) : ∀ (slots : List KVMSlot) (i : Nat)
    (found : Option (Nat × KVMSlot)), (∀ k, slots[k]? = table[i + k]?) →
    (∀ mem ∈ live slots, mem.Ok) →
    (∀ f, found = some f → table[f.1]? = some f.2 ∧ 0 < f.2.memorySize ∧ f.2.Overlaps startAddr endAddr) →
    (∀ f, lookupFrom startAddr endAddr slots i found = some f →
      table[f.1]? = some f.2 ∧ 0 < f.2.memorySize ∧ f.2.Overlaps startAddr endAddr) ∧
    (lookupFrom startAddr endAddr slots i found = none →
      found = none ∧ ∀ mem ∈ live slots, ¬ mem.Overlaps startAddr endAddr) := by
  intro slots
  induction slots with
  | nil =>
    intro i found _ _ hfound
    exact ⟨hfound, fun hnone => ⟨hnone, nofun⟩⟩
  | cons mem slots ih =>
    intro i found hget hok hfound
    have hget' : ∀ k, slots[k]? = table[i + 1 + k]? := by
      intro k
      have h := hget (k + 1)
      rwa [List.getElem?_cons_succ, show i + (k + 1) = i + 1 + k by omega] at h
    rw [lookupFrom]
    by_cases hzero : mem.memorySize = 0
    · rw [if_pos (.inl hzero)]
      rw [live_cons_of_zero hzero] at hok ⊢
      exact ih (i + 1) found hget' hok hfound
    have hpos : 0 < mem.memorySize := Nat.pos_of_ne_zero hzero
    rw [live_cons_of_pos hpos] at hok ⊢
    obtain ⟨hmem, hok'⟩ := forall_mem_cons.mp hok
    have hend : addAddr mem.startAddr mem.memorySize = mem.endAddr := mod_eq_of_lt hmem.lt
    by_cases hlater : (found.any fun f => decide (f.2.startAddr < mem.startAddr)) = true
    · rw [if_pos (.inr hlater)]
      obtain ⟨hsome, hnone⟩ := ih (i + 1) found hget' hok' hfound
      refine ⟨hsome, fun h => ?_⟩
      rw [(hnone h).1] at hlater
      cases hlater
    rw [if_neg (by tauto), hend]
    by_cases hover : endAddr > mem.startAddr ∧ startAddr < mem.endAddr
    · rw [if_pos hover]
      obtain ⟨hsome, hnone⟩ := ih (i + 1) (some (i, mem)) hget' hok' (by
        rintro f ⟨⟩
        exact ⟨(hget 0).symm, hpos, hover⟩)
      exact ⟨hsome, fun h => absurd (hnone h).1 nofun⟩
    · rw [if_neg hover]
      obtain ⟨hsome, hnone⟩ := ih (i + 1) found hget' hok' hfound
      refine ⟨hsome, fun h => ⟨(hnone h).1, forall_mem_cons.mpr ⟨hover, (hnone h).2⟩⟩⟩

lemma kvmLookupOverlappingSlot_some (hok : SlotsOk (live slots))
    (h : kvmLookupOverlappingSlot slots startAddr endAddr = some (i, old)) :
    slots[i]? = some old ∧ 0 < old.memorySize ∧ old.Overlaps startAddr endAddr :=
  (lookupFrom_spec slots slots 0 none (fun k => by rw [zero_add]) hok.ok nofun).1 (i, old) h

lemma kvmLookupOverlappingSlot_none (hok : SlotsOk (live slots))
    (h : kvmLookupOverlappingSlot slots startAddr endAddr = none) :
    ∀ mem ∈ live slots, ¬ mem.Overlaps startAddr endAddr :=
  ((lookupFrom_spec slots slots 0 none (fun k => by rw [zero_add]) hok.ok nofun).2 h).2

/-! ## A range of pages -/

/-- Pages that `kvm_set_phys_mem` maps to host memory, or does not map any more. -/
structure Request where
  lo : Nat
  hi : Nat
  ram : Nat
  flags : MemFlags
  add : Bool
  broken : Bool

structure Job extends Request where
  lt : lo < hi
  hi_lt : hi < 2 ^ 64
  lo_aligned : lo % targetPageSize = 0
  hi_aligned : hi % targetPageSize = 0

def Job.target (job : Job) (addr : Nat) : Nat × MemFlags := (job.ram + (addr - job.lo), job.flags)

/-- What must hold of a slot that the range overlaps. What is left of it gets the flags of the range, so
they must be its own. A slot that already maps the range keeps its `KVM_MEM_READONLY`. The workaround
for a broken kernel keeps the host memory of the slot. -/
structure SlotCond (req : Request) (mem : KVMSlot) : Prop where
  leftover : mem.startAddr < req.lo ∨ req.hi < mem.endAddr → mem.flags = req.flags
  readonly : req.add = true → mem.ram + req.lo = req.ram + mem.startAddr →
    mem.startAddr = req.lo ∧ mem.endAddr = req.hi ∨ req.broken = true →
    mem.flags.readonly = req.flags.readonly
  workaround : req.add = true → req.broken = true → req.lo ≤ mem.startAddr → mem.endAddr < req.hi →
    mem.ram + req.lo = req.ram + mem.startAddr

structure Mapped (job : Job) (before after : List KVMSlot) : Prop where
  ok : SlotsOk after
  maps : ∀ addr target, Maps after addr target ↔
    if job.lo ≤ addr ∧ addr < job.hi then job.add = true ∧ target = job.target addr
    else Maps before addr target

lemma Mapped.perm {job : Job} {before after' : List KVMSlot} (h : Mapped job before after)
    (hperm : after.Perm after') : Mapped job before after' :=
  ⟨h.ok.perm hperm, fun addr target => (maps_perm hperm).symm.trans (h.maps addr target)⟩

/-- The state of the loop: the addresses before `range` have been mapped already. -/
structure Carving (job : Job) (before : List KVMSlot) (slots : List KVMSlot) (range : Range) : Prop where
  ok : SlotsOk (live slots)
  lo_le : job.lo ≤ range.startAddr
  end_eq : range.startAddr + range.size = job.hi
  pos : 0 < range.size
  aligned : range.startAddr % targetPageSize = 0
  ram : range.ram + job.lo = job.ram + range.startAddr
  advanced : range.startAddr = job.lo ∨ job.broken = true ∧ job.add = true
  outside : ∀ addr target, addr < job.lo ∨ job.hi ≤ addr →
    (Maps (live slots) addr target ↔ Maps before addr target)
  done : ∀ addr target, job.lo ≤ addr → addr < range.startAddr →
    (Maps (live slots) addr target ↔ target = job.target addr)
  cond : ∀ mem ∈ live slots, mem.Overlaps range.startAddr job.hi → SlotCond job.toRequest mem

section
variable {job : Job} {before slots : List KVMSlot} {range : Range} {old : KVMSlot} {rest : List KVMSlot}
  (hperm : (live slots).Perm (old :: rest))

section
variable (h : Carving job before slots range)
include h

lemma Carving.flags_eq (hold : old ∈ live slots) (hover : old.Overlaps range.startAddr job.hi)
    (hleft : old.startAddr < range.startAddr ∨ job.hi < old.endAddr) : old.flags = job.flags := by
  by_cases hlow : job.lo ≤ old.startAddr ∧ old.startAddr < range.startAddr
  · -- the slot maps an address that has been mapped already
    have hpos := (h.ok.ok old hold).pos
    have hmaps : Maps (live slots) old.startAddr (old.ram, old.flags) :=
      ⟨old, hold, Nat.le_refl _, Nat.lt_add_of_pos_right hpos, by rw [Nat.sub_self, Nat.add_zero]⟩
    exact congrArg Prod.snd ((h.done _ _ hlow.1 hlow.2).mp hmaps)
  · refine (h.cond old hold hover).leftover ?_
    omega

include hperm in
lemma Carving.fits
    (hadd : job.add = true) (hstart : old.startAddr ≤ range.startAddr) (hend : job.hi ≤ old.endAddr)
    (hram : range.ram + old.startAddr = old.ram + range.startAddr) :
    Mapped job before (kvmSlotDirtyPagesLogChange old job.flags.logDirty :: rest) := by
  have hold : old ∈ live slots := hperm.mem_iff.mpr mem_cons_self
  have hok := h.ok.perm hperm
  have hlo := h.lo_le
  have hrange := h.end_eq
  have hpos := h.pos
  have hram' := h.ram
  have hover : old.Overlaps range.startAddr job.hi := ⟨by omega, by omega⟩
  have hsame : old.ram + job.lo = job.ram + old.startAddr := by omega
  have hflags : kvmSlotDirtyPagesLogChange old job.flags.logDirty = { old with flags := job.flags } := by
    have hreadonly : old.flags.readonly = job.flags.readonly := by
      by_cases hleft : old.startAddr < range.startAddr ∨ job.hi < old.endAddr
      · rw [h.flags_eq hold hover hleft]
      refine (h.cond old hold hover).readonly hadd hsame ?_
      rcases h.advanced with heq | ⟨hbroken, -⟩
      · exact .inl (by omega)
      · exact .inr hbroken
    simp only [kvmSlotDirtyPagesLogChange, hreadonly]
  rw [hflags]
  have hok' : SlotsOk ({ old with flags := job.flags } :: rest) :=
    hok.tail.cons ⟨hok.head.pos, hok.head.start_aligned, hok.head.size_aligned, hok.head.lt⟩
      hok.head_disjoint
  refine ⟨hok', fun addr target => ?_⟩
  have hbefore := @maps_perm _ _ hperm addr target
  rw [maps_cons] at hbefore
  -- an address of the slot that is not in the range has the flags already
  have hkeep : addr < range.startAddr ∨ job.hi ≤ addr →
      (KVMSlot.MapsTo { old with flags := job.flags } addr target ↔ old.MapsTo addr target) := by
    intro hout
    refine and_congr_right fun hge => and_congr_right fun hlt => ?_
    have hlt' : addr < old.endAddr := hlt
    have hge' : old.startAddr ≤ addr := hge
    rw [h.flags_eq hold hover (by omega)]
  split
  next hin =>
    by_cases hdone : addr < range.startAddr
    · rw [maps_cons, hkeep (.inl hdone), ← hbefore, h.done addr target hin.1 hdone]
      exact (and_iff_right hadd).symm
    have hhost : old.ram + (addr - old.startAddr) = job.ram + (addr - job.lo) := by omega
    have hge : old.startAddr ≤ addr := by omega
    have hlt : addr < old.endAddr := by omega
    rw [hok'.maps_head hge hlt, and_iff_right hadd, hhost]
    rfl
  next hout =>
    rw [maps_cons, hkeep (by omega), ← hbefore]
    exact h.outside addr target (by omega)

include hperm in
lemma Carving.workaround (hadd : job.add = true) (hbroken : job.broken = true)
    (hstart : old.startAddr = range.startAddr) (hsize : old.memorySize < range.size)
    (hperm' : (live slots').Perm ({ old with flags := job.flags } :: rest)) :
    Carving job before slots' ⟨range.startAddr + old.memorySize, range.size - old.memorySize,
      range.ram + old.memorySize⟩ := by
  have hold : old ∈ live slots := hperm.mem_iff.mpr mem_cons_self
  have hok := h.ok.perm hperm
  have hlo := h.lo_le
  have hrange := h.end_eq
  have hram := h.ram
  have hsizeAligned := hok.head.size_aligned
  have hstartAligned := h.aligned
  have hendAddr : old.endAddr = range.startAddr + old.memorySize := by rw [KVMSlot.endAddr, hstart]
  have hpos := hok.head.pos
  have hover : old.Overlaps range.startAddr job.hi := ⟨by omega, by omega⟩
  have hsame := (h.cond old hold hover).workaround hadd hbroken (by omega) (by omega)
  have hok' : SlotsOk ({ old with flags := job.flags } :: rest) :=
    hok.tail.cons ⟨hpos, hok.head.start_aligned, hsizeAligned, hok.head.lt⟩ hok.head_disjoint
  have hmaps : ∀ addr target, addr < range.startAddr ∨ old.endAddr ≤ addr →
      (Maps (live slots') addr target ↔ Maps (live slots) addr target) := by
    intro addr target hout
    rw [maps_perm hperm', maps_perm hperm, maps_cons, maps_cons]
    refine or_congr_left (iff_of_false ?_ ?_)
    · rintro ⟨hge, hlt, -⟩
      have hge' : old.startAddr ≤ addr := hge
      have hlt' : addr < old.endAddr := hlt
      omega
    · rintro ⟨hge, hlt, -⟩
      omega
  refine ⟨hok'.perm hperm'.symm, by dsimp only; omega, by dsimp only; omega, by dsimp only; omega, ?_,
    by dsimp only; omega, .inr ⟨hbroken, hadd⟩, fun addr target hout => ?_, fun addr target hge hlt => ?_,
    fun mem hmem hover' => ?_⟩
  · rw [add_mod, hstartAligned, hsizeAligned]
    rfl
  · rw [hmaps addr target (by omega)]
    exact h.outside addr target hout
  · have hlt' : addr < range.startAddr + old.memorySize := hlt
    by_cases hdone : addr < range.startAddr
    · rw [hmaps addr target (.inl hdone)]
      exact h.done addr target hge hdone
    have hhost : old.ram + (addr - old.startAddr) = job.ram + (addr - job.lo) := by omega
    have hge' : old.startAddr ≤ addr := by omega
    have hlt'' : addr < old.endAddr := by omega
    rw [maps_perm hperm', hok'.maps_head hge' hlt'', hhost]
    rfl
  · rcases mem_cons.mp (hperm'.mem_iff.mp hmem) with rfl | hrest
    · have hlt : range.startAddr + old.memorySize < old.endAddr := hover'.2
      omega
    · refine h.cond mem (hperm.mem_iff.mpr (mem_cons_of_mem old hrest)) ⟨hover'.1, ?_⟩
      have hlt : range.startAddr + old.memorySize < mem.endAddr := hover'.2
      omega
end

def leftover (old : KVMSlot) (flags : MemFlags) (lo hi : Nat) : List KVMSlot :=
  (if hi < old.endAddr then
    [⟨hi, old.memorySize - (hi - old.startAddr), old.ram + (hi - old.startAddr), flags⟩] else []) ++
  if old.startAddr < lo then [⟨old.startAddr, lo - old.startAddr, old.ram, flags⟩] else []

variable {flags : MemFlags} {lo hi : Nat}

lemma mem_leftover : mem ∈ leftover old flags lo hi ↔ hi < old.endAddr ∧
        mem = ⟨hi, old.memorySize - (hi - old.startAddr), old.ram + (hi - old.startAddr), flags⟩ ∨
      old.startAddr < lo ∧ mem = ⟨old.startAddr, lo - old.startAddr, old.ram, flags⟩ := by
  unfold leftover
  rw [mem_append]
  refine or_congr ?_ ?_
  · split <;> simp_all
  · split <;> simp_all

lemma not_overlaps_leftover (hmem : mem ∈ leftover old flags lo hi) : ¬ mem.Overlaps lo hi := by
  rintro ⟨hlt, hgt⟩
  rcases mem_leftover.mp hmem with ⟨-, rfl⟩ | ⟨hleft, rfl⟩
  · exact lt_irrefl _ hlt
  · simp only [KVMSlot.endAddr] at hgt
    omega

lemma maps_leftover {target : Nat × MemFlags} (hlo : lo < old.endAddr)
    (hhi : old.startAddr < hi) : Maps (leftover old flags lo hi) addr target ↔
      (addr < lo ∨ hi ≤ addr) ∧ KVMSlot.MapsTo { old with flags := flags } addr target := by
  simp only [KVMSlot.endAddr] at hlo
  constructor
  · rintro ⟨mem, hmem, hge, hlt, rfl⟩
    rcases mem_leftover.mp hmem with ⟨hleft, rfl⟩ | ⟨hleft, rfl⟩
    · simp only [KVMSlot.endAddr] at hleft hge hlt
      refine ⟨.inr hge, ?_, ?_, Prod.ext ?_ rfl⟩
      · dsimp only
        omega
      · simp only [KVMSlot.endAddr]
        omega
      · dsimp only
        omega
    · simp only [KVMSlot.endAddr] at hge hlt
      refine ⟨.inl (by omega), hge, ?_, rfl⟩
      simp only [KVMSlot.endAddr]
      omega
  · rintro ⟨hout, hge, hlt, rfl⟩
    simp only [KVMSlot.endAddr] at hge hlt
    rcases hout with hbelow | habove
    · refine ⟨_, mem_leftover.mpr (.inr ⟨by omega, rfl⟩), hge, ?_, rfl⟩
      simp only [KVMSlot.endAddr]
      omega
    have hleft : hi < old.endAddr := by
      rw [KVMSlot.endAddr]
      omega
    refine ⟨_, mem_leftover.mpr (.inl ⟨hleft, rfl⟩), habove, ?_, Prod.ext ?_ rfl⟩
    · simp only [KVMSlot.endAddr]
      omega
    · dsimp only
      omega

lemma slotsOk_leftover (hok : SlotsOk (old :: rest)) (hlo : lo < old.endAddr)
    (hhi : old.startAddr < hi) (hle : lo ≤ hi) (hloAligned : lo % targetPageSize = 0)
    (hhiAligned : hi % targetPageSize = 0) : SlotsOk (leftover old flags lo hi ++ rest) := by
  have hpage : targetPageSize = 4096 := rfl
  have hold := hok.head
  have hstart := hold.start_aligned
  have hsize := hold.size_aligned
  have hend := hold.lt
  rw [hpage] at hloAligned hhiAligned hstart hsize
  simp only [KVMSlot.endAddr] at hlo hend
  have hparts : ∀ mem ∈ leftover old flags lo hi, mem.Ok ∧
      old.startAddr ≤ mem.startAddr ∧ mem.endAddr ≤ old.endAddr := by
    intro mem hmem
    rcases mem_leftover.mp hmem with ⟨hleft, rfl⟩ | ⟨hleft, rfl⟩
    · simp only [KVMSlot.endAddr] at hleft ⊢
      refine ⟨⟨by dsimp only; omega, hhiAligned, ?_, by dsimp only [KVMSlot.endAddr]; omega⟩, by omega,
        by omega⟩
      dsimp only
      rw [hpage]
      omega
    simp only [KVMSlot.endAddr]
    refine ⟨⟨by dsimp only; omega, hold.start_aligned, ?_, by dsimp only [KVMSlot.endAddr]; omega⟩,
      le_refl _, by omega⟩
    dsimp only
    rw [hpage]
    omega
  refine ⟨fun mem hmem => ?_, pairwise_append.mpr ⟨?_, hok.tail.disjoint, fun mem hmem mem' hmem' => ?_⟩⟩
  · rcases mem_append.mp hmem with hpart | hrest
    · exact (hparts mem hpart).1
    · exact hok.tail.ok mem hrest
  · -- the suffix comes behind the prefix
    unfold leftover
    split
    · split
      · refine pairwise_pair.mpr (.inr ?_)
        simp only [KVMSlot.endAddr]
        omega
      · exact pairwise_singleton _ _
    · split
      · exact pairwise_singleton _ _
      · exact List.Pairwise.nil
  · obtain ⟨-, hge, hle'⟩ := hparts mem hmem
    have hdisjoint := hok.head_disjoint mem' hmem'
    unfold KVMSlot.Disjoint at hdisjoint ⊢
    omega

variable (h : Carving job before slots range)
  (hperm : (live slots).Perm (old :: rest)) (hover : old.Overlaps range.startAddr job.hi)
  (hperm' : (live slots').Perm (leftover old job.flags range.startAddr job.hi ++ rest))

include h hperm hover hperm' in
lemma Carving.evict : Carving job before slots' range := by
  have hold : old ∈ live slots := hperm.mem_iff.mpr mem_cons_self
  have hok := h.ok.perm hperm
  have hrange := h.end_eq
  have hlo := h.lo_le
  have hle : range.startAddr ≤ job.hi := by omega
  have hmaps : ∀ addr target, addr < range.startAddr ∨ job.hi ≤ addr →
      (Maps (live slots') addr target ↔ Maps (live slots) addr target) := by
    intro addr target hout
    rw [maps_perm hperm', maps_perm hperm, maps_cons]
    have happend : Maps (leftover old job.flags range.startAddr job.hi ++ rest) addr target ↔
        Maps (leftover old job.flags range.startAddr job.hi) addr target ∨ Maps rest addr target := by
      simp only [Maps, mem_append, or_and_right, exists_or]
    rw [happend, maps_leftover hover.2 hover.1, and_iff_right hout]
    refine or_congr_left (and_congr_right fun hge => and_congr_right fun hlt => ?_)
    have hge' : old.startAddr ≤ addr := hge
    have hlt' : addr < old.endAddr := hlt
    rw [h.flags_eq hold hover (by omega)]
  refine ⟨(slotsOk_leftover hok hover.2 hover.1 hle h.aligned job.hi_aligned).perm hperm'.symm, h.lo_le,
    h.end_eq, h.pos, h.aligned, h.ram, h.advanced, fun addr target hout => ?_,
    fun addr target hge hlt => ?_, fun mem hmem hover' => ?_⟩
  · rw [hmaps addr target (by omega)]
    exact h.outside addr target hout
  · rw [hmaps addr target (.inl hlt)]
    exact h.done addr target hge hlt
  rcases mem_append.mp (hperm'.mem_iff.mp hmem) with hpart | hrest
  · exact absurd hover' (not_overlaps_leftover hpart)
  · exact h.cond mem (hperm.mem_iff.mpr (mem_cons_of_mem old hrest)) hover'

/-! ## The loop -/

lemma registerSlotIf_spec {c : Prop} [Decidable c] {slots : List KVMSlot} {slot : KVMSlot}
    (hslot : c → 0 < slot.memorySize) :
    (∀ slots', registerSlotIf c slots slot = some slots' → slots'.length = slots.length ∧
      (live slots').Perm ((if c then [slot] else []) ++ live slots)) ∧
    ((live slots).length < slots.length → ∃ slots', registerSlotIf c slots slot = some slots') := by
  unfold registerSlotIf
  by_cases hc : c
  · simp only [if_pos hc]
    exact ⟨fun slots' h => ⟨registerSlot_length h, live_registerSlot (hslot hc) h⟩,
      fun hroom => registerSlot_isSome hroom slot⟩
  simp only [if_neg hc]
  refine ⟨?_, fun _ => ⟨slots, rfl⟩⟩
  rintro slots' ⟨⟩
  exact ⟨rfl, .refl _⟩

def overlapping (job : Job) (slots : List KVMSlot) (range : Range) : Nat :=
  (live slots).countP fun mem => mem.Overlaps range.startAddr job.hi

/-- The loop takes no more slots than it gives back, but for one at its end. -/
def Room (job : Job) (used : Nat) (slots : List KVMSlot) (range : Range) : Prop :=
  (live slots).length ≤ used ∨ (live slots).length = used + 1 ∧ overlapping job slots range = 0

lemma Room.trans {used : Nat} {range' : Range} (h : Room job used slots range)
    (h' : Room job (live slots).length slots' range')
    (hless : overlapping job slots' range' < overlapping job slots range) :
    Room job used slots' range' := by
  unfold Room at h h' ⊢
  omega

include hperm in
lemma overlapping_of_perm
    (hover : old.Overlaps range.startAddr job.hi) : overlapping job slots range =
      (rest.countP fun mem => mem.Overlaps range.startAddr job.hi) + 1 := by
  rw [overlapping, hperm.countP_eq, countP_cons, if_pos (decide_eq_true hover)]

include h hperm hover hperm' in
lemma Carving.evict_room : overlapping job slots' range < overlapping job slots range ∧
      Room job (live slots).length slots' range := by
  have hok := h.ok.perm hperm
  have hzero : (leftover old job.flags range.startAddr job.hi).countP
      (fun mem => decide (mem.Overlaps range.startAddr job.hi)) = 0 := by
    rw [countP_eq_zero]
    intro mem hmem
    rw [decide_eq_true_eq]
    exact not_overlaps_leftover hmem
  have hcount' : overlapping job slots' range =
      rest.countP fun mem => mem.Overlaps range.startAddr job.hi := by
    rw [overlapping, hperm'.countP_eq, countP_append, hzero, zero_add]
  have hcount := overlapping_of_perm hperm hover
  refine ⟨by omega, ?_⟩
  rw [Room, hperm'.length_eq, hperm.length_eq, length_append, length_cons, hcount']
  by_cases hboth : job.hi < old.endAddr ∧ old.startAddr < range.startAddr
  · -- no other slot can be in the range
    refine .inr ⟨?_, countP_eq_zero.mpr fun mem hmem => ?_⟩
    · rw [leftover, if_pos hboth.1, if_pos hboth.2, length_append]
      simp only [length_singleton]
      omega
    rw [decide_eq_true_eq]
    rintro ⟨hlt, hgt⟩
    have hdisjoint := hok.head_disjoint mem hmem
    unfold KVMSlot.Disjoint at hdisjoint
    omega
  · refine .inl ?_
    have hlength : (leftover old job.flags range.startAddr job.hi).length ≤ 1 := by
      rw [leftover, length_append]
      split_ifs <;> simp_all
    omega

include hperm in
lemma Carving.workaround_room {slots' : List KVMSlot} {range' : Range}
    (hover : old.Overlaps range.startAddr job.hi)
    (hstart : range.startAddr ≤ range'.startAddr) (hend : old.endAddr ≤ range'.startAddr)
    (hperm' : (live slots').Perm ({ old with flags := job.flags } :: rest)) :
    overlapping job slots' range' < overlapping job slots range ∧
      Room job (live slots).length slots' range' := by
  have hnot : ¬ decide (KVMSlot.Overlaps { old with flags := job.flags } range'.startAddr job.hi) = true := by
    rw [decide_eq_true_eq]
    rintro ⟨-, hgt⟩
    have hgt' : range'.startAddr < old.endAddr := hgt
    omega
  have hle : rest.countP (fun mem => decide (mem.Overlaps range'.startAddr job.hi)) ≤
      rest.countP fun mem => decide (mem.Overlaps range.startAddr job.hi) := by
    refine countP_mono_left fun mem _ hmem => ?_
    rw [decide_eq_true_eq] at hmem ⊢
    exact ⟨hmem.1, hstart.trans_lt hmem.2⟩
  have hcount' : overlapping job slots' range' =
      rest.countP fun mem => mem.Overlaps range'.startAddr job.hi := by
    rw [overlapping, hperm'.countP_eq, countP_cons, if_neg hnot, add_zero]
  have hcount := overlapping_of_perm hperm hover
  refine ⟨by omega, .inl ?_⟩
  rw [hperm'.length_eq, hperm.length_eq]
  exact le_refl _

variable {s : KVMState}

/-- What a round of the loop comes to. -/
inductive RoundOk (job : Job) (before slots : List KVMSlot) (range : Range) : Option Round → Prop
  | clear : (∀ mem ∈ live slots, ¬ mem.Overlaps range.startAddr job.hi) →
      RoundOk job before slots range (some .clear)
  | returned {slots' : List KVMSlot} : slots'.length = slots.length → Mapped job before (live slots') →
      RoundOk job before slots range (some (.returned slots'))
  | next {slots' : List KVMSlot} {range' : Range} : slots'.length = slots.length →
      Carving job before slots' range' → overlapping job slots' range' < overlapping job slots range →
      Room job (live slots).length slots' range' →
      RoundOk job before slots range (some (.next slots' range'))
  | full : slots.length ≤ (live slots).length → RoundOk job before slots range none

include h in
lemma physMemRound_spec (hbroken : s.brokenSetMemRegion = job.broken) :
    RoundOk job before slots range (physMemRound s job.add job.flags slots range) := by
  have hrange := h.end_eq
  have hhi := job.hi_lt
  have hendAddr : addAddr range.startAddr range.size = job.hi := by
    rw [addAddr, hrange, mod_eq_of_lt hhi]
  unfold physMemRound
  dsimp only
  rw [hendAddr]
  cases hlookup : kvmLookupOverlappingSlot slots range.startAddr job.hi with
  | none => exact .clear (kvmLookupOverlappingSlot_none h.ok hlookup)
  | some found =>
    obtain ⟨i, old⟩ := found
    obtain ⟨hget, hpos, hover⟩ := kvmLookupOverlappingSlot_some h.ok hlookup
    obtain ⟨rest, hperm, hreplace, htake⟩ := live_set hget hpos
    have hok := h.ok.perm hperm
    have holdEnd : addAddr old.startAddr old.memorySize = old.endAddr := mod_eq_of_lt hok.head.lt
    have hlength : ∀ slot, (slots.set i slot).length = slots.length := fun _ => length_set
    have htaken := htake { old with memorySize := 0 } rfl
    have hused : (live slots).length ≤ slots.length := length_filter_le _ _
    have hcount : (live (slots.set i { old with memorySize := 0 })).length + 1 = (live slots).length := by
      rw [htaken.length_eq, hperm.length_eq, length_cons]
    dsimp only
    rw [holdEnd]
    split
    next hfits =>
      obtain ⟨hadd, hstart, hend, hram⟩ := hfits
      have hreplaced := hreplace (kvmSlotDirtyPagesLogChange old job.flags.logDirty) hpos
      exact .returned (hlength _) ((h.fits hperm hadd hstart hend hram).perm hreplaced.symm)
    split
    next hwork =>
      obtain ⟨hb, hstart, hsize, hadd⟩ := hwork
      rw [hbroken] at hb
      obtain ⟨slots', hregister⟩ := registerSlot_isSome
        (show (live (slots.set i { old with memorySize := 0 })).length < _ by rw [hlength]; omega)
        { old with flags := job.flags }
      rw [hregister]
      have hperm' := (@live_registerSlot _ _ { old with flags := job.flags } hpos hregister).trans
        (htaken.cons _)
      have hstart' : addAddr range.startAddr old.memorySize = range.startAddr + old.memorySize :=
        mod_eq_of_lt (by omega)
      obtain ⟨hless, hroom⟩ := @Carving.workaround_room job slots range old rest hperm slots'
        ⟨range.startAddr + old.memorySize, range.size - old.memorySize, range.ram + old.memorySize⟩
        hover (le_add_right _ _) (by rw [KVMSlot.endAddr, hstart]) hperm'
      rw [bind_eq_bind, bind_some, hstart']
      exact .next ((registerSlot_length hregister).trans (hlength _))
        (h.workaround hperm hadd hb hstart hsize hperm') hless hroom
    · obtain ⟨hlt, hgt⟩ := hover
      have hsplit : old.endAddr = old.startAddr + old.memorySize := rfl
      -- the prefix takes the place of the slot
      obtain ⟨hleft, hleftSome⟩ := @registerSlotIf_spec (old.startAddr < range.startAddr) _
        (slots.set i { old with memorySize := 0 })
        ⟨old.startAddr, range.startAddr - old.startAddr, old.ram, job.flags⟩
        fun hleft => Nat.sub_pos_of_lt hleft
      obtain ⟨slots₁, hregister₁⟩ := hleftSome (by rw [hlength]; omega)
      obtain ⟨hlength₁, hperm₁⟩ := hleft slots₁ hregister₁
      rw [hregister₁, bind_eq_bind, bind_some]
      obtain ⟨hsuffix, hsuffixSome⟩ := @registerSlotIf_spec (old.endAddr > job.hi) _ slots₁
        ⟨job.hi, old.memorySize - (job.hi - old.startAddr), old.ram + (job.hi - old.startAddr), job.flags⟩
        fun hleft => by dsimp only; omega
      cases hregister₂ : registerSlotIf (old.endAddr > job.hi) slots₁ ⟨job.hi,
          old.memorySize - (job.hi - old.startAddr), old.ram + (job.hi - old.startAddr), job.flags⟩ with
      | none =>
        refine .full (not_lt.mp fun hroom => ?_)
        have hused₁ : (live slots₁).length ≤ (live slots).length := by
          rw [hperm₁.length_eq, length_append, ← hcount]
          split
          · simp only [length_singleton]
            omega
          · simp only [length_nil]
            omega
        obtain ⟨slots₂, hsome⟩ := hsuffixSome (by rw [hlength₁, hlength]; omega)
        rw [hregister₂] at hsome
        cases hsome
      | some slots₂ =>
        obtain ⟨hlength₂, hperm₂⟩ := hsuffix slots₂ hregister₂
        have hperm' : (live slots₂).Perm
            (leftover old job.flags range.startAddr job.hi ++ rest) := by
          rw [leftover, append_assoc]
          exact hperm₂.trans ((hperm₁.trans (htaken.append_left _)).append_left _)
        obtain ⟨hless, hroom⟩ := h.evict_room hperm ⟨hlt, hgt⟩ hperm'
        exact .next ((hlength₂.trans hlength₁).trans (hlength _)) (h.evict hperm ⟨hlt, hgt⟩ hperm') hless
          hroom

include h in
lemma Carving.register
    (hclear : ∀ mem ∈ live slots, ¬ mem.Overlaps range.startAddr job.hi)
    (hafter : after.Perm
      (if job.add then ⟨range.startAddr, range.size, range.ram, job.flags⟩ :: live slots else live slots)) :
    Mapped job before after := by
  have hrange := h.end_eq
  have hlo := h.lo_le
  have hpos := h.pos
  have hram := h.ram
  have hhi := job.hi_lt
  have hhiAligned := job.hi_aligned
  have haligned := h.aligned
  have hpage : targetPageSize = 4096 := rfl
  refine Mapped.perm ?_ hafter.symm
  -- the slots in use map nothing from the start of the range on
  have hnone : ∀ addr target, range.startAddr ≤ addr → addr < job.hi → ¬ Maps (live slots) addr target := by
    rintro addr target hge hlt ⟨mem, hmem, hge', hlt', -⟩
    exact hclear mem hmem ⟨by omega, by omega⟩
  cases hadd : job.add with
  | true =>
    rw [if_pos rfl]
    refine ⟨h.ok.cons ⟨hpos, haligned, ?_, ?_⟩ fun mem hmem => ?_, fun addr target => ?_⟩
    · dsimp only
      rw [hpage] at haligned hhiAligned ⊢
      omega
    · rwa [KVMSlot.endAddr, hrange]
    · have hnot := hclear mem hmem
      unfold KVMSlot.Overlaps at hnot
      unfold KVMSlot.Disjoint
      simp only [KVMSlot.endAddr] at hnot ⊢
      omega
    rw [maps_cons]
    have hnew : KVMSlot.MapsTo ⟨range.startAddr, range.size, range.ram, job.flags⟩ addr target ↔
        range.startAddr ≤ addr ∧ addr < job.hi ∧
          target = (range.ram + (addr - range.startAddr), job.flags) := by
      rw [KVMSlot.MapsTo, KVMSlot.endAddr, hrange]
    rw [hnew]
    split
    next hin =>
      rw [and_iff_right hadd]
      by_cases hdone : addr < range.startAddr
      · rw [or_iff_right fun hmaps => absurd hmaps.1 (by omega)]
        exact h.done addr target hin.1 hdone
      rw [or_iff_left (hnone addr target (by omega) hin.2), and_iff_right (by omega),
        and_iff_right hin.2]
      have hhost : range.ram + (addr - range.startAddr) = job.ram + (addr - job.lo) := by omega
      rw [hhost]
      rfl
    next hout =>
      rw [or_iff_right fun hmaps => hout ⟨by omega, hmaps.2.1⟩]
      exact h.outside addr target (by omega)
  | false =>
    rw [if_neg Bool.false_ne_true]
    refine ⟨h.ok, fun addr target => ?_⟩
    have hstart : range.startAddr = job.lo := by
      rcases h.advanced with heq | ⟨-, htrue⟩
      · exact heq
      · rw [hadd] at htrue
        cases htrue
    split
    next hin =>
      exact iff_of_false (hnone addr target (by omega) hin.2) fun hfalse => by
        rw [hadd] at hfalse
        cases hfalse.1
    · exact h.outside addr target (by omega)

lemma physMemLoop_spec (hbroken : s.brokenSetMemRegion = job.broken) {used : Nat} (fuel : Nat) :
    ∀ {slots : List KVMSlot} {range : Range}, Carving job before slots range →
    overlapping job slots range < fuel → Room job used slots range →
    (∀ slots', physMemLoop s job.add job.flags fuel slots range = some slots' →
      slots'.length = slots.length ∧ Mapped job before (live slots')) ∧
    (used + 2 ≤ slots.length → ∃ slots', physMemLoop s job.add job.flags fuel slots range = some slots') := by
  induction fuel with
  | zero =>
    intro slots range h hfuel
    exact absurd hfuel (not_lt_zero _)
  | succ fuel ih =>
    intro slots range h hfuel hroom
    have hround := physMemRound_spec h hbroken
    have hused : (live slots).length ≤ used + 1 := by rcases hroom with hle | ⟨heq, -⟩ <;> omega
    rw [physMemLoop]
    generalize hr : physMemRound s job.add job.flags slots range = r at hround
    cases hround with
    | clear hclear =>
      rw [if_neg h.pos.ne']
      cases hadd : job.add with
      | false =>
        refine ⟨?_, fun _ => ⟨slots, rfl⟩⟩
        rintro slots' ⟨⟩
        refine ⟨rfl, h.register hclear ?_⟩
        rw [hadd, if_neg Bool.false_ne_true]
      | true =>
        refine ⟨fun slots' hregister => ⟨registerSlot_length hregister, h.register hclear ?_⟩,
          fun hspace => registerSlot_isSome (by omega) _⟩
        rw [hadd, if_pos rfl]
        exact live_registerSlot h.pos hregister
    | returned hlength hmapped =>
      refine ⟨?_, fun _ => ⟨_, rfl⟩⟩
      rintro slots' ⟨⟩
      exact ⟨hlength, hmapped⟩
    | next hlength hcarving hless hroom' =>
      obtain ⟨hsome, hexists⟩ := ih hcarving (by omega) (hroom.trans hroom' hless)
      rw [← hlength]
      exact ⟨hsome, hexists⟩
    | full hfull =>
      refine ⟨nofun, fun hspace => ?_⟩
      omega
end

end QemuVmi.Kvm
