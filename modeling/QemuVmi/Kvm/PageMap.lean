import QemuVmi.Kvm.SlotMap

/-!
# The slots refine the page map

What the callbacks of the memory listener say is a list of sections, those that are added and not
deleted (`addedSections`), and with it a map of pages: a page that lies wholly in one of them is
mapped to its host memory with its flags. The table of slots refines it as long as the callbacks
meet `StepOk`. Two things can go wrong. The pages of a section are computed from its size alone, so
that a section whose start is not aligned as its size is not mapped at all. And what is left of a
slot gets the flags of the section that is added or deleted.

Results:
1. `pageRange_spec`: the pages of a section, if they are computed.
2. `callback_refines`: a callback, from any table that refines a list of sections.
3. `kvm_slots_refine`: all runs of callbacks that meet `StepOk`.
-/

namespace QemuVmi.Kvm

open Exec List

section
variable (sec : Section)

def Section.Inside (page : Nat) : Prop :=
  sec.offsetWithinAddressSpace ≤ page * targetPageSize ∧
    page * targetPageSize + targetPageSize ≤ sec.offsetWithinAddressSpace + sec.size

instance Section.instDecidableInside (sec : Section) (page : Nat) : Decidable (sec.Inside page) :=
  inferInstanceAs (Decidable (_ ∧ _))

/-- The section ends in the address space, and its start is aligned as its size is, or no page lies
wholly in it. -/
def Section.Aligned : Prop :=
  sec.offsetWithinAddressSpace + sec.size < 2 ^ 64 ∧
    (sec.offsetWithinAddressSpace % targetPageSize = sec.size % targetPageSize ∨
      sec.offsetWithinAddressSpace + sec.size <
        (sec.offsetWithinAddressSpace + targetPageSize - 1) / targetPageSize * targetPageSize +
          targetPageSize)

instance Section.instDecidableAligned (sec : Section) : Decidable sec.Aligned :=
  inferInstanceAs (Decidable (_ ∧ _))

lemma delta_eq {size : Nat} (h : size < 2 ^ 64) :
    (targetPageAlign size + 2 ^ 64 - size) % 2 ^ 64 % 2 ^ 32 = (4096 - size % 4096) % 4096 := by
  have hpage : targetPageSize = 4096 := rfl
  rw [targetPageAlign, hpage]
  omega

lemma pageRange_spec {sec : Section} {range : Range}
    (hend : sec.offsetWithinAddressSpace + sec.size < 2 ^ 64) (h : pageRange sec = some range) :
    0 < range.size ∧ range.startAddr % targetPageSize = 0 ∧ range.size % targetPageSize = 0 ∧
      range.startAddr + range.size < 2 ^ 64 ∧
      range.ram + sec.offsetWithinAddressSpace = sec.ram + range.startAddr ∧
      ∀ page, sec.Inside page ↔ range.startAddr ≤ page * targetPageSize ∧
        page * targetPageSize < range.startAddr + range.size := by
  have hpage : targetPageSize = 4096 := rfl
  unfold pageRange at h
  dsimp only at h
  rw [delta_eq (by omega), hpage] at h
  split at h
  · cases h
  rename_i hle
  split at h
  · cases h
  rename_i hsome
  cases h
  rw [not_or, not_not] at hsome
  obtain ⟨hsize, haligned⟩ := hsome
  have hstart : addAddr sec.offsetWithinAddressSpace ((4096 - sec.size % 4096) % 4096) =
      sec.offsetWithinAddressSpace + (4096 - sec.size % 4096) % 4096 := Nat.mod_eq_of_lt (by omega)
  rw [hstart] at haligned ⊢
  simp only [hpage, Section.Inside]
  refine ⟨Nat.pos_of_ne_zero hsize, haligned, Nat.mul_mod_left _ _, by omega, by omega,
    fun page => ?_⟩
  omega

lemma pageRange_none {sec : Section} (haligned : sec.Aligned) (h : pageRange sec = none)
    (page : Nat) : ¬ sec.Inside page := by
  have hpage : targetPageSize = 4096 := rfl
  obtain ⟨hend, hcases⟩ := haligned
  rw [Section.Inside, hpage]
  rw [hpage] at hcases
  rcases hcases with hsame | hnone
  · unfold pageRange at h
    dsimp only at h
    rw [delta_eq (by omega), hpage] at h
    split at h
    · omega
    rename_i hle
    have hstart : addAddr sec.offsetWithinAddressSpace ((4096 - sec.size % 4096) % 4096) =
        sec.offsetWithinAddressSpace + (4096 - sec.size % 4096) % 4096 := Nat.mod_eq_of_lt (by omega)
    rw [hstart] at h
    split at h
    · omega
    · cases h
  · omega

section
variable (allowed : Bool)

/-- The flags of a section, where `allowed` is `kvm_readonly_mem_allowed`. -/
def Section.flags : MemFlags :=
  ⟨sec.isLogging, (sec.readonly || (sec.romDevice && sec.romdMode)) && allowed⟩

/-- Where a page of the section is to be mapped. -/
def Section.target (page : Nat) : Nat × MemFlags :=
  (sec.ram + (page * targetPageSize - sec.offsetWithinAddressSpace), sec.flags allowed)

/-- The slots are disjoint and page aligned, and map the pages of the sections as they are to be
mapped and no others. -/
structure Refines (s : KVMState) (added : List Section) : Prop where
  ok : SlotsOk (live s.slots)
  maps : ∀ page target, Maps (live s.slots) (page * targetPageSize) target ↔
    ∃ sec ∈ added, sec.Inside page ∧ target = sec.target s.readonlyMemAllowed page

def Section.Backed : Prop :=
  sec.isRam = true ∨
    (sec.readonly = true ∨ sec.romDevice = true) ∧ allowed = true ∧ sec.romdMode = true
end

end

def Callback.sec : Callback → Section
  | .regionAdd sec => sec
  | .regionDel sec => sec

def Callback.add : Callback → Bool
  | .regionAdd _ => true
  | .regionDel _ => false

/-- The sections that are added, after the callback. -/
def Callback.apply (added : List Section) : Callback → List Section
  | .regionAdd sec => sec :: added
  | .regionDel sec => added.erase sec

def addedSections (cs : List Callback) : List Section := cs.foldl Callback.apply []

def Callback.request (c : Callback) (s : KVMState) (range : Range) : Request :=
  ⟨range.startAddr, range.startAddr + range.size, range.ram, c.sec.flags s.readonlyMemAllowed,
    c.add, s.brokenSetMemRegion⟩

/-- A page of two sections is to be mapped to one place, and a page that is deleted is in none of
the sections that stay. -/
def Callback.Agrees (allowed : Bool) (added : List Section) : Callback → Prop
  | .regionAdd sec => ∀ other ∈ added, ∀ page, sec.Inside page → other.Inside page →
      other.target allowed page = sec.target allowed page
  | .regionDel sec => ∀ other ∈ added.erase sec, ∀ page, sec.Inside page → ¬ other.Inside page

/-- What a callback must meet: the section has the right alignment, agrees with the sections that
are added, and the slots that its pages overlap allow it. -/
structure StepOk (s : KVMState) (added : List Section) (c : Callback) : Prop where
  agrees : c.Agrees s.readonlyMemAllowed added
  backed : c.sec.Backed s.readonlyMemAllowed
  aligned : c.sec.Aligned
  slots : ∀ range, pageRange c.sec = some range → ∀ mem ∈ live s.slots,
    mem.Overlaps range.startAddr (range.startAddr + range.size) → SlotCond (c.request s range) mem

section
variable {s : KVMState} {added : List Section} {c : Callback}

lemma callback_eq (s : KVMState) (c : Callback) : callback s c = kvmSetPhysMem s c.sec c.add := by
  cases c <;> rfl

lemma maps_apply {allowed : Bool} (h : c.Agrees allowed added) (page : Nat)
    (target : Nat × MemFlags) :
    (∃ sec ∈ c.apply added, sec.Inside page ∧ target = sec.target allowed page) ↔
      if c.sec.Inside page then c.add = true ∧ target = c.sec.target allowed page
      else ∃ sec ∈ added, sec.Inside page ∧ target = sec.target allowed page := by
  cases c with
  | regionAdd sec =>
    by_cases hin : sec.Inside page
    · refine Iff.trans ⟨?_, fun ⟨_, h⟩ => ⟨sec, mem_cons_self, hin, h⟩⟩ (if_pos hin).to_iff.symm
      rintro ⟨other, hother, hin', rfl⟩
      rcases mem_cons.mp hother with rfl | hmem
      · exact ⟨rfl, rfl⟩
      · exact ⟨rfl, h other hmem page hin hin'⟩
    · simp [Callback.apply, Callback.sec, hin]
  | regionDel sec =>
    by_cases hin : sec.Inside page
    · refine iff_of_false ?_ fun hif => nomatch ((if_pos hin).to_iff.mp hif).1
      exact fun ⟨other, hother, hin', _⟩ => h other hother page hin hin'
    · refine Iff.trans (exists_congr fun other => and_congr_left fun hother => ?_)
        (if_neg hin).to_iff.symm
      exact mem_erase_of_ne fun heq => hin (heq ▸ hother.1)

lemma kvmSetPhysMem_backed {sec : Section} (h : sec.Backed s.readonlyMemAllowed) (add : Bool)
    {range : Range} (hrange : pageRange sec = some range) : kvmSetPhysMem s sec add =
      (physMemLoop s add (sec.flags s.readonlyMemAllowed) (s.slots.length + 1) s.slots range).map
        fun slots => { s with slots := slots } := by
  rw [kvmSetPhysMem, hrange, Option.elim_some, setRange]
  have hflags : sectionFlags s sec = sec.flags s.readonlyMemAllowed := rfl
  rcases h with hram | ⟨hrom, hallowed, hromd⟩
  · simp only [hram, hflags, Bool.not_true, Bool.false_and, Bool.false_eq_true, if_false,
      Bool.true_or, Bool.and_true]
  have hwriteable : (!sec.readonly && !sec.romDevice) = false := by
    rcases hrom with hreadonly | hdevice
    · rw [hreadonly]
      rfl
    · rw [hdevice, Bool.not_true, Bool.and_false]
  simp only [hwriteable, hallowed, hromd, hflags, Bool.not_true, Bool.or_self, Bool.and_false,
    Bool.false_eq_true, if_false, Bool.or_true, Bool.and_true]

lemma callback_refines (h : Refines s added) (hok : StepOk s added c) :
    (∀ s', callback s c = some s' → Refines s' (c.apply added)) ∧
    ((live s.slots).length + 2 ≤ s.slots.length → ∃ s', callback s c = some s') := by
  rw [callback_eq]
  cases hrange : pageRange c.sec with
  | none =>
    rw [kvmSetPhysMem, hrange, Option.elim_none]
    refine ⟨?_, fun _ => ⟨s, rfl⟩⟩
    rintro s' ⟨⟩
    refine ⟨h.ok, fun page target => ?_⟩
    rw [maps_apply hok.agrees, if_neg (pageRange_none hok.aligned hrange page)]
    exact h.maps page target
  | some range =>
    obtain ⟨hpos, haligned, hsize, hlt, hram, hinside⟩ := pageRange_spec hok.aligned.1 hrange
    rw [kvmSetPhysMem_backed hok.backed c.add hrange]
    let job : Job :=
      { c.request s range with
        lt := Nat.lt_add_of_pos_right hpos
        hi_lt := hlt
        lo_aligned := haligned
        hi_aligned := by
          rw [Callback.request, Nat.add_mod, haligned, hsize]
          rfl }
    have hstart : Carving job (live s.slots) s.slots range :=
      ⟨h.ok, Nat.le_refl _, rfl, hpos, haligned, Nat.add_comm _ _ ▸ rfl, .inl rfl,
        fun _ _ _ => Iff.rfl, fun addr _ hge hlt' => absurd hge (Nat.not_le_of_lt hlt'),
        hok.slots range hrange⟩
    have hcount : overlapping job s.slots range < s.slots.length + 1 :=
      Nat.lt_succ_of_le (le_trans countP_le_length (length_filter_le _ _))
    obtain ⟨hmapped, hsome⟩ := @physMemLoop_spec job (live s.slots) s rfl (live s.slots).length
      _ _ _ hstart hcount (.inl (le_refl _))
    refine ⟨fun s' hs' => ?_, fun hroom => ?_⟩
    · obtain ⟨slots', hloop, rfl⟩ := Option.map_eq_some_iff.mp hs'
      have hdone := (hmapped slots' hloop).2
      refine ⟨hdone.ok, fun page target => ?_⟩
      rw [hdone.maps, maps_apply hok.agrees]
      by_cases hin : c.sec.Inside page
      · have hrange' : job.lo ≤ page * targetPageSize ∧ page * targetPageSize < job.hi :=
          (hinside page).mp hin
        have hhost : range.ram + (page * targetPageSize - range.startAddr) =
            c.sec.ram + (page * targetPageSize - c.sec.offsetWithinAddressSpace) := by
          have hge := hin.1
          have hge' := ((hinside page).mp hin).1
          omega
        have htarget : job.target (page * targetPageSize) =
            c.sec.target s.readonlyMemAllowed page := Prod.ext hhost rfl
        rw [if_pos hrange', if_pos hin, htarget]
        exact Iff.rfl
      · have hrange' : ¬ (job.lo ≤ page * targetPageSize ∧ page * targetPageSize < job.hi) :=
          fun hrange' => hin ((hinside page).mpr hrange')
        rw [if_neg hrange', if_neg hin]
        exact h.maps page target
    · obtain ⟨slots', hloop⟩ := hsome hroom
      exact ⟨{ s with slots := slots' },
        congrArg (Option.map fun slots => { s with slots := slots }) hloop⟩
end

def RunOk (s : KVMState) (added : List Section) : List Callback → Prop
  | [] => True
  | c :: cs => StepOk s added c ∧ ∀ s', callback s c = some s' → RunOk s' (c.apply added) cs

lemma callbacks_refine (cs : List Callback) : ∀ {s : KVMState} {added : List Section},
    Refines s added → RunOk s added cs →
    (∀ s', callbacks s cs = some s' → Refines s' (cs.foldl Callback.apply added)) ∧
    (callbacks s cs = none → ∃ before s', before <+: cs ∧ callbacks s before = some s' ∧
      s'.slots.length < (live s'.slots).length + 2) := by
  induction cs with
  | nil =>
    intro s added h _
    refine ⟨?_, nofun⟩
    rintro s' ⟨⟩
    exact h
  | cons c cs ih =>
    intro s added h hok
    obtain ⟨hstep, hrest⟩ := hok
    obtain ⟨hnext, hsome⟩ := callback_refines h hstep
    cases hs : callback s c with
    | none =>
      refine ⟨fun s' hs' => ?_, fun _ => ⟨[], s, nil_prefix, rfl, ?_⟩⟩
      · rw [callbacks, hs] at hs'
        cases hs'
      by_contra hroom
      obtain ⟨s', hs'⟩ := hsome (by omega)
      rw [hs] at hs'
      cases hs'
    | some s₁ =>
      obtain ⟨hruns, hfull⟩ := ih (hnext s₁ hs) (hrest s₁ hs)
      have hrun : ∀ cs, callbacks s (c :: cs) = callbacks s₁ cs := fun cs => by
        rw [callbacks, hs, Option.bind_some]
      rw [hrun]
      refine ⟨hruns, fun hnone => ?_⟩
      obtain ⟨before, s', hleft, hs', hless⟩ := hfull hnone
      exact ⟨c :: before, s', List.cons_prefix_cons.mpr ⟨rfl, hleft⟩, (hrun before).trans hs',
        hless⟩

def emptyTable (nrSlots : Nat) (broken readonlyMemAllowed : Bool) : KVMState :=
  ⟨replicate nrSlots ⟨0, 0, 0, ⟨false, false⟩⟩, broken, readonlyMemAllowed⟩

lemma live_emptyTable (nrSlots : Nat) (broken readonlyMemAllowed : Bool) :
    live (emptyTable nrSlots broken readonlyMemAllowed).slots = [] := by
  rw [live, filter_eq_nil_iff]
  intro mem hmem
  rw [eq_of_mem_replicate hmem]
  decide

/-- For every sequence of callbacks that meet `StepOk`, the slots are disjoint, page aligned, and map
exactly the pages that lie wholly in the sections that are added, to their host memory and with
their flags. The only way to stop is to have fewer than two free slots. -/
theorem kvm_slots_refine (nrSlots : Nat) (broken readonlyMemAllowed : Bool) (cs : List Callback)
    (hok : RunOk (emptyTable nrSlots broken readonlyMemAllowed) [] cs) :
    (∀ s, callbacks (emptyTable nrSlots broken readonlyMemAllowed) cs = some s →
      Refines s (addedSections cs)) ∧
    (callbacks (emptyTable nrSlots broken readonlyMemAllowed) cs = none →
      ∃ before s, before <+: cs ∧
        callbacks (emptyTable nrSlots broken readonlyMemAllowed) before = some s ∧
        s.slots.length < (live s.slots).length + 2) := by
  have hempty : Refines (emptyTable nrSlots broken readonlyMemAllowed) [] := by
    have hlive := live_emptyTable nrSlots broken readonlyMemAllowed
    refine ⟨?_, fun page target => ?_⟩
    · rw [hlive]
      exact ⟨nofun, List.Pairwise.nil⟩
    · rw [hlive]
      exact iff_of_false (fun ⟨_, hmem, _⟩ => nomatch hmem) nofun
  exact callbacks_refine cs hempty hok

def sampleSection (startAddr size ram : Nat) (readonly : Bool) : Section :=
  ⟨startAddr, size, ram, true, readonly, false, true, false⟩

def sampleSlot : KVMSlot := ⟨0x4000, 0x4000, 0x100000, ⟨false, false⟩⟩

/-- Two sections of the same host memory that overlap: the slot of the first is cut off. -/
def sampleRun : List Callback :=
  [.regionAdd (sampleSection 0x4000 0x4000 0x100000 false),
    .regionAdd (sampleSection 0x6000 0x4000 0x102000 false)]

theorem kvm_slots_refine_split : ∃ s, callbacks (emptyTable 8 false true) sampleRun = some s ∧
    (live s.slots).length = 2 ∧ Refines s (addedSections sampleRun) := by
  have hfirst : (callback (emptyTable 8 false true)
      (.regionAdd (sampleSection 0x4000 0x4000 0x100000 false))).map (fun s => live s.slots) =
        some [sampleSlot] := by decide +kernel
  have hrun : (callbacks (emptyTable 8 false true) sampleRun).map
      (fun s => (live s.slots).length) = some 2 := by decide +kernel
  have hok : RunOk (emptyTable 8 false true) [] sampleRun := by
    refine ⟨⟨nofun, .inl rfl, by decide +kernel, fun range _ mem hmem => ?_⟩, fun s hs =>
      ⟨⟨?_, .inl rfl, by decide +kernel, fun range hrange mem hmem _ => ?_⟩, fun _ _ => trivial⟩⟩
    · rw [live_emptyTable] at hmem
      cases hmem
    · intro other hother page hin hin'
      obtain rfl := mem_singleton.mp hother
      refine Prod.ext ?_ rfl
      have hlow := hin.1
      have hlow' := hin'.1
      change 0x6000 ≤ _ at hlow
      change 0x100000 + (page * targetPageSize - 0x4000) = 0x102000 + (_ - 0x6000)
      omega
    rw [hs, Option.map_some, Option.some.injEq] at hfirst
    rw [hfirst, mem_singleton] at hmem
    subst hmem
    have hlo : (pageRange (sampleSection 0x6000 0x4000 0x102000 false)).map Range.startAddr =
        some 0x6000 := by decide +kernel
    change pageRange (sampleSection 0x6000 0x4000 0x102000 false) = some range at hrange
    rw [hrange, Option.map_some, Option.some.injEq] at hlo
    refine ⟨fun _ => rfl, fun _ _ _ => rfl, fun _ _ hle _ => ?_⟩
    change range.startAddr ≤ 0x4000 at hle
    omega
  obtain ⟨s, hs, htwo⟩ := Option.map_eq_some_iff.mp hrun
  exact ⟨s, hs, htwo, (kvm_slots_refine 8 false true _ hok).1 s hs⟩

/-- A section of two pages whose start is not aligned has a page wholly in it, which is not mapped.
A page of ROM in the middle of RAM makes the RAM around it read-only. -/
theorem kvm_slots_diverge :
    (callbacks (emptyTable 8 false true) [.regionAdd (sampleSection 0x800 0x2000 0 false)] =
        some (emptyTable 8 false true) ∧ (sampleSection 0x800 0x2000 0 false).Inside 1) ∧
    (callbacks (emptyTable 8 false true)
        [.regionAdd (sampleSection 0x4000 0x4000 0x100000 false),
          .regionAdd (sampleSection 0x5000 0x1000 0x100000 true)]).map
        (fun s => (live s.slots).map KVMSlot.flags) =
      some [⟨false, true⟩, ⟨false, true⟩, ⟨false, true⟩] := by
  decide +kernel

end QemuVmi.Kvm
