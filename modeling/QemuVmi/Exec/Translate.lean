import QemuVmi.Exec.DispatchView

/-!
# Translating addresses

`address_space_translate` turns an address and a length into a region, an offset in it, and the
length that can be accessed there. Regions with an IOMMU are left out, so that the loop of the
source ends in its first turn.

The length that comes back is the length that was asked for, or what is left of a page of the region
if the access is direct. `address_space_translate_internal` cuts the length down to the end of the
region, but the result of this is overwritten. So the access can go on where the range of the flat
view ends (`addressSpaceTranslate_resolves_iff`).
-/

namespace QemuVmi.Exec

open Memory SortedRanges Nat BitVec

/-- What an access depends on in a `MemoryRegion`. -/
structure MrAttrs where
  size : Nat
  ram : Bool
  readonly : Bool
  romDevice : Bool
  romdMode : Bool

/-- The regions of `io_mem_init`. -/
def ioMemAttrs : MrAttrs := ⟨2 ^ 64, false, false, false, true⟩

/-- `memory_access_is_direct`, with `memory_region_is_ram` and `memory_region_is_romd`. -/
def memoryAccessIsDirect (mr : MrAttrs) (isWrite : Bool) : Bool :=
  if mr.ram then !(isWrite && mr.readonly)
  else if mr.romDevice && mr.romdMode then !isWrite
  else false

section
variable (regions : Rid → MrAttrs)

def Mr.attrs : Mr → MrAttrs
  | .region mr => regions mr
  | .subpage _ => { ioMemAttrs with size := targetPageSize }
  | _ => ioMemAttrs

/-- `address_space_translate_internal`: the section, `*xlat` and `*plen`. -/
def addressSpaceTranslateInternal (d : AddressSpaceDispatch) (addr plen : Nat)
    (resolveSubpage : Bool) : Option (MemoryRegionSection × Nat × Nat) :=
  (addressSpaceLookupRegion d addr resolveSubpage).bind fun sec =>
    let addr : Nat := (addr + 2 ^ 64 - sec.offsetWithinAddressSpace) % 2 ^ 64
    let diff : Int := (sec.mr.attrs regions).size - addr
    (Memory.int128Get64 (min diff plen)).map fun plen =>
      (sec, (addr + sec.offsetWithinRegion) % 2 ^ 64, plen.toNat)

def pageRest (addr : Nat) : Nat :=
  (addr / targetPageSize * targetPageSize + targetPageSize + 2 ^ 64 - addr) % 2 ^ 64

/-- `address_space_translate`: the region, `*xlat` and `*plen`. -/
def addressSpaceTranslate (d : AddressSpaceDispatch) (addr plen : Nat) (isWrite : Bool) :
    Option (Mr × Nat × Nat) :=
  (addressSpaceTranslateInternal regions d addr plen true).map fun (sec, addr, _) =>
    (sec.mr, addr, if memoryAccessIsDirect (sec.mr.attrs regions) isWrite then min (pageRest addr) plen
      else plen)
end

/-- The region and the offset that a view has at an address. Where it has no range this is
`io_mem_unassigned`, which has every address at itself. -/
def resolveAt (view : FlatView) (addr : Nat) : Mr × Nat :=
  match view.at addr with
  | some r => (.region r.mr, r.offset.toNat)
  | none => (.ioMemUnassigned, addr)

def Border (view : FlatView) (addr : Nat) : Prop :=
  addr = 0 ∨ ∃ r ∈ view, (addr : Int) = r.addr.start ∨ (addr : Int) = r.addr.endAddr

instance (view : FlatView) (addr : Nat) : Decidable (Border view addr) :=
  inferInstanceAs (Decidable (_ ∨ _))

def ContinuesAt (view : FlatView) (addr : Nat) : Prop :=
  resolveAt view addr = ((resolveAt view ((addr + 2 ^ 64 - 1) % 2 ^ 64)).1,
    ((resolveAt view ((addr + 2 ^ 64 - 1) % 2 ^ 64)).2 + 1) % 2 ^ 64)

section
variable {view : FlatView} {addr : Nat}

lemma resolveAt_of_contains (hview : ViewIn 0 (2 ^ 64) view) {r : FlatRange} (hr : r ∈ view)
    (hin : r.addr.contains addr = true) : resolveAt view addr =
      (.region r.mr, (r.offsetInRegion.toNat + (addr - r.addr.start.toNat)) % 2 ^ 64) := by
  have hlo := hview.sorted.le_lo hr
  obtain ⟨hle, hlt⟩ := AddrRange.contains_iff.mp hin
  have hlookup := hview.sorted.lookup_eq_some hr ⟨hle, hlt⟩
  rw [resolveAt, FlatView.at, hlookup]
  refine Prod.ext rfl ?_
  change (r.offsetInRegion + BitVec.ofInt 64 (addr - r.addr.start)).toNat = _
  have hdiff : ((addr : Int) - r.addr.start) = ((addr - r.addr.start.toNat : Nat) : Int) := by
    change 0 ≤ r.addr.start at hlo
    omega
  rw [hdiff, ofInt_natCast, toNat_add, toNat_ofNat, add_mod_mod]

lemma resolveAt_of_not_contains (hfree : ∀ r ∈ view, r.addr.contains addr = false) :
    resolveAt view addr = (.ioMemUnassigned, addr) := by
  have hlookup : lookup FlatRange.lo FlatRange.hi view addr = none := by
    refine List.find?_eq_none.mpr fun r hr hin => ?_
    have hnot := hfree r hr
    rw [AddrRange.contains_iff.mpr (decide_eq_true_eq.mp hin)] at hnot
    cases hnot
  rw [resolveAt, FlatView.at, hlookup]
  rfl

lemma continuesAt_of_not_border (hview : ViewIn 0 (2 ^ 64) view) (haddr : addr < 2 ^ 64)
    (h : ¬Border view addr) : ContinuesAt view addr := by
  have hne : addr ≠ 0 := fun hzero => h (.inl hzero)
  have hprev : (addr + 2 ^ 64 - 1) % 2 ^ 64 = addr - 1 := by omega
  have hsame : ∀ r ∈ view, r.addr.contains (addr - 1 : Nat) = true ↔ r.addr.contains addr = true := by
    intro r hr
    have hborder : (addr : Int) ≠ r.addr.start ∧ (addr : Int) ≠ r.addr.endAddr :=
      ⟨fun heq => h (.inr ⟨r, hr, .inl heq⟩), fun heq => h (.inr ⟨r, hr, .inr heq⟩)⟩
    rw [AddrRange.contains_iff, AddrRange.contains_iff]
    omega
  rw [ContinuesAt, hprev]
  by_cases hin : ∃ r ∈ view, r.addr.contains addr = true
  · obtain ⟨r, hr, hin⟩ := hin
    have hlo := (AddrRange.contains_iff.mp ((hsame r hr).mpr hin)).1
    rw [resolveAt_of_contains hview hr hin, resolveAt_of_contains hview hr ((hsame r hr).mpr hin)]
    refine Prod.ext rfl ?_
    omega
  have hfree : ∀ r ∈ view, r.addr.contains addr = false := fun r hr =>
    Bool.eq_false_iff.mpr fun hin' => hin ⟨r, hr, hin'⟩
  have hfree' : ∀ r ∈ view, r.addr.contains (addr - 1 : Nat) = false := fun r hr =>
    Bool.eq_false_iff.mpr fun hin' => hin ⟨r, hr, (hsame r hr).mp hin'⟩
  rw [resolveAt_of_not_contains hfree, resolveAt_of_not_contains hfree']
  refine Prod.ext rfl ?_
  omega

/-- An access stays in the region if the region goes on at each border in it, by induction on the
bytes of the access. -/
lemma resolves_iff {mr : Mr} {xlat n : Nat} (hview : ViewIn 0 (2 ^ 64) view) (haddr : addr < 2 ^ 64)
    (hat : resolveAt view addr = (mr, xlat)) (hxlat : xlat < 2 ^ 64) :
    (∀ k, k < n → resolveAt view ((addr + k) % 2 ^ 64) = (mr, (xlat + k) % 2 ^ 64)) ↔
      ∀ k, 0 < k → k < n → Border view ((addr + k) % 2 ^ 64) → ContinuesAt view ((addr + k) % 2 ^ 64) := by
  have hprev : ∀ k, ((addr + (k + 1)) % 2 ^ 64 + 2 ^ 64 - 1) % 2 ^ 64 = (addr + k) % 2 ^ 64 := by
    intro k
    omega
  constructor
  · intro h k hpos hlt _
    obtain ⟨k, rfl⟩ := exists_eq_succ_of_ne_zero hpos.ne'
    rw [ContinuesAt, succ_eq_add_one, hprev, h (k + 1) hlt, h k (lt_of_succ_lt hlt)]
    refine Prod.ext rfl ?_
    omega
  intro h k hlt
  induction k with
  | zero =>
    rwa [add_zero, add_zero, mod_eq_of_lt haddr, mod_eq_of_lt hxlat]
  | succ k ih =>
    have hnext : ContinuesAt view ((addr + (k + 1)) % 2 ^ 64) := by
      by_cases hborder : Border view ((addr + (k + 1)) % 2 ^ 64)
      · exact h (k + 1) k.succ_pos hlt hborder
      · exact continuesAt_of_not_border hview (mod_lt _ (by decide)) hborder
    rw [hnext, hprev, ih (lt_of_succ_lt hlt)]
    refine Prod.ext rfl ?_
    omega
end

def accessLen (regions : Rid → MrAttrs) (view : FlatView) (addr len : Nat) (isWrite : Bool) : Nat :=
  if memoryAccessIsDirect ((resolveAt view addr).1.attrs regions) isWrite then
    min (pageRest (resolveAt view addr).2) len
  else len

def FitsRegions (regions : Rid → MrAttrs) (view : FlatView) : Prop :=
  ∀ r ∈ view, r.addr.size ≤ (regions r.mr).size

instance (regions : Rid → MrAttrs) (view : FlatView) : Decidable (FitsRegions regions view) :=
  inferInstanceAs (Decidable (∀ r ∈ view, _))

section
variable {regions : Rid → MrAttrs} {view : FlatView} {as : AsId} {d : AddressSpaceDispatch}
  {done : List MemoryRegionSection} {parts : Finset Nat} {addr len : Nat}

section
variable (hview : ViewIn 0 (2 ^ 64) view)
include hview

variable (h : Maps d done parts) (hmem : ∀ q, q ∈ done ↔ q ∈ viewPieces as view)
  (haddr : addr < 2 ^ 64)

include h hmem haddr in
lemma Maps.lookup_resolveAt :
    ∃ sec, addressSpaceLookupRegion (memCommit d) addr true = some sec ∧ sec.start ≤ addr ∧
      resolveAt view addr = (sec.mr, (sec.offsetWithinRegion + (addr - sec.start)) % 2 ^ 64) ∧
      (FitsRegions regions view → addr - sec.start < (sec.mr.attrs regions).size) := by
  rw [h.lookup_memCommit haddr]
  obtain ⟨sec, hlookup, ⟨rfl, hfree⟩ | ⟨r, hr, hin, hp, hcovers⟩⟩ := h.lookup_view hview hmem haddr
  · refine ⟨unassignedSection, hlookup, zero_le _, ?_, fun _ => haddr⟩
    rw [resolveAt_of_not_contains hfree]
    refine Prod.ext rfl ?_
    change addr = (0 + (addr - 0)) % 2 ^ 64
    omega
  obtain ⟨hcovers', hoffset, hmr⟩ := piece_offset hp hcovers
  obtain ⟨hstart, hstop, -⟩ := @ViewIn.section_valid as view hview r hr
  obtain ⟨lo, hi, rfl, hlo, hlt, hhi, -⟩ := mem_pieces hp
  refine ⟨_, hlookup, hcovers.1, ?_, fun hfit => ?_⟩
  · rw [resolveAt_of_contains hview hr hin]
    refine Prod.ext rfl ?_
    have hstart' : (ofListener (r.toSection as)).start = r.addr.start.toNat := by
      change _ = r.lo.toNat
      omega
    rw [hstart'] at hoffset
    exact hoffset.symm
  · change addr - lo < (regions r.mr).size
    have hle := hfit r hr
    have hend : r.lo + r.addr.size = r.hi := rfl
    have hle' : lo ≤ addr := hcovers.1
    have hlt' := hcovers'.2
    omega

include h hmem haddr in
lemma Maps.addressSpaceTranslate_eq (hlen : len < 2 ^ 64) (isWrite : Bool) :
    (FitsRegions regions view →
      (addressSpaceTranslate regions (memCommit d) addr len isWrite).isSome = true) ∧
    ∀ result, addressSpaceTranslate regions (memCommit d) addr len isWrite = some result →
      result = ((resolveAt view addr).1, (resolveAt view addr).2,
        accessLen regions view addr len isWrite) := by
  obtain ⟨sec, hlookup, hstart, hat, hsize⟩ := @Maps.lookup_resolveAt regions view as d done parts addr
    hview h hmem haddr
  have hdiff : (addr + 2 ^ 64 - sec.offsetWithinAddressSpace) % 2 ^ 64 = addr - sec.start := by
    change (addr + 2 ^ 64 - sec.start) % 2 ^ 64 = _
    omega
  have htranslate : addressSpaceTranslate regions (memCommit d) addr len isWrite =
      (Memory.int128Get64 (min ((sec.mr.attrs regions).size - (addr - sec.start : Nat) : Int) len)).map
        fun _ => ((resolveAt view addr).1, (resolveAt view addr).2,
          accessLen regions view addr len isWrite) := by
    rw [addressSpaceTranslate, addressSpaceTranslateInternal, hlookup, Option.bind_some, hdiff]
    rw [Option.map_map, add_comm (addr - sec.start), accessLen, hat]
    rfl
  rw [htranslate]
  refine ⟨fun hfit => ?_, fun result hresult => ?_⟩
  · have := hsize hfit
    rw [Memory.int128Get64, if_pos (by omega)]
    rfl
  · obtain ⟨_, -, rfl⟩ := Option.map_eq_some_iff.mp hresult
    rfl

lemma resolveAt_lt (haddr : addr < 2 ^ 64) : (resolveAt view addr).2 < 2 ^ 64 := by
  by_cases hin : ∃ r ∈ view, r.addr.contains addr = true
  · obtain ⟨r, hr, hin⟩ := hin
    rw [resolveAt_of_contains hview hr hin]
    exact mod_lt _ (by decide)
  · rwa [resolveAt_of_not_contains fun r hr => Bool.eq_false_iff.mpr fun hin' => hin ⟨r, hr, hin'⟩]
end

lemma accessLen_le (isWrite : Bool) : accessLen regions view addr len isWrite ≤ len := by
  rw [accessLen]
  split
  · exact min_le_right _ _
  · exact le_rfl

/-- For every flat view the translation of an access returns if the ranges are not longer than their
regions, and a length that it returns is not greater than the one asked for. All bytes of the access
are in the region that is returned, behind the offset that is returned, if and only if the region
goes on at each border of ranges inside of the access. -/
theorem addressSpaceTranslate_resolves_iff (as : AsId) {view : FlatView}
    (hview : ViewIn 0 (2 ^ 64) view) (hroom : sectionsNeeded as view ≤ targetPageSize)
    (regions : Rid → MrAttrs) (addr len : HwAddr) (isWrite : Bool) :
    ∃ d, addView as view = some d ∧ (FitsRegions regions view →
        (addressSpaceTranslate regions (memCommit d) addr.toNat len.toNat isWrite).isSome = true) ∧
      ∀ mr xlat plen,
        addressSpaceTranslate regions (memCommit d) addr.toNat len.toNat isWrite = some (mr, xlat, plen) →
        plen ≤ len.toNat ∧
        ((∀ k, k < plen → resolveAt view ((addr.toNat + k) % 2 ^ 64) = (mr, (xlat + k) % 2 ^ 64)) ↔
          ∀ k, 0 < k → k < accessLen regions view addr.toNat len.toNat isWrite →
            Border view ((addr.toNat + k) % 2 ^ 64) → ContinuesAt view ((addr.toNat + k) % 2 ^ 64)) := by
  obtain ⟨d, done, parts, hrun, h, hmem⟩ := addView_maps hview hroom
  obtain ⟨hsome, hresult⟩ := h.addressSpaceTranslate_eq hview hmem addr.isLt len.isLt isWrite
  refine ⟨d, hrun, hsome, fun mr xlat plen htranslate => ?_⟩
  obtain ⟨rfl, rfl, rfl⟩ := Prod.mk.injEq .. ▸ hresult _ htranslate
  exact ⟨accessLen_le isWrite, resolves_iff hview addr.isLt rfl (resolveAt_lt hview addr.isLt)⟩

/-- Registers of four bytes at `0x1000`. -/
def registersView : FlatView := [⟨1, 0#64, ⟨0x1000, 4⟩, 0#8, true, false⟩]

def registersAttrs : Rid → MrAttrs := fun _ => ⟨4, false, false, false, true⟩

theorem addressSpaceTranslate_resolves_iff_registers :
    ∃ d mr xlat plen, addView 0 registersView = some d ∧
      addressSpaceTranslate registersAttrs (memCommit d) 0x1000 4 false = some (mr, xlat, plen) ∧
      ∀ k, k < plen → resolveAt registersView ((0x1000 + k) % 2 ^ 64) = (mr, (xlat + k) % 2 ^ 64) := by
  obtain ⟨d, hrun, hsome, hresult⟩ := @addressSpaceTranslate_resolves_iff 0 registersView
    ⟨by decide, by decide⟩ (by decide) registersAttrs 0x1000#64 4#64 false
  obtain ⟨⟨mr, xlat, plen⟩, htranslate⟩ := Option.isSome_iff_exists.mp (hsome (by decide))
  have hno : ∀ k < 4, 0 < k → ¬Border registersView ((0x1000 + k) % 2 ^ 64) := by decide
  exact ⟨d, mr, xlat, plen, hrun, htranslate, (hresult mr xlat plen htranslate).2.mpr
    fun k hpos hlt hborder => absurd hborder (hno k hlt hpos)⟩

/-- A read of eight bytes at the registers is not cut at their end. -/
theorem addressSpaceTranslate_past_registers :
    ∃ d mr xlat plen, addView 0 registersView = some d ∧
      addressSpaceTranslate registersAttrs (memCommit d) 0x1000 8 false = some (mr, xlat, plen) ∧
      ¬∀ k, k < plen → resolveAt registersView ((0x1000 + k) % 2 ^ 64) = (mr, (xlat + k) % 2 ^ 64) := by
  have hview : ViewIn 0 (2 ^ 64) registersView := ⟨by decide, by decide⟩
  obtain ⟨d, done, parts, hrun, h, hmem⟩ := @addView_maps 0 registersView hview (by decide)
  obtain ⟨hsome, hresult⟩ := @Maps.addressSpaceTranslate_eq registersAttrs registersView 0 d done parts
    0x1000 8 hview h hmem (by decide) (by decide) false
  obtain ⟨⟨mr, xlat, plen⟩, htranslate⟩ := Option.isSome_iff_exists.mp (hsome (by decide))
  refine ⟨d, mr, xlat, plen, hrun, htranslate, fun hall => ?_⟩
  obtain ⟨rfl, rfl, rfl⟩ := Prod.mk.injEq .. ▸ hresult _ htranslate
  exact absurd (hall 4 (by decide)) (by decide)
end

/-- A commit: the events that lead from the view of any hierarchy to that of another one make a map
in which every address is looked up as the new hierarchy resolves it. -/
theorem dispatch_resolves (as : AsId) (before after : Regions) (fuel : Nat) (root : Rid) :
    match generateMemoryTopology before fuel (some root),
      generateMemoryTopology after fuel (some root) with
    | some old, some new => sectionsNeeded as new ≤ targetPageSize → ∃ events d,
      addressSpaceUpdateTopologyEvents as old new = some events ∧
      memBegin.bind (events.foldlM dispatchEvent) = some d ∧ ∀ addr : HwAddr,
      ∃ sec, addressSpaceLookupRegion (memCommit d) addr.toNat true = some sec ∧
        (sec.mr, (sec.offsetWithinRegion + (addr.toNat - sec.offsetWithinAddressSpace)) % 2 ^ 64) =
          match resolve after fuel root 0 false addr.toNat with
          | some x => (.region x.mr, x.offset.toNat)
          | none => (.ioMemUnassigned, addr.toNat)
    | _, _ => True := by
  split
  next old new hold hnew =>
    intro hroom
    obtain ⟨hview, hat⟩ := generateMemoryTopology_spec hnew
    obtain ⟨d₀, hbegin, -⟩ := memBegin_maps
    obtain ⟨d, done, parts, hrun, h, hmem⟩ := addView_maps hview hroom
    -- the map starts empty, so the old view only decides which events come
    obtain ⟨events, hevents, hfold⟩ := @foldlM_dispatchEvent as old new
      (generateMemoryTopology_spec hold).1.valid hview.valid d₀
    rw [addView, hbegin, Option.bind_some, ← hfold] at hrun
    refine ⟨events, d, hevents, by rwa [hbegin], fun addr => ?_⟩
    obtain ⟨sec, hlookup, -, hsec, -⟩ := @Maps.lookup_resolveAt (fun _ => ioMemAttrs) new as d done
      parts addr.toNat hview h hmem addr.isLt
    refine ⟨sec, hlookup, hsec.symm.trans ?_⟩
    rw [resolveAt, hat addr.toNat (Int.natCast_nonneg _) (by exact_mod_cast addr.isLt)]
  · trivial

end QemuVmi.Exec
