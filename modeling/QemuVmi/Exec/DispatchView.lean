import QemuVmi.Exec.Lookup

/-!
# The dispatch map of a flat view

The listener gets each range of a flat view once. The map that it makes has, for each address, the
section of the range that the address is in.

Results:
1. `Maps.registerPieces`: registering a list of pieces that do not overlap, as long as there are
   numbers for the sections.
2. `foldlM_dispatchEvent`: the listener gets the ranges of the new view, whatever the old one was.
3. `addressSpaceLookupRegion_view`: every address is looked up as the view has it.
-/

namespace QemuVmi.Exec

open List OptionFold Memory SortedRanges

def partPages (pieces : List MemoryRegionSection) : Finset Nat :=
  ((pieces.filter fun p => ¬p.Full).map fun p => p.start / 4096).toFinset

section
variable {d : AddressSpaceDispatch} {done : List MemoryRegionSection} {parts : Finset Nat}
  {p : MemoryRegionSection} {pieces : List MemoryRegionSection}

lemma partPages_cons_full (h : p.Full) : partPages (p :: pieces) = partPages pieces := by
  rw [partPages, filter_cons_of_neg (by simpa using h), partPages]

lemma partPages_cons_part (h : ¬p.Full) :
    partPages (p :: pieces) = insert (p.start / 4096) (partPages pieces) := by
  rw [partPages, filter_cons_of_pos (by simpa using h), map_cons, toFinset_cons, partPages]

/-- Each page in `parts` is used by a piece. -/
def PartsUsed (done : List MemoryRegionSection) (parts : Finset Nat) : Prop :=
  ∀ page ∈ parts, ∃ q ∈ done, ∃ addr, addr / 4096 = page ∧ q.Covers addr

lemma Maps.registerPiece (h : Maps d done parts) (hused : PartsUsed done parts) (hp : p.IsPiece)
    (hdisjoint : ∀ q ∈ done, ∀ addr, p.Covers addr → ¬q.Covers addr)
    (hroom : 4 + done.length + (parts ∪ partPages [p]).card < 4096) :
    ∃ d', Exec.registerPiece d p = some d' ∧ Maps d' (p :: done) (parts ∪ partPages [p]) ∧
      PartsUsed (p :: done) (parts ∪ partPages [p]) := by
  have hmono : PartsUsed (p :: done) parts := by
    intro page hpage
    obtain ⟨q, hq, haddr⟩ := hused page hpage
    exact ⟨q, mem_cons_of_mem p hq, haddr⟩
  by_cases hfull : p.Full
  · have hparts : parts ∪ partPages [p] = parts := by
      rw [partPages_cons_full hfull]
      exact Finset.union_empty parts
    rw [hparts] at hroom ⊢
    obtain ⟨d', hrun, h'⟩ := h.registerMultipage hused hp hfull hdisjoint (by rw [h.count]; exact hroom)
    exact ⟨d', by rw [Exec.registerPiece, if_pos hfull, hrun], h', hmono⟩
  have hparts : parts ∪ partPages [p] = insert (p.start / 4096) parts := by
    rw [partPages_cons_part hfull, Finset.union_insert]
    exact congrArg _ (Finset.union_empty parts)
  rw [hparts] at hroom ⊢
  obtain ⟨d', hrun, h'⟩ := h.registerSubpage hp hfull hdisjoint hroom
  refine ⟨d', by rw [Exec.registerPiece, if_neg hfull, hrun], h', fun page hpage => ?_⟩
  rcases Finset.mem_insert.mp hpage with rfl | hpage
  · exact ⟨p, mem_cons_self, p.start, rfl, le_rfl, Nat.lt_add_of_pos_right hp.pos⟩
  · exact hmono page hpage

lemma Maps.registerPieces (h : Maps d done parts) (hused : PartsUsed done parts)
    (hpieces : ∀ p ∈ pieces, p.IsPiece)
    (hdisjoint : pieces.Pairwise fun p q => ∀ addr, q.Covers addr → ¬p.Covers addr)
    (hdone : ∀ p ∈ pieces, ∀ q ∈ done, ∀ addr, p.Covers addr → ¬q.Covers addr)
    (hroom : 4 + done.length + pieces.length + (parts ∪ partPages pieces).card ≤ 4096) :
    ∃ d' done' parts', pieces.foldlM Exec.registerPiece d = some d' ∧ Maps d' done' parts' ∧
      ∀ q, q ∈ done' ↔ q ∈ pieces ∨ q ∈ done := by
  induction pieces generalizing d done parts with
  | nil => exact ⟨d, done, parts, rfl, h, fun q => by simp⟩
  | cons p pieces ih =>
    obtain ⟨hp, hpieces⟩ := forall_mem_cons.mp hpieces
    obtain ⟨hfirst, hdisjoint⟩ := pairwise_cons.mp hdisjoint
    obtain ⟨hp', hdone⟩ := forall_mem_cons.mp hdone
    have hunion : parts ∪ partPages [p] ∪ partPages pieces = parts ∪ partPages (p :: pieces) := by
      by_cases hfull : p.Full
      · rw [partPages_cons_full hfull, partPages_cons_full hfull, Finset.union_assoc]
        exact congrArg _ (Finset.empty_union _)
      · rw [partPages_cons_part hfull, partPages_cons_part hfull, Finset.union_assoc, Finset.insert_union]
        exact congrArg _ (congrArg _ (Finset.empty_union _))
    have hle : (parts ∪ partPages [p]).card ≤ (parts ∪ partPages (p :: pieces)).card :=
      hunion ▸ Finset.card_le_card Finset.subset_union_left
    rw [length_cons] at hroom
    obtain ⟨d₁, hrun₁, h₁, hused₁⟩ := h.registerPiece hused hp hp' (by omega)
    obtain ⟨d', done', parts', hrun, h', hmem⟩ := ih h₁ hused₁ hpieces hdisjoint
      (fun q hq => forall_mem_cons.mpr ⟨hfirst q hq, hdone q hq⟩)
      (by rw [hunion, length_cons]; omega)
    refine ⟨d', done', parts', foldlM_cons_eq_some.mpr ⟨d₁, hrun₁, hrun⟩, h', fun q => ?_⟩
    rw [hmem, mem_cons, mem_cons]
    tauto
end

section
variable {sec p : MemoryRegionSection} {addr : Nat}

lemma pieces_eq : sec.pieces = [sec.restrict sec.start (min (pageUp sec.start) sec.stop),
      sec.restrict (min (pageUp sec.start) sec.stop) (pageDown sec.stop),
      sec.restrict (max (min (pageUp sec.start) sec.stop) (pageDown sec.stop)) sec.stop].filter
        (0 < ·.size) := by
  rw [MemoryRegionSection.pieces, MemoryRegionSection.piecesFrom, ← filter_append]
  rfl

lemma mem_pieces (hp : p ∈ sec.pieces) : ∃ lo hi, p = sec.restrict lo hi ∧ sec.start ≤ lo ∧
    lo < hi ∧ hi ≤ sec.stop ∧ ((lo % 4096 = 0 ∧ hi % 4096 = 0) ∨ lo / 4096 = (hi - 1) / 4096) := by
  have hup := pageUp_eq sec.start
  have hdown := pageDown_eq sec.stop
  have hstop : sec.stop = sec.start + sec.size := rfl
  rw [pieces_eq, mem_filter, decide_eq_true_eq] at hp
  obtain ⟨hmem, hpos⟩ := hp
  simp only [mem_cons, not_mem_nil, or_false] at hmem
  rcases hmem with rfl | rfl | rfl
  all_goals
    have hpos := Nat.lt_of_sub_pos hpos
    exact ⟨_, _, rfl, by omega, hpos, by omega, by omega⟩

lemma restrict_stop {lo hi : Nat} (h : lo ≤ hi) : (sec.restrict lo hi).stop = hi :=
  Nat.add_sub_cancel' h

lemma isPiece_of_mem (hmr : ∃ mr, sec.mr = .region mr) (hsec : sec.Valid) (hp : p ∈ sec.pieces) :
    p.IsPiece := by
  obtain ⟨lo, hi, rfl, hlo, hlt, hhi, hwhole⟩ := mem_pieces hp
  refine ⟨hmr, Nat.sub_pos_of_lt hlt, ?_, ?_⟩
  · rw [restrict_stop hlt.le]
    exact hhi.trans hsec.stop_le
  · rw [restrict_stop hlt.le, full_restrict]
    exact hwhole.imp_left fun h => ⟨h.1, by omega⟩

lemma piece_offset (hp : p ∈ sec.pieces) (hcovers : p.Covers addr) : sec.Covers addr ∧
    (p.offsetWithinRegion + (addr - p.start)) % 2 ^ 64 =
      (sec.offsetWithinRegion + (addr - sec.start)) % 2 ^ 64 ∧ p.mr = sec.mr := by
  obtain ⟨lo, hi, rfl, hlo, hlt, hhi, -⟩ := mem_pieces hp
  have hcovers' : lo ≤ addr ∧ addr < hi := by
    rwa [← restrict_stop hlt.le]
  refine ⟨⟨by omega, by omega⟩, ?_, rfl⟩
  change ((sec.offsetWithinRegion + (lo - sec.start)) % 2 ^ 64 + (addr - lo)) % 2 ^ 64 = _
  omega

lemma exists_piece (hcovers : sec.Covers addr) : ∃ p ∈ sec.pieces, p.Covers addr := by
  obtain ⟨hle, hlt⟩ := hcovers
  have hpiece : ∀ lo hi, sec.restrict lo hi ∈
      [sec.restrict sec.start (min (pageUp sec.start) sec.stop),
        sec.restrict (min (pageUp sec.start) sec.stop) (pageDown sec.stop),
        sec.restrict (max (min (pageUp sec.start) sec.stop) (pageDown sec.stop)) sec.stop] →
      lo ≤ addr → addr < hi → ∃ p ∈ sec.pieces, p.Covers addr := by
    intro lo hi hmem hlo hhi
    refine ⟨sec.restrict lo hi, ?_, hlo, ?_⟩
    · rw [pieces_eq, mem_filter]
      exact ⟨hmem, decide_eq_true (Nat.sub_pos_of_lt (hlo.trans_lt hhi))⟩
    · rwa [restrict_stop (hlo.trans hhi.le)]
  by_cases hhead : addr < min (pageUp sec.start) sec.stop
  · exact hpiece _ _ mem_cons_self hle hhead
  by_cases hmiddle : addr < pageDown sec.stop
  · exact hpiece _ _ (mem_cons_of_mem _ mem_cons_self) (Nat.not_lt.mp hhead) hmiddle
  · exact hpiece _ _ (mem_cons_of_mem _ (mem_cons_of_mem _ mem_cons_self))
      (max_le (Nat.not_lt.mp hhead) (Nat.not_lt.mp hmiddle)) hlt

lemma pieces_pairwise : sec.pieces.Pairwise fun p q => p.stop ≤ q.start := by
  have hup := pageUp_eq sec.start
  rw [pieces_eq]
  refine List.Pairwise.filter _ ?_
  simp only [pairwise_cons, mem_cons, not_mem_nil, or_false, forall_eq_or_imp, forall_eq,
    IsEmpty.forall_iff, implies_true, List.Pairwise.nil, and_true, MemoryRegionSection.restrict,
    MemoryRegionSection.stop, MemoryRegionSection.start] at hup ⊢
  omega

lemma ofListener_toSection {as : AsId} {fr : FlatRange} (hlo : 0 ≤ fr.lo) (hne : fr.lo < fr.hi)
    (hhi : fr.hi ≤ 2 ^ 64) : ((ofListener (fr.toSection as)).start : Int) = fr.lo ∧
      ((ofListener (fr.toSection as)).stop : Int) = fr.hi ∧ (ofListener (fr.toSection as)).Valid := by
  have hstart : ((BitVec.ofInt 64 fr.lo).toNat : Int) = fr.lo := by
    rw [BitVec.toNat_ofInt, Int.toNat_of_nonneg (Int.emod_nonneg _ (by decide))]
    exact Int.emod_eq_of_lt hlo (lt_of_lt_of_le hne hhi)
  have hsize : fr.lo + fr.addr.size = fr.hi := rfl
  have hstop : ((ofListener (fr.toSection as)).stop : Int) = fr.hi := by
    change (((BitVec.ofInt 64 fr.lo).toNat + fr.addr.size.toNat : Nat) : Int) = fr.hi
    omega
  refine ⟨hstart, hstop, ?_, by omega, (fr.offsetInRegion).isLt⟩
  change 0 < fr.addr.size.toNat
  omega
end

def viewPieces (as : AsId) (view : FlatView) : List MemoryRegionSection :=
  view.flatMap fun fr => (ofListener (fr.toSection as)).pieces

/-- How many sections the map of a view has: the four of `mem_begin`, one for each piece and one for
each page with a subpage. -/
def sectionsNeeded (as : AsId) (view : FlatView) : Nat :=
  4 + (viewPieces as view).length + (partPages (viewPieces as view)).card

section
variable {as : AsId} {view : FlatView} {b : Int} {d : AddressSpaceDispatch} {p : MemoryRegionSection}
  {addr : Nat}

lemma ViewIn.section_valid (hview : ViewIn 0 (2 ^ 64) view) {fr : FlatRange} (hfr : fr ∈ view) :
    ((ofListener (fr.toSection as)).start : Int) = fr.lo ∧
      ((ofListener (fr.toSection as)).stop : Int) = fr.hi ∧ (ofListener (fr.toSection as)).Valid :=
  ofListener_toSection (hview.sorted.le_lo hfr) (hview.sorted.lo_lt_hi hfr) (hview.le fr hfr)

lemma foldlM_memAdd (hvalid : ∀ fr ∈ view, (ofListener (fr.toSection as)).Valid) :
    view.foldlM (fun d fr => memAdd (ofListener (fr.toSection as)) d) d =
      (viewPieces as view).foldlM registerPiece d := by
  induction view generalizing d with
  | nil => rfl
  | cons fr view ih =>
    obtain ⟨hfr, hvalid⟩ := forall_mem_cons.mp hvalid
    rw [viewPieces, flatMap_cons, foldlM_append, foldlM_cons, memAdd_eq hfr]
    exact congrArg _ (funext fun d => ih hvalid)

lemma memBegin_maps : ∃ d, memBegin = some d ∧ Maps d [] ∅ := by
  refine ⟨_, rfl, (by decide : 1 ≤ 6), Nat.zero_le _, rfl, rfl, nofun, fun page hpage => ?_⟩
  exact .unassigned (sectionAt_empty (by decide) page) (Finset.notMem_empty page) nofun

section
variable (hview : ViewIn 0 (2 ^ 64) view)
include hview

lemma viewPieces_isPiece (hp : p ∈ viewPieces as view) : p.IsPiece := by
  obtain ⟨fr, hfr, hp⟩ := mem_flatMap.mp hp
  exact isPiece_of_mem ⟨fr.mr, rfl⟩ (ViewIn.section_valid hview hfr).2.2 hp

lemma viewPieces_pairwise : (viewPieces as view).Pairwise fun p q => p.stop ≤ q.start := by
  refine pairwise_flatMap.mpr ⟨fun fr _ => pieces_pairwise, ?_⟩
  refine hview.sorted.pairwise.imp_of_mem fun {fr fr'} hfr hfr' hle p hp q hq => ?_
  obtain ⟨-, hstop, -⟩ := @ViewIn.section_valid as view hview fr hfr
  obtain ⟨hstart, -, -⟩ := @ViewIn.section_valid as view hview fr' hfr'
  obtain ⟨lo, hi, rfl, _, hlt, hhi, -⟩ := mem_pieces hp
  obtain ⟨lo', hi', rfl, hlo', -⟩ := mem_pieces hq
  rw [restrict_stop hlt.le]
  change hi ≤ lo'
  omega

lemma addView_maps (hroom : sectionsNeeded as view ≤ 4096) :
    ∃ d done parts, addView as view = some d ∧ Maps d done parts ∧
      ∀ q, q ∈ done ↔ q ∈ viewPieces as view := by
  obtain ⟨d₀, hbegin, h₀⟩ := memBegin_maps
  obtain ⟨d, done, parts, hrun, h, hmem⟩ := @Maps.registerPieces d₀ [] ∅ (viewPieces as view) h₀ nofun
    (fun p hp => viewPieces_isPiece hview hp)
    ((viewPieces_pairwise hview).imp fun hle addr hq hp => by
      have := hq.1
      have := hp.2
      omega)
    (fun _ _ _ hq => absurd hq not_mem_nil)
    (by rw [Finset.empty_union]; exact hroom)
  refine ⟨d, done, parts, ?_, h, fun q => (hmem q).trans (or_iff_left not_mem_nil)⟩
  rw [addView, hbegin, Option.bind_some,
    foldlM_memAdd fun fr hfr => (ViewIn.section_valid hview hfr).2.2]
  exact hrun

lemma ViewIn.covers_iff {fr : FlatRange} (hfr : fr ∈ view) :
    (ofListener (fr.toSection as)).Covers addr ↔ fr.addr.contains addr = true := by
  obtain ⟨hstart, hstop, -⟩ := @ViewIn.section_valid as view hview fr hfr
  rw [AddrRange.contains_iff, MemoryRegionSection.Covers]
  change _ ↔ fr.lo ≤ addr ∧ (addr : Int) < fr.hi
  omega

lemma Maps.lookup_view {done : List MemoryRegionSection} {parts : Finset Nat} (h : Maps d done parts)
    (hmem : ∀ q, q ∈ done ↔ q ∈ viewPieces as view) (haddr : addr < 2 ^ 64) :
    ∃ sec, addressSpaceLookupRegion d addr true = some sec ∧
      ((sec = unassignedSection ∧ ∀ r ∈ view, r.addr.contains addr = false) ∨
        ∃ r ∈ view, r.addr.contains addr = true ∧ sec ∈ (ofListener (r.toSection as)).pieces ∧
          sec.Covers addr) := by
  obtain ⟨sec, hlookup, ⟨rfl, hfree⟩ | ⟨hsec, hcovers⟩⟩ := h.lookup haddr
  · refine ⟨unassignedSection, hlookup, .inl ⟨rfl, fun r hr => ?_⟩⟩
    refine Bool.eq_false_iff.mpr fun hin => ?_
    obtain ⟨p, hp, hcovers⟩ := exists_piece ((@ViewIn.covers_iff as view addr hview r hr).mpr hin)
    exact hfree p ((hmem p).mpr (mem_flatMap.mpr ⟨r, hr, hp⟩)) hcovers
  · obtain ⟨r, hr, hp⟩ := mem_flatMap.mp ((hmem sec).mp hsec)
    have hin := (ViewIn.covers_iff hview hr).mp (piece_offset hp hcovers).1
    exact ⟨sec, hlookup, .inr ⟨r, hr, hin, hp, hcovers⟩⟩

lemma ViewIn.range_unique {r s : FlatRange} {a : Int} (hr : r ∈ view)
    (hs : s ∈ view) (hra : r.addr.contains a = true) (hsa : s.addr.contains a = true) : r = s := by
  have hr' := hview.sorted.lookup_eq_some hr (AddrRange.contains_iff.mp hra)
  have hs' := hview.sorted.lookup_eq_some hs (AddrRange.contains_iff.mp hsa)
  exact Option.some.inj (hr'.symm.trans hs')
end

/-- For every flat view for which there are enough numbers of sections, `mem_begin` and `mem_add` for
each range return, `mem_commit` changes no lookup, and the lookup of an address finds the region and
the offset that the range with the address has. For an address in no range it finds the unassigned
section. -/
theorem addressSpaceLookupRegion_view (as : AsId) {view : FlatView} (hview : ViewIn 0 (2 ^ 64) view)
    (hroom : sectionsNeeded as view ≤ targetPageSize) :
    ∃ d, addView as view = some d ∧ ∀ addr : HwAddr,
      (∀ resolveSubpage, addressSpaceLookupRegion (memCommit d) addr.toNat resolveSubpage =
        addressSpaceLookupRegion d addr.toNat resolveSubpage) ∧
      ∃ sec, addressSpaceLookupRegion (memCommit d) addr.toNat true = some sec ∧
        (∀ r ∈ view, r.addr.contains addr.toNat = true →
          sec.mr = .region r.mr ∧ sec.Covers addr.toNat ∧
          (sec.offsetWithinRegion + (addr.toNat - sec.offsetWithinAddressSpace)) % 2 ^ 64 =
            (r.offsetInRegion.toNat + (addr.toNat - r.addr.start.toNat)) % 2 ^ 64) ∧
        ((∀ r ∈ view, r.addr.contains addr.toNat = false) → sec = unassignedSection) := by
  obtain ⟨d, done, parts, hrun, h, hmem⟩ := addView_maps hview hroom
  refine ⟨d, hrun, fun addr => ?_⟩
  have hcommit := fun resolveSubpage => h.lookup_memCommit addr.isLt resolveSubpage
  obtain ⟨sec, hlookup, hsec⟩ := h.lookup_view hview hmem addr.isLt
  refine ⟨hcommit, sec, (hcommit true).trans hlookup, fun r hr hin => ?_, fun hnone => ?_⟩
  · rcases hsec with ⟨-, hfree⟩ | ⟨s, hs, hin', hp, hcovers⟩
    · rw [hfree r hr] at hin
      cases hin
    obtain rfl := ViewIn.range_unique hview hr hs hin hin'
    obtain ⟨-, hoffset, hmr⟩ := piece_offset hp hcovers
    refine ⟨hmr, hcovers, hoffset.trans ?_⟩
    have hstart := (@ViewIn.section_valid as view hview r hr).1
    have hstart' : (ofListener (r.toSection as)).start = r.addr.start.toNat := by
      change _ = r.lo.toNat
      omega
    rw [hstart']
    rfl
  · rcases hsec with ⟨rfl, -⟩ | ⟨s, hs, hin', -⟩
    · rfl
    · rw [hnone s hs] at hin'
      cases hin'

def unalignedView : FlatView :=
  [⟨1, 0x10#64, ⟨0x800, 0x2900⟩, 0#8, true, false⟩, ⟨2, 0#64, ⟨0x3100, 0x100⟩, 0#8, true, false⟩]

theorem addressSpaceLookupRegion_view_unaligned :
    sectionsNeeded 0 unalignedView = 10 ∧ ∃ d, addView 0 unalignedView = some d ∧
      ∃ sec, addressSpaceLookupRegion (memCommit d) 0x3104 true = some sec ∧ sec.mr = .region 2 ∧
        (sec.offsetWithinRegion + (0x3104 - sec.offsetWithinAddressSpace)) % 2 ^ 64 = 4 := by
  have hneeded : sectionsNeeded 0 unalignedView = 10 := by decide
  obtain ⟨d, hrun, hlookup⟩ := @addressSpaceLookupRegion_view 0 unalignedView ⟨by decide, by decide⟩
    (by rw [hneeded]; decide)
  obtain ⟨-, sec, hsec, hin, -⟩ := hlookup 0x3104#64
  obtain ⟨hmr, -, hoffset⟩ := hin ⟨2, 0#64, ⟨0x3100, 0x100⟩, 0#8, true, false⟩ (by decide) (by decide)
  exact ⟨hneeded, d, hrun, sec, hsec, hmr, hoffset⟩

lemma foldlM_delEvents (old new : FlatView) (d : AddressSpaceDispatch) :
    (delEvents as old new).foldlM dispatchEvent d = some d := by
  rw [delEvents]
  induction old.filter fun r => !new.any (flatrangeEqual r) with
  | nil => rfl
  | cons r rs ih => exact ih

lemma foldlM_addEvents (old : FlatView) (r : FlatRange) (d : AddressSpaceDispatch) :
    (addEvents as old r).foldlM dispatchEvent d = memAdd (ofListener (r.toSection as)) d := by
  rw [addEvents]
  cases old.find? (flatrangeEqual · r) with
  | none => exact bind_pure _
  | some prev =>
    rw [foldlM_cons]
    refine (congrArg _ (funext fun d => ?_)).trans (bind_pure _)
    split
    · rfl
    · split
      · rfl
      · rfl

lemma foldlM_dispatchEvent {old new : FlatView} (hold : old.Valid) (hnew : new.Valid)
    (d : AddressSpaceDispatch) :
    ∃ events, addressSpaceUpdateTopologyEvents as old new = some events ∧
      events.foldlM dispatchEvent d =
        new.foldlM (fun d fr => memAdd (ofListener (fr.toSection as)) d) d := by
  refine ⟨_, updateTopologyEvents_eq hold hnew, ?_⟩
  rw [foldlM_append, foldlM_delEvents]
  change (new.flatMap (addEvents as old)).foldlM dispatchEvent d = _
  clear hnew hold
  induction new generalizing d with
  | nil => rfl
  | cons r new ih =>
    rw [flatMap_cons, foldlM_append, foldlM_addEvents, foldlM_cons]
    exact congrArg _ (funext fun d => ih d)
end

end QemuVmi.Exec
