import QemuVmi.Exec.Dispatch

/-!
# Looking up addresses in a dispatch map

What `address_space_lookup_region` finds in the map that is made from a flat view.

`Maps` says what holds of the map for the pieces that are registered so far. For a page there are
three cases (`PageOk`): nothing is registered in it, one piece covers it, or it has a subpage. A
section of the map is the section of all pages that it covers. Compaction can make the map find a
section for a page that has none, but this is one that does not cover the page, and
`phys_page_find` does not return it.

Results:
1. `Maps.registerMultipage`, `Maps.registerSubpage`: registering a piece.
2. `Maps.lookup`: an address has the piece that covers it.
3. `Maps.physPageFind_memCommit`: compaction does not change what is found.
-/

namespace QemuVmi.Exec

open List Option SkipTree

def unassignedSection : MemoryRegionSection := ⟨.ioMemUnassigned, 0, 2 ^ 64, 0⟩

namespace MemoryRegionSection

def Covers (sec : MemoryRegionSection) (addr : Nat) : Prop := sec.start ≤ addr ∧ addr < sec.stop

def HasPage (sec : MemoryRegionSection) (page : Nat) : Prop :=
  sec.start / 4096 ≤ page ∧ page < sec.start / 4096 + sec.size / 4096

structure IsPiece (p : MemoryRegionSection) : Prop where
  region : ∃ mr, p.mr = .region mr
  pos : 0 < p.size
  stop_le : p.stop ≤ 2 ^ 64
  whole : p.Full ∨ p.start / 4096 = (p.stop - 1) / 4096

end MemoryRegionSection

/-- The number of the section for an address: that of the piece that covers it, or of the
unassigned section. -/
def Serves (d : AddressSpaceDispatch) (done : List MemoryRegionSection) (n addr : Nat) : Prop :=
  (n = physSectionUnassigned ∧ ∀ q ∈ done, ¬q.Covers addr) ∨
    ∃ q ∈ done, q.Covers addr ∧ d.sections[n]? = some q

/-- What the map says about a page. The pages in `parts` have a subpage. -/
inductive PageOk (d : AddressSpaceDispatch) (done : List MemoryRegionSection) (parts : Finset Nat)
    (page : Nat) : Prop
  | unassigned (hroot : sectionAt d.map.root pL2Levels page = physSectionUnassigned)
      (hpart : page ∉ parts) (hfree : ∀ q ∈ done, ∀ addr, addr / 4096 = page → ¬q.Covers addr)
  | full (q : MemoryRegionSection) (n : Nat) (hq : q ∈ done) (hfull : q.Full) (hpage : q.HasPage page)
      (hpart : page ∉ parts) (hn : n ≠ physSectionUnassigned) (hsection : d.sections[n]? = some q)
      (howner : ∀ page', q.HasPage page' → sectionAt d.map.root pL2Levels page' = n)
  | part (k n : Nat) (subpage : Subpage) (hpart : page ∈ parts) (hlt : page < 2 ^ 52)
      (hroot : sectionAt d.map.root pL2Levels page = n) (hn : n ≠ physSectionUnassigned)
      (hsection : d.sections[n]? = some (subpageSection k (page * 4096)))
      (hsubpage : d.subpages[k]? = some subpage) (hbase : subpage.base = page * 4096)
      (hserves : ∀ addr, addr / 4096 = page → Serves d done (subpage.subSection (addr % 4096)) addr)

structure Maps (d : AddressSpaceDispatch) (done : List MemoryRegionSection) (parts : Finset Nat) :
    Prop where
  built : Built pL2Levels d.map.root
  nodes : d.map.nodesNb ≤ 11 * d.sections.length
  count : d.sections.length = 4 + done.length + parts.card
  zero : d.sections[physSectionUnassigned]? = some unassignedSection
  piece : ∀ q ∈ done, q.IsPiece
  page : ∀ page, page < 512 ^ 6 → PageOk d done parts page

section
variable {d : AddressSpaceDispatch} {done : List MemoryRegionSection} {parts : Finset Nat}
  {sec : MemoryRegionSection} {n addr : Nat}

lemma rangeCoversByte_iff (hpos : 0 < sec.size) (hstop : sec.stop ≤ 2 ^ 64) :
    rangeCoversByte sec.start sec.size addr ↔ sec.Covers addr := by
  have hstop' : sec.stop = sec.start + sec.size := rfl
  rw [rangeCoversByte, MemoryRegionSection.Covers]
  omega

section
variable (hlevelled : Levelled pL2Levels d.map.root)
include hlevelled

variable (hzero : d.sections[physSectionUnassigned]? = some unassignedSection)
include hzero

lemma physPageFind_eq (addr : Nat) :
    physPageFind d addr = d.sections[sectionAt d.map.root pL2Levels (addr / 4096)]?.bind fun sec =>
      if sec.size ≥ 2 ^ 64 ∨ rangeCoversByte sec.offsetWithinAddressSpace sec.size addr then some sec
      else some unassignedSection := by
  obtain ⟨r, hr⟩ := hlevelled.find_isSome (addr / 4096)
  have hwalk : physPageWalk d.map.root (addr / targetPageSize) = some r := hr
  rw [physPageFind, hwalk, bind_some, sectionAt, hr, getD_some, hzero]
  cases r with
  | none => rw [getD_none, hzero, bind_some, if_pos (.inl (by decide))]
  | some n => rfl

lemma physPageFind_unassigned
    (h : sectionAt d.map.root pL2Levels (addr / 4096) = physSectionUnassigned) :
    physPageFind d addr = some unassignedSection := by
  rw [physPageFind_eq hlevelled hzero, h, hzero, bind_some, if_pos (.inl (by decide))]

lemma physPageFind_of_covers
    (h : sectionAt d.map.root pL2Levels (addr / 4096) = n) (hsection : d.sections[n]? = some sec)
    (hpos : 0 < sec.size) (hstop : sec.stop ≤ 2 ^ 64) (hcovers : sec.Covers addr) :
    physPageFind d addr = some sec := by
  rw [physPageFind_eq hlevelled hzero, h, hsection, bind_some,
    if_pos (.inr ((rangeCoversByte_iff hpos hstop).mpr hcovers))]
end

lemma covers_of_hasPage (hfull : sec.Full) (hpage : sec.HasPage (addr / 4096)) :
    sec.Covers addr := by
  obtain ⟨hstart, hsize⟩ := hfull
  have hstart : sec.start % 4096 = 0 := hstart
  have hsize : sec.size % 4096 = 0 := hsize
  have hstop : sec.stop = sec.start + sec.size := rfl
  obtain ⟨hle, hlt⟩ := hpage
  rw [MemoryRegionSection.Covers]
  omega

lemma hasPage_of_covers (hfull : sec.Full) (hcovers : sec.Covers addr) :
    sec.HasPage (addr / 4096) := by
  obtain ⟨hstart, hsize⟩ := hfull
  have hstart : sec.start % 4096 = 0 := hstart
  have hsize : sec.size % 4096 = 0 := hsize
  have hstop : sec.stop = sec.start + sec.size := rfl
  obtain ⟨hle, hlt⟩ := hcovers
  rw [MemoryRegionSection.HasPage]
  omega

lemma subpageSection_covers {k page : Nat} :
    (subpageSection k (page * 4096)).Covers addr ↔ addr / 4096 = page := by
  have hstop : (subpageSection k (page * 4096)).stop = page * 4096 + 4096 := rfl
  have hstart : (subpageSection k (page * 4096)).start = page * 4096 := rfl
  rw [MemoryRegionSection.Covers, hstart, hstop]
  omega

variable (h : Maps d done parts) (haddr : addr < 2 ^ 64)

include h haddr in
lemma Maps.lookup : ∃ sec, addressSpaceLookupRegion d addr true = some sec ∧
      ((sec = unassignedSection ∧ ∀ q ∈ done, ¬q.Covers addr) ∨ (sec ∈ done ∧ sec.Covers addr)) := by
  have hlevelled := h.built.levelled
  cases h.page (addr / 4096) (by omega) with
  | unassigned hroot _ hfree =>
    refine ⟨unassignedSection, ?_, .inl ⟨rfl, fun q hq => hfree q hq addr rfl⟩⟩
    rw [addressSpaceLookupRegion, physPageFind_unassigned hlevelled h.zero hroot]
    rfl
  | full q n hq hfull hpage _ _ hsection howner =>
    have hpiece := h.piece q hq
    have hcovers := covers_of_hasPage hfull hpage
    obtain ⟨mr, hmr⟩ := hpiece.region
    refine ⟨q, ?_, .inr ⟨hq, hcovers⟩⟩
    rw [addressSpaceLookupRegion, physPageFind_of_covers hlevelled h.zero (howner _ hpage) hsection
      hpiece.pos hpiece.stop_le hcovers, bind_some, hmr]
  | part k n subpage _ _ hroot _ hsection hsubpage _ hserves =>
    have hfind : physPageFind d addr = some (subpageSection k (addr / 4096 * 4096)) := by
      refine physPageFind_of_covers hlevelled h.zero hroot hsection (by decide : 0 < 4096) ?_
        (subpageSection_covers.mpr rfl)
      change addr / 4096 * 4096 + 4096 ≤ 2 ^ 64
      omega
    have hlookup : addressSpaceLookupRegion d addr true =
        d.sections[subpage.subSection (addr % 4096)]? := by
      rw [addressSpaceLookupRegion, hfind, bind_some]
      change (d.subpages[k]?.bind fun subpage => d.sections[subpage.subSection (addr % 4096)]?) = _
      rw [hsubpage, bind_some]
    rw [hlookup]
    rcases hserves addr rfl with ⟨hn, hfree⟩ | ⟨q, hq, hcovers, hn⟩
    · exact ⟨unassignedSection, by rw [hn, h.zero], .inl ⟨rfl, hfree⟩⟩
    · exact ⟨q, hn, .inr ⟨hq, hcovers⟩⟩

lemma memCommit_shrinks (hbuilt : Built pL2Levels d.map.root) :
    Shrinks pL2Levels d.map.root (memCommit d).map.root := by
  rw [memCommit, physPageCompactAll]
  split
  · exact physPageCompact_shrinks hbuilt
  · exact .refl hbuilt.levelled

lemma Maps.section_owner (h : Maps d done parts) {page : Nat} (hpage : page < 512 ^ 6)
    (hn : sectionAt d.map.root pL2Levels page ≠ physSectionUnassigned) :
    ∃ sec, d.sections[sectionAt d.map.root pL2Levels page]? = some sec ∧ 0 < sec.size ∧
      sec.stop ≤ 2 ^ 64 ∧ ∀ addr, sec.Covers addr →
        sectionAt d.map.root pL2Levels (addr / 4096) = sectionAt d.map.root pL2Levels page := by
  cases h.page page hpage with
  | unassigned hroot => exact absurd hroot hn
  | full q n hq hfull hpage _ _ hsection howner =>
    rw [howner page hpage]
    exact ⟨q, hsection, (h.piece q hq).pos, (h.piece q hq).stop_le, fun addr hcovers =>
      howner _ (hasPage_of_covers hfull hcovers)⟩
  | part k n subpage _ hlt hroot _ hsection =>
    rw [hroot]
    refine ⟨_, hsection, (by decide : 0 < 4096), ?_, fun addr hcovers => ?_⟩
    · change page * 4096 + 4096 ≤ 2 ^ 64
      omega
    · rw [subpageSection_covers.mp hcovers, hroot]

include h haddr in
lemma Maps.physPageFind_memCommit : physPageFind (memCommit d) addr = physPageFind d addr := by
  have hshrinks := memCommit_shrinks h.built
  rcases hshrinks.find (addr / 4096) with hsame | ⟨hnone, index, hother⟩
  · have hwalk : physPageWalk (memCommit d).map.root (addr / targetPageSize) =
        physPageWalk d.map.root (addr / targetPageSize) := hsame
    rw [physPageFind, physPageFind, hwalk]
    rfl
  have hunassigned : sectionAt d.map.root pL2Levels (addr / 4096) = physSectionUnassigned := by
    rw [sectionAt, hnone]
    rfl
  have hsection : sectionAt (memCommit d).map.root pL2Levels (addr / 4096) =
      sectionAt d.map.root pL2Levels (index % 512 ^ 6) := by
    rw [sectionAt, sectionAt, hother, h.built.levelled.find_congr (Nat.mod_mod index _).symm]
    rfl
  rw [physPageFind_unassigned h.built.levelled h.zero hunassigned]
  by_cases hn : sectionAt d.map.root pL2Levels (index % 512 ^ 6) = physSectionUnassigned
  · exact physPageFind_unassigned hshrinks.levelled h.zero (hsection.trans hn)
  obtain ⟨sec, hsec, hpos, hstop, howner⟩ := h.section_owner (Nat.mod_lt index (by decide)) hn
  have hnot : ¬sec.Covers addr := fun hcovers => hn ((howner addr hcovers).symm.trans hunassigned)
  have hstop' : sec.stop = sec.start + sec.size := rfl
  rw [physPageFind_eq hshrinks.levelled h.zero, hsection]
  refine bind_eq_some_iff.mpr ⟨sec, hsec, if_neg ?_⟩
  rw [rangeCoversByte_iff hpos hstop]
  rw [MemoryRegionSection.Covers] at hnot ⊢
  omega

include h haddr in
lemma Maps.lookup_memCommit (resolveSubpage : Bool) :
    addressSpaceLookupRegion (memCommit d) addr resolveSubpage =
      addressSpaceLookupRegion d addr resolveSubpage := by
  rw [addressSpaceLookupRegion, addressSpaceLookupRegion, h.physPageFind_memCommit haddr]
  rfl
end

section
variable {d d' : AddressSpaceDispatch} {done done' : List MemoryRegionSection} {parts parts' : Finset Nat}
  {p : MemoryRegionSection} {page : Nat}

lemma hasPage_lt (hp : p.IsPiece) (hpage : p.HasPage page) : page < 2 ^ 52 := by
  have hstop := hp.stop_le
  have hstop' : p.stop = p.start + p.size := rfl
  have := hpage.2
  omega

def KeepsSections (d d' : AddressSpaceDispatch) : Prop :=
  (∀ (n : Nat) (sec : MemoryRegionSection), d.sections[n]? = some sec → d'.sections[n]? = some sec) ∧
    ∀ page, page < 512 ^ 6 → sectionAt d.map.root pL2Levels page ≠ physSectionUnassigned →
      sectionAt d'.map.root pL2Levels page = sectionAt d.map.root pL2Levels page

lemma Serves.mono {n addr : Nat} (h : Serves d done n addr) (hkeep : KeepsSections d d')
    (hold : ∀ q ∈ done, q ∈ done') (hnew : ∀ q ∈ done', q ∈ done ∨ ¬q.Covers addr) :
    Serves d' done' n addr := by
  rcases h with ⟨hn, hfree⟩ | ⟨q, hq, hcovers, hn⟩
  · refine .inl ⟨hn, fun q hq => ?_⟩
    rcases hnew q hq with hq | hnot
    · exact hfree q hq
    · exact hnot
  · exact .inr ⟨q, hold q hq, hcovers, hkeep.1 n q hn⟩

lemma PageOk.mono (h : PageOk d done parts page) (hpiece : ∀ q ∈ done, q.IsPiece)
    (hkeep : KeepsSections d d')
    (hsame : sectionAt d'.map.root pL2Levels page = sectionAt d.map.root pL2Levels page)
    (hsubpages : ∀ (k : Nat) (subpage : Subpage), d.subpages[k]? = some subpage →
      subpage.base = page * 4096 → d'.subpages[k]? = some subpage)
    (hparts : page ∈ parts' ↔ page ∈ parts) (hold : ∀ q ∈ done, q ∈ done')
    (hnew : ∀ q ∈ done', q ∈ done ∨ ∀ addr, addr / 4096 = page → ¬q.Covers addr) :
    PageOk d' done' parts' page := by
  cases h with
  | unassigned hroot hpart hfree =>
    refine .unassigned (hsame.trans hroot) (mt hparts.mp hpart) fun q hq => ?_
    rcases hnew q hq with hq | hnot
    · exact hfree q hq
    · exact hnot
  | full q n hq hfull hpage hpart hn hsection howner =>
    refine .full q n (hold q hq) hfull hpage (mt hparts.mp hpart) hn (hkeep.1 n q hsection)
      fun page' hpage' => ?_
    have hlt := hasPage_lt (hpiece q hq) hpage'
    have hn' := howner page' hpage'
    exact (hkeep.2 page' (by omega) (hn' ▸ hn)).trans hn'
  | part k n subpage hpart hlt hroot hn hsection hsubpage hbase hserves =>
    refine .part k n subpage (hparts.mpr hpart) hlt (hsame.trans hroot) hn
      (hkeep.1 n _ hsection) (hsubpages k subpage hsubpage hbase) hbase fun addr haddr => ?_
    refine (hserves addr haddr).mono hkeep hold fun q hq => ?_
    rcases hnew q hq with hq | hnot
    · exact .inl hq
    · exact .inr (hnot addr haddr)

variable (h : Maps d done parts)
  (hused : ∀ page ∈ parts, ∃ q ∈ done, ∃ addr, addr / 4096 = page ∧ q.Covers addr)

include h hused in
lemma Maps.page_free
    (hpage : page < 512 ^ 6) (hfree : ∀ q ∈ done, ∀ addr, addr / 4096 = page → ¬q.Covers addr) :
    sectionAt d.map.root pL2Levels page = physSectionUnassigned ∧ page ∉ parts := by
  cases h.page page hpage with
  | unassigned hroot hpart => exact ⟨hroot, hpart⟩
  | full q n hq hfull hpage =>
    have hdiv : page * 4096 / 4096 = page := Nat.mul_div_cancel page (by decide)
    exact absurd (covers_of_hasPage hfull (hdiv.symm ▸ hpage)) (hfree q hq _ hdiv)
  | part k n subpage hpart =>
    obtain ⟨q, hq, addr, haddr, hcovers⟩ := hused page hpart
    exact absurd hcovers (hfree q hq addr haddr)

lemma Maps.setPages (h : Maps d done parts) {sec : MemoryRegionSection} {index nb : Nat}
    (hroom : d.sections.length < 4096) (hnb : nb ≠ 0) (hend : index + nb ≤ 2 ^ 52)
    (hfree : ∀ page, index ≤ page → page < index + nb →
      sectionAt d.map.root pL2Levels page = physSectionUnassigned) :
    ∃ map, physPageSet index nb d.sections.length d.map = some map ∧ Built pL2Levels map.root ∧
      map.nodesNb ≤ 11 * (d.sections.length + 1) ∧
      (∀ page, page < 512 ^ 6 → sectionAt map.root pL2Levels page =
        if index ≤ page ∧ page < index + nb then d.sections.length
        else sectionAt d.map.root pL2Levels page) ∧
      KeepsSections d ⟨map, d.sections ++ [sec], d.subpages⟩ := by
  have hpos : d.sections.length ≠ physSectionUnassigned := by
    have := h.count
    simp only [physSectionUnassigned]
    omega
  have hnodes := h.nodes
  obtain ⟨map, hrun, hbuilt, hnodes', hfind⟩ := physPageSet_spec h.built hpos hnb (by omega) hfree
    (show d.map.nodesNb + 11 ≤ 2 ^ 26 - 1 by omega)
  refine ⟨map, hrun, hbuilt, by omega, hfind, fun n sec' hn => ?_, fun page hpage hne => ?_⟩
  · exact List.getElem?_append_left (List.getElem?_eq_some_iff.mp hn).1 ▸ hn
  · rw [hfind page hpage, if_neg]
    exact fun hin => hne (hfree page hin.1 hin.2)

lemma physSectionAdd_eq (sec : MemoryRegionSection) (h : d.sections.length < 4096) :
    physSectionAdd sec d =
      some (d.sections.length, { d with sections := d.sections ++ [sec] }) := if_pos h

lemma subpageInit_subSection (base i : Nat) :
    (subpageInit base).subSection i = physSectionUnassigned := by
  change (if 0 ≤ i ∧ i ≤ 4095 then physSectionUnassigned else 0) = _
  split <;> rfl

include h hused in
lemma Maps.registerMultipage (hp : p.IsPiece) (hfull : p.Full)
    (hdisjoint : ∀ q ∈ done, ∀ addr, p.Covers addr → ¬q.Covers addr)
    (hroom : d.sections.length < 4096) :
    ∃ d', Exec.registerMultipage p d = some d' ∧ Maps d' (p :: done) parts := by
  have hpos := hp.pos
  have hstop := hp.stop_le
  have hstop' : p.stop = p.start + p.size := rfl
  have hsize : p.size % 4096 = 0 := hfull.2
  have hpages : ∀ page, p.HasPage page → sectionAt d.map.root pL2Levels page = physSectionUnassigned ∧
      page ∉ parts := by
    intro page hpage
    have hlt := hasPage_lt hp hpage
    refine h.page_free hused (by omega) fun q hq addr haddr => ?_
    subst haddr
    exact hdisjoint q hq addr (covers_of_hasPage hfull hpage)
  obtain ⟨map, hrun, hbuilt, hnodes, hfind, hkeep⟩ := @Maps.setPages d done parts h p
    (p.start / 4096) (p.size / 4096) hroom (by omega) (by omega)
    (fun page hle hlt => (hpages page ⟨hle, hlt⟩).1)
  refine ⟨⟨map, d.sections ++ [p], d.subpages⟩, ?_, hbuilt, ?_, ?_, hkeep.1 _ _ h.zero, ?_, ?_⟩
  · rw [Exec.registerMultipage, physSectionAdd_eq p hroom]
    change ((int128Get64 (p.size / 4096)).bind fun numPages => if numPages = 0 then none else
      AddressSpaceDispatch.physPageSet (p.start / 4096) numPages d.sections.length _) = _
    rw [int128Get64, if_pos (by omega), bind_some, if_neg (by omega),
      AddressSpaceDispatch.physPageSet, hrun]
    rfl
  · rwa [length_append]
  · rw [length_append, length_cons, h.count, length_cons, length_nil]
    omega
  · exact forall_mem_cons.mpr ⟨hp, h.piece⟩
  intro page hpage
  by_cases hin : p.HasPage page
  · refine .full p d.sections.length mem_cons_self hfull hin (hpages page hin).2 ?_
      List.getElem?_concat_length fun page' hpage' => ?_
    · rw [h.count, physSectionUnassigned]
      omega
    · have hlt := hasPage_lt hp hpage'
      exact (hfind page' (by omega)).trans (if_pos hpage')
  refine (h.page page hpage).mono h.piece hkeep ((hfind page hpage).trans (if_neg hin))
    (fun _ _ hk _ => hk) Iff.rfl (fun q hq => mem_cons_of_mem p hq) fun q hq => ?_
  rcases mem_cons.mp hq with rfl | hq
  · refine .inr fun addr haddr hcovers => hin ?_
    exact haddr ▸ hasPage_of_covers hfull hcovers
  · exact .inl hq

lemma Maps.findSubpage (h : Maps d done parts) (hpage : page < 2 ^ 52)
    (hfull : ∀ q ∈ done, q.Full → ¬q.HasPage page)
    (hroom : 3 + done.length + (insert page parts).card < 4096) :
    ∃ k d', Exec.findSubpage (page * 4096) d = some (k, d') ∧ Maps d' done (insert page parts) ∧
      d'.sections[sectionAt d'.map.root pL2Levels page]? = some (subpageSection k (page * 4096)) := by
  have hdiv : page * 4096 / 4096 = page := Nat.mul_div_cancel page (by decide)
  cases h.page page (by omega) with
  | unassigned hroot hpart hfree =>
    rw [Finset.card_insert_of_notMem hpart] at hroom
    have hcount := h.count
    obtain ⟨map, hrun, hbuilt, hnodes, hfind, hkeep⟩ := @Maps.setPages d done parts h
      (subpageSection d.subpages.length (page * 4096)) page 1 (by omega) (by decide) (by omega)
      (fun page' hle hlt => (show page' = page by omega) ▸ hroot)
    have hat : sectionAt map.root pL2Levels page = d.sections.length :=
      (hfind page (by omega)).trans (if_pos (by omega))
    refine ⟨d.subpages.length, ⟨map, d.sections ++ [subpageSection d.subpages.length (page * 4096)],
      d.subpages ++ [subpageInit (page * 4096)]⟩, ?_,
      ⟨hbuilt, ?_, ?_, hkeep.1 _ _ h.zero, h.piece, fun page' hpage' => ?_⟩, ?_⟩
    · rw [Exec.findSubpage,
        physPageFind_unassigned h.built.levelled h.zero (by rw [hdiv]; exact hroot)]
      change ((physSectionAdd _ ⟨d.map, d.sections, _⟩).bind _) = _
      rw [physSectionAdd_eq _ (by dsimp only; omega), bind_some]
      change ((AddressSpaceDispatch.physPageSet (page * 4096 / 4096) 1 _ _).bind _) = _
      rw [AddressSpaceDispatch.physPageSet, hdiv, hrun]
      rfl
    · rwa [length_append]
    · rw [length_append, Finset.card_insert_of_notMem hpart, length_cons, length_nil]
      omega
    · by_cases hpage'' : page' = page
      · subst hpage''
        refine .part d.subpages.length d.sections.length (subpageInit (page' * 4096))
          (Finset.mem_insert_self _ _) hpage hat ?_ List.getElem?_concat_length
          List.getElem?_concat_length rfl fun addr haddr => ?_
        · rw [physSectionUnassigned]
          omega
        · exact .inl ⟨subpageInit_subSection _ _, fun q hq => hfree q hq addr haddr⟩
      · refine (h.page page' hpage').mono h.piece hkeep
          ((hfind page' hpage').trans (if_neg (by omega))) (fun k subpage hk _ => ?_)
          (by rw [Finset.mem_insert]; exact or_iff_right hpage'') (fun _ => id) (fun _ => .inl)
        exact List.getElem?_append_left (List.getElem?_eq_some_iff.mp hk).1 ▸ hk
    · rw [hat]
      exact List.getElem?_concat_length
  | full q n hq hq' hin => exact absurd hin (hfull q hq hq')
  | part k n subpage hpart hlt hroot hn hsection hsubpage hbase hserves =>
    refine ⟨k, d, ?_, ?_, hroot.symm ▸ hsection⟩
    · rw [Exec.findSubpage, physPageFind_of_covers h.built.levelled h.zero (hdiv.symm ▸ hroot) hsection
        (by decide : 0 < 4096) (by change page * 4096 + 4096 ≤ 2 ^ 64; omega)
        (subpageSection_covers.mpr hdiv)]
      rfl
    · rwa [Finset.insert_eq_of_mem hpart]

lemma subpageRegister_spec {start size number : Nat} (hpos : 0 < size) (hle : start + size ≤ 4096)
    (subpage : Subpage) :
    (subpageRegister (start % 2 ^ 32) ((start + size + 2 ^ 64 - 1) % 2 ^ 64 % 2 ^ 32) number
      subpage).base = subpage.base ∧
    ∀ i, (subpageRegister (start % 2 ^ 32) ((start + size + 2 ^ 64 - 1) % 2 ^ 64 % 2 ^ 32) number
      subpage).subSection i = if start ≤ i ∧ i < start + size then number else subpage.subSection i := by
  have hstart : start % 2 ^ 32 = start := by omega
  have hlast : (start + size + 2 ^ 64 - 1) % 2 ^ 64 % 2 ^ 32 = start + size - 1 := by omega
  have hin : ¬(start ≥ 4096 ∨ start + size - 1 ≥ 4096) := by omega
  rw [hstart, hlast, subpageRegister, if_neg (by exact hin)]
  exact ⟨rfl, fun i => if_congr (by omega) rfl rfl⟩

lemma part_covers {addr : Nat} (hp : p.IsPiece) (hpart : ¬p.Full) (hcovers : p.Covers addr) :
    addr / 4096 = p.start / 4096 := by
  have hwhole := hp.whole.resolve_left hpart
  obtain ⟨hle, hlt⟩ := hcovers
  omega

lemma Maps.registerSubpage (h : Maps d done parts) (hp : p.IsPiece) (hpart : ¬p.Full)
    (hdisjoint : ∀ q ∈ done, ∀ addr, p.Covers addr → ¬q.Covers addr)
    (hroom : 4 + done.length + (insert (p.start / 4096) parts).card < 4096) :
    ∃ d', Exec.registerSubpage p d = some d' ∧ Maps d' (p :: done) (insert (p.start / 4096) parts) := by
  have hpos := hp.pos
  have hstop := hp.stop_le
  have hstop' : p.stop = p.start + p.size := rfl
  have hwhole := hp.whole.resolve_left hpart
  obtain ⟨k, d₁, hrun, h₁, hsection₁⟩ := h.findSubpage (show p.start / 4096 < 2 ^ 52 by omega)
    (fun q hq hq' hin => hdisjoint q hq p.start ⟨le_rfl, by omega⟩ (covers_of_hasPage hq' hin)) (by omega)
  have hcount := h₁.count
  cases h₁.page (p.start / 4096) (by omega) with
  | unassigned _ hnot | full q n _ _ _ hnot => exact absurd (Finset.mem_insert_self _ _) hnot
  | part k' n subpage hpart' hlt hroot hn hsection hsubpage hbase hserves =>
    obtain rfl : k' = k := by
      rw [hroot, hsection] at hsection₁
      injection hsection₁ with hsection₁
      injection hsection₁ with hmr
      injection hmr
    obtain ⟨hbase', hsub'⟩ := @subpageRegister_spec (p.start % 4096) p.size d₁.sections.length hpos
      (by omega) subpage
    have hkeep : ∀ map subpages, map = d₁.map →
        KeepsSections d₁ ⟨map, d₁.sections ++ [p], subpages⟩ := by
      rintro map subpages rfl
      exact ⟨fun n sec hn => List.getElem?_append_left (List.getElem?_eq_some_iff.mp hn).1 ▸ hn,
        fun _ _ _ => rfl⟩
    refine ⟨⟨d₁.map, d₁.sections ++ [p], d₁.subpages.modify k' (subpageRegister
      (p.start % 4096 % 2 ^ 32) ((p.start % 4096 + p.size + 2 ^ 64 - 1) % 2 ^ 64 % 2 ^ 32)
      d₁.sections.length)⟩, ?_, h₁.built, ?_, ?_, (hkeep _ [] rfl).1 _ _ h₁.zero, ?_, ?_⟩
    · exact bind_eq_some_iff.mpr ⟨_, hrun, bind_eq_some_iff.mpr
        ⟨_, if_pos (by omega), bind_eq_some_iff.mpr ⟨_, physSectionAdd_eq p (by omega), rfl⟩⟩⟩
    · rw [length_append]
      exact h₁.nodes.trans (Nat.mul_le_mul_left 11 (Nat.le_add_right _ _))
    · rw [length_append, length_cons, length_cons, length_nil]
      omega
    · exact forall_mem_cons.mpr ⟨hp, h₁.piece⟩
    intro page hpage
    by_cases hhere : page = p.start / 4096
    · subst hhere
      refine .part k' n _ hpart' hlt hroot hn ((hkeep _ [] rfl).1 _ _ hsection) ?_
        (hbase'.trans hbase) fun addr haddr => ?_
      · rw [List.getElem?_modify_eq, hsubpage]
        rfl
      rw [hsub']
      by_cases hcovers : p.Covers addr
      · obtain ⟨hle, hlt'⟩ := hcovers
        rw [if_pos (by omega)]
        exact .inr ⟨p, mem_cons_self, ⟨hle, hlt'⟩, List.getElem?_concat_length⟩
      rw [if_neg (fun hin => hcovers ⟨by omega, by omega⟩)]
      refine (hserves addr haddr).mono (hkeep _ _ rfl) (fun q hq => mem_cons_of_mem p hq)
        fun q hq => ?_
      rcases mem_cons.mp hq with rfl | hq
      · exact .inr hcovers
      · exact .inl hq
    · refine (h₁.page page hpage).mono h₁.piece (hkeep _ _ rfl) rfl (fun j subpage' hj hbase'' => ?_)
        Iff.rfl (fun q hq => mem_cons_of_mem p hq) fun q hq => ?_
      · -- the subpage of another page is another one
        rw [List.getElem?_modify_ne, hj]
        rintro rfl
        rw [hsubpage] at hj
        cases hj
        omega
      · rcases mem_cons.mp hq with rfl | hq
        · exact .inr fun addr haddr hcovers => hhere (haddr ▸ part_covers hp hpart hcovers)
        · exact .inl hq
end

end QemuVmi.Exec
