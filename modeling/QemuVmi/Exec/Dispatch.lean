import QemuVmi.Exec.PhysMap
import QemuVmi.Lib.OptionFold
import QemuVmi.Memory.TopologyUpdate

/-!
# The dispatch map of an address space

The listener of `exec.c` that makes the dispatch map from the sections of a flat view:
`mem_begin`, `mem_add` and `mem_commit`. `address_space_lookup_region` looks up an address in
the map.

An `hwaddr` is a number below `2^64`, as in the other modules for `exec.c`. A section has a size of
at most `2^64`. A subpage is known by its place in a list. The arrays are lists, so that their
growth is left out, and so is the map of the last update, which `mem_commit` frees. `none` stands
for a failed assertion.

`mem_add` splits a section at the borders of pages (`memAdd_eq`): the part of a page in front and
the part of a page at the end become sections of subpages, and the pages in between become one
section of the map.
-/

namespace QemuVmi.Exec

open List

/-- A `MemoryRegion *`: one of the hierarchy, one of `io_mem_init`, or the one of a subpage. -/
inductive Mr
  | region (mr : Memory.Rid)
  | ioMemUnassigned
  | ioMemNotdirty
  | ioMemRom
  | ioMemWatch
  | subpage (n : Nat)
deriving DecidableEq, Repr

structure MemoryRegionSection where
  mr : Mr
  offsetWithinRegion : Nat
  size : Nat
  offsetWithinAddressSpace : Nat
deriving DecidableEq, Repr

def ofListener (sec : Memory.MemoryRegionSection) : MemoryRegionSection :=
  ⟨.region sec.mr, sec.offsetWithinRegion.toNat, sec.size.toNat, sec.offsetWithinAddressSpace.toNat⟩

/-- `subpage_t`. -/
structure Subpage where
  base : Nat
  subSection : Nat → Nat

structure AddressSpaceDispatch where
  map : PhysMap
  sections : List MemoryRegionSection
  subpages : List Subpage

/-- `int128_get64`, for a number that is not negative. -/
def int128Get64 (a : Nat) : Option Nat := if a < 2 ^ 64 then some a else none

def rangeCoversByte (offset len byte : Nat) : Prop :=
  offset ≤ byte ∧ byte ≤ (offset + len + 2 ^ 64 - 1) % 2 ^ 64

instance (offset len byte : Nat) : Decidable (rangeCoversByte offset len byte) :=
  inferInstanceAs (Decidable (_ ∧ _))

section
variable (d : AddressSpaceDispatch)

/-- `phys_page_find`. The size of a section has a bit in `size.hi` if it is `2^64`. -/
def physPageFind (addr : Nat) : Option MemoryRegionSection :=
  (physPageWalk d.map.root (addr / targetPageSize)).bind fun
    | none => d.sections[physSectionUnassigned]?
    | some n => d.sections[n]?.bind fun sec =>
        if sec.size ≥ 2 ^ 64 ∨ rangeCoversByte sec.offsetWithinAddressSpace sec.size addr then some sec
        else d.sections[physSectionUnassigned]?

def addressSpaceLookupRegion (addr : Nat) (resolveSubpage : Bool) :
    Option MemoryRegionSection :=
  (physPageFind d addr).bind fun sec =>
    match resolveSubpage, sec.mr with
    | true, .subpage n => d.subpages[n]?.bind fun subpage =>
        d.sections[subpage.subSection (addr % targetPageSize)]?
    | _, _ => some sec

section
variable (sec : MemoryRegionSection) (d : AddressSpaceDispatch)

def physSectionAdd :
    Option (Nat × AddressSpaceDispatch) :=
  if d.sections.length < targetPageSize then
    some (d.sections.length, { d with sections := d.sections ++ [sec] })
  else none

/-- `phys_page_set` on a dispatch map. -/
def AddressSpaceDispatch.physPageSet (index nb leaf : Nat) (d : AddressSpaceDispatch) :
    Option AddressSpaceDispatch :=
  (Exec.physPageSet index nb leaf d.map).map fun map => { d with map := map }

/-- `subpage_register`. The result that says that the bounds are wrong is not used. -/
def subpageRegister (start last sec : Nat) (subpage : Subpage) : Subpage :=
  if start ≥ targetPageSize ∨ last ≥ targetPageSize then subpage
  else
    { subpage with subSection := fun i =>
        if start ≤ i ∧ i ≤ last then sec else subpage.subSection i }

def subpageInit (base : Nat) : Subpage :=
  subpageRegister 0 (targetPageSize - 1) physSectionUnassigned ⟨base, fun _ => 0⟩

/-- The section for a subpage in `register_subpage`. -/
def subpageSection (n base : Nat) : MemoryRegionSection := ⟨.subpage n, 0, targetPageSize, base⟩

/-- The subpage of `register_subpage`: the one that is there, or a new one. -/
def findSubpage (base : Nat) (d : AddressSpaceDispatch) : Option (Nat × AddressSpaceDispatch) :=
  (physPageFind d base).bind fun existing =>
    match existing.mr with
    | .subpage n => some (n, d)
    | .ioMemUnassigned => do
        let n := d.subpages.length
        let d := { d with subpages := d.subpages ++ [subpageInit base] }
        let (leaf, d) ← physSectionAdd (subpageSection n base) d
        let d ← d.physPageSet (base / targetPageSize) 1 leaf
        return (n, d)
    | _ => none

def registerSubpage :
    Option AddressSpaceDispatch := do
  let base := sec.offsetWithinAddressSpace / targetPageSize * targetPageSize
  let (n, d) ← findSubpage base d
  let start := sec.offsetWithinAddressSpace % targetPageSize
  let size ← int128Get64 sec.size
  let last := (start + size + 2 ^ 64 - 1) % 2 ^ 64
  let (number, d) ← physSectionAdd sec d
  -- the bounds are passed as numbers of 32 bits
  return { d with
    subpages := d.subpages.modify n (subpageRegister (start % 2 ^ 32) (last % 2 ^ 32) number) }

def registerMultipage :
    Option AddressSpaceDispatch := do
  let (number, d) ← physSectionAdd sec d
  let numPages ← int128Get64 (sec.size / targetPageSize)
  if numPages = 0 then none
  else d.physPageSet (sec.offsetWithinAddressSpace / targetPageSize) numPages number

/-- What is left of a section behind its first `n` bytes. -/
def MemoryRegionSection.advance (n : Nat) : MemoryRegionSection :=
  { sec with
    offsetWithinRegion := (sec.offsetWithinRegion + n) % 2 ^ 64
    size := sec.size - n
    offsetWithinAddressSpace := (sec.offsetWithinAddressSpace + n) % 2 ^ 64 }

/-- The loop of `mem_add`. -/
def memAddLoop : Nat → MemoryRegionSection → MemoryRegionSection → AddressSpaceDispatch →
    Option AddressSpaceDispatch
  | 0, now, remain, d => if remain.size = now.size then some d else none
  | fuel + 1, now, remain, d =>
      if remain.size = now.size then some d
      else
        (int128Get64 now.size).bind fun n =>
          let remain := remain.advance n
          if remain.size < targetPageSize then
            (registerSubpage remain d).bind (memAddLoop fuel remain remain)
          else if remain.offsetWithinAddressSpace % targetPageSize ≠ 0 then
            let now := { remain with size := targetPageSize }
            (registerSubpage now d).bind (memAddLoop fuel now remain)
          else
            let now := { remain with size := remain.size / targetPageSize * targetPageSize }
            (registerMultipage now d).bind (memAddLoop fuel now remain)

/-- `mem_add`, which is both `region_add` and `region_nop`. Each turn of the loop but the first one
takes something away from what remains. -/
def memAdd : Option AddressSpaceDispatch :=
  if sec.offsetWithinAddressSpace % targetPageSize ≠ 0 then
    let left := (targetPageAlign sec.offsetWithinAddressSpace + 2 ^ 64 -
      sec.offsetWithinAddressSpace) % 2 ^ 64
    let now := { sec with size := min left sec.size }
    (registerSubpage now d).bind (memAddLoop (sec.size + 1) now sec)
  else memAddLoop (sec.size + 1) { sec with size := 0 } sec d
end

def dummySection (mr : Mr) (d : AddressSpaceDispatch) : Option (Nat × AddressSpaceDispatch) :=
  physSectionAdd ⟨mr, 0, 2 ^ 64, 0⟩ d

def memBegin : Option AddressSpaceDispatch := do
  let (n, d) ← dummySection .ioMemUnassigned ⟨⟨.empty, 0, 0⟩, [], []⟩
  if n ≠ physSectionUnassigned then none
  let (n, d) ← dummySection .ioMemNotdirty d
  if n ≠ 1 then none
  let (n, d) ← dummySection .ioMemRom d
  if n ≠ 2 then none
  let (n, d) ← dummySection .ioMemWatch d
  if n ≠ 3 then none
  return d

def memCommit : AddressSpaceDispatch :=
  { d with map := physPageCompactAll d.map }

/-- The callbacks of the listener, but for `begin` and `commit`. -/
def dispatchEvent (event : Memory.Event) : Option AddressSpaceDispatch :=
  match event.callback with
  | .regionAdd | .regionNop => memAdd (ofListener event.sec) d
  | _ => some d
end

/-- `mem_begin`, and `mem_add` for each range of a view of the address space `as`. -/
def addView (as : Memory.AsId) (view : Memory.FlatView) : Option AddressSpaceDispatch :=
  memBegin.bind fun d => view.foldlM (fun d fr => memAdd (ofListener (fr.toSection as)) d) d

def pageUp (addr : Nat) : Nat := (addr + (targetPageSize - 1)) / targetPageSize * targetPageSize

def pageDown (addr : Nat) : Nat := addr / targetPageSize * targetPageSize

namespace MemoryRegionSection

section
variable (sec : MemoryRegionSection)

abbrev start : Nat := sec.offsetWithinAddressSpace

def stop : Nat := sec.start + sec.size

/-- The part of a section from `lo` to `hi`. -/
def restrict (lo hi : Nat) : MemoryRegionSection :=
  { sec with
    offsetWithinRegion := (sec.offsetWithinRegion + (lo - sec.start)) % 2 ^ 64
    size := hi - lo
    offsetWithinAddressSpace := lo }

def Full : Prop :=
  sec.start % targetPageSize = 0 ∧ sec.size % targetPageSize = 0

instance (sec : MemoryRegionSection) : Decidable sec.Full := inferInstanceAs (Decidable (_ ∧ _))

/-- The pages from `lo` on, and the part of a page behind them. -/
def piecesFrom (lo : Nat) : List MemoryRegionSection :=
  [sec.restrict lo (pageDown sec.stop), sec.restrict (max lo (pageDown sec.stop)) sec.stop].filter
    (0 < ·.size)

/-- What `mem_add` makes of a section: the part of a page in front, the pages, and the part of a
page behind them, as far as there are such. -/
def pieces : List MemoryRegionSection :=
  let lo := min (pageUp sec.start) sec.stop
  [sec.restrict sec.start lo].filter (0 < ·.size) ++ sec.piecesFrom lo
end

structure Valid (sec : MemoryRegionSection) : Prop where
  pos : 0 < sec.size
  stop_le : sec.stop ≤ 2 ^ 64
  offset_lt : sec.offsetWithinRegion < 2 ^ 64

end MemoryRegionSection

/-- `register_multipage` or `register_subpage`. -/
def registerPiece (d : AddressSpaceDispatch) (p : MemoryRegionSection) : Option AddressSpaceDispatch :=
  if p.Full then registerMultipage p d else registerSubpage p d

section
variable {sec : MemoryRegionSection} {lo hi fuel : Nat} {d : AddressSpaceDispatch}

lemma restrict_advance {n : Nat} (hlo : sec.start ≤ lo) (hlt : lo + n < 2 ^ 64) :
    (sec.restrict lo hi).advance n = sec.restrict (lo + n) hi := by
  simp only [MemoryRegionSection.advance, MemoryRegionSection.restrict, MemoryRegionSection.mk.injEq,
    true_and]
  refine ⟨?_, ?_, ?_⟩ <;> omega

lemma resize_eq (h : sec.Valid) (x : Nat) :
    { sec with size := x } = sec.restrict sec.start (sec.start + x) := by
  simp only [MemoryRegionSection.restrict, Nat.sub_self, Nat.add_zero, Nat.mod_eq_of_lt h.offset_lt,
    Nat.add_sub_cancel_left]

lemma restrict_self (h : sec.Valid) : sec.restrict sec.start sec.stop = sec :=
  (resize_eq h sec.size).symm

lemma restrict_size (x : Nat) :
    { sec.restrict lo hi with size := x } = sec.restrict lo (lo + x) := by
  simp only [MemoryRegionSection.restrict, Nat.add_sub_cancel_left]

lemma pageDown_eq (addr : Nat) : pageDown addr = addr / 4096 * 4096 := rfl

lemma pageUp_eq (addr : Nat) : pageUp addr = (addr + 4095) / 4096 * 4096 := rfl

lemma full_restrict : (sec.restrict lo hi).Full ↔ lo % 4096 = 0 ∧ (hi - lo) % 4096 = 0 := Iff.rfl

lemma piecesFrom_stop : sec.piecesFrom sec.stop = [] := by
  have hdown := pageDown_eq sec.stop
  rw [MemoryRegionSection.piecesFrom, max_eq_left (by omega), filter_eq_nil_iff]
  simp only [mem_cons, not_mem_nil, or_false, forall_eq_or_imp, forall_eq,
    MemoryRegionSection.restrict, decide_eq_true_eq]
  omega

lemma piecesFrom_part (hlo : lo % 4096 = 0) (hlt : lo < sec.stop) (hpart : sec.stop - lo < 4096) :
    sec.piecesFrom lo = [sec.restrict lo sec.stop] := by
  have hdown : pageDown sec.stop = lo := by
    rw [pageDown_eq]
    omega
  rw [MemoryRegionSection.piecesFrom, hdown, max_self, filter_cons_of_neg, filter_cons_of_pos]
  · rfl
  · exact decide_eq_true (Nat.sub_pos_of_lt hlt)
  · simp [MemoryRegionSection.restrict]

lemma piecesFrom_full (hlo : lo % 4096 = 0) (hfull : 4096 ≤ sec.stop - lo) : sec.piecesFrom lo =
      sec.restrict lo (pageDown sec.stop) :: sec.piecesFrom (pageDown sec.stop) := by
  have hdown := pageDown_eq sec.stop
  have hpos : decide (0 < (sec.restrict lo (pageDown sec.stop)).size) = true := by
    refine decide_eq_true (Nat.sub_pos_of_lt ?_)
    omega
  rw [MemoryRegionSection.piecesFrom, MemoryRegionSection.piecesFrom, max_self,
    max_eq_right (by omega), filter_cons_of_pos (by exact hpos)]
  refine congrArg _ (filter_cons_of_neg ?_).symm
  simp [MemoryRegionSection.restrict]

lemma memAddLoop_done {now remain : MemoryRegionSection} (h : remain.size = now.size) :
    memAddLoop fuel now remain d = some d := by
  cases fuel with
  | zero | succ fuel => rw [memAddLoop, if_pos h]

variable (hsec : sec.Valid) (hlo : sec.start ≤ lo) (hle : lo ≤ hi)

include hsec hlo hle in
lemma memAddLoop_step (hlt : hi < sec.stop) :
    memAddLoop (fuel + 1) (sec.restrict lo hi) (sec.restrict lo sec.stop) d =
      if sec.stop - hi < 4096 then
        (registerSubpage (sec.restrict hi sec.stop) d).bind
          (memAddLoop fuel (sec.restrict hi sec.stop) (sec.restrict hi sec.stop))
      else if hi % 4096 ≠ 0 then
        (registerSubpage (sec.restrict hi (hi + 4096)) d).bind
          (memAddLoop fuel (sec.restrict hi (hi + 4096)) (sec.restrict hi sec.stop))
      else
        (registerMultipage (sec.restrict hi (hi + (sec.stop - hi) / 4096 * 4096)) d).bind
          (memAddLoop fuel (sec.restrict hi (hi + (sec.stop - hi) / 4096 * 4096))
            (sec.restrict hi sec.stop)) := by
  have hstop := hsec.stop_le
  have hsize : (sec.restrict lo hi).size = hi - lo := rfl
  have hadvance : (sec.restrict lo sec.stop).advance (hi - lo) = sec.restrict hi sec.stop := by
    rw [restrict_advance hlo (by omega), Nat.add_sub_cancel' hle]
  have hnow : ∀ x, sec.restrict hi (hi + x) = { sec.restrict hi sec.stop with size := x } :=
    fun x => (restrict_size x).symm
  have hmore : (sec.restrict lo sec.stop).size ≠ (sec.restrict lo hi).size := by
    simp only [MemoryRegionSection.restrict]
    omega
  rw [memAddLoop, if_neg hmore, int128Get64, hsize, if_pos (by omega), Option.bind_some, hadvance,
    hnow, hnow]
  rfl

include hsec hlo hle in
lemma memAddLoop_part
    (hhi : hi ≤ sec.stop) (haligned : hi % 4096 = 0) (hpart : sec.stop - hi < 4096) :
    memAddLoop (fuel + 1) (sec.restrict lo hi) (sec.restrict lo sec.stop) d =
      (sec.piecesFrom hi).foldlM registerPiece d := by
  rcases hhi.eq_or_lt with rfl | hlt
  · rw [memAddLoop_done rfl, piecesFrom_stop]
    rfl
  · rw [memAddLoop_step hsec hlo hle hlt, if_pos hpart, piecesFrom_part haligned hlt hpart,
      foldlM_cons, registerPiece, if_neg (by rw [full_restrict]; omega)]
    exact congrArg _ (funext fun d => memAddLoop_done rfl)

include hsec hlo hle in
lemma memAddLoop_eq (hhi : hi ≤ sec.stop) (haligned : hi % 4096 = 0 ∨ hi = sec.stop) :
    memAddLoop (fuel + 2) (sec.restrict lo hi) (sec.restrict lo sec.stop) d =
      (sec.piecesFrom hi).foldlM registerPiece d := by
  rcases hhi.eq_or_lt with rfl | hlt
  · rw [memAddLoop_done rfl, piecesFrom_stop]
    rfl
  have haligned : hi % 4096 = 0 := haligned.resolve_right hlt.ne
  by_cases hpart : sec.stop - hi < 4096
  · exact memAddLoop_part hsec hlo hle hhi haligned hpart
  have hdown' := pageDown_eq sec.stop
  have hdown : hi + (sec.stop - hi) / 4096 * 4096 = pageDown sec.stop := by omega
  rw [memAddLoop_step hsec hlo hle hlt, if_neg hpart, if_neg (not_not_intro haligned), hdown,
    piecesFrom_full haligned (Nat.not_lt.mp hpart), foldlM_cons, registerPiece,
    if_pos (by rw [full_restrict]; omega)]
  refine congrArg _ (funext fun d => ?_)
  exact memAddLoop_part hsec (hlo.trans hle) (by omega) (by omega) (by omega) (by omega)

/-- `mem_add` registers the pieces of a section. -/
lemma memAdd_eq (hsec : sec.Valid) : memAdd sec d = sec.pieces.foldlM registerPiece d := by
  have hup := pageUp_eq sec.start
  have hpos := hsec.pos
  have hle := hsec.stop_le
  have hstop : sec.stop = sec.start + sec.size := rfl
  obtain ⟨fuel, hfuel⟩ := Nat.exists_eq_add_of_le hpos
  have hloop : ∀ d, memAddLoop (sec.size + 1) (sec.restrict sec.start (min (pageUp sec.start) sec.stop))
      sec d = (sec.piecesFrom (min (pageUp sec.start) sec.stop)).foldlM registerPiece d := by
    intro d
    have hrest := @memAddLoop_eq sec sec.start (min (pageUp sec.start) sec.stop) fuel d hsec le_rfl
      (by omega) (by omega) (by omega)
    rwa [restrict_self hsec, show fuel + 2 = sec.size + 1 by omega] at hrest
  rw [memAdd, MemoryRegionSection.pieces]
  split
  · next hunaligned =>
    have hunaligned : sec.start % 4096 ≠ 0 := hunaligned
    -- in the last page the end of the page wraps around to zero
    have hleft : (targetPageAlign sec.start + 2 ^ 64 - sec.start) % 2 ^ 64 =
        pageUp sec.start - sec.start := by
      have halign : targetPageAlign sec.start = (sec.start + 4095) % 2 ^ 64 / 4096 * 4096 := rfl
      rw [halign, hup]
      omega
    have hnow : sec.start + min (pageUp sec.start - sec.start) sec.size =
        min (pageUp sec.start) sec.stop := by omega
    have hsome : 0 < (sec.restrict sec.start (min (pageUp sec.start) sec.stop)).size := by
      refine Nat.sub_pos_of_lt ?_
      omega
    rw [hleft]
    dsimp only
    rw [resize_eq hsec, hnow, filter_cons_of_pos (by exact decide_eq_true hsome), filter_nil,
      cons_append, nil_append, foldlM_cons, registerPiece,
      if_neg (by rw [full_restrict]; omega)]
    exact congrArg _ (funext hloop)
  · next haligned =>
    have haligned : sec.start % 4096 = 0 := not_not.mp haligned
    have hhead : min (pageUp sec.start) sec.stop = sec.start := by omega
    have hloop := hloop d
    rw [hhead] at hloop ⊢
    rw [filter_cons_of_neg (by simp [MemoryRegionSection.restrict]), filter_nil,
      nil_append, ← hloop, resize_eq hsec]
    rfl
end

end QemuVmi.Exec
