import QemuVmi.Lib.SortedRanges

/-!
# Memory regions and flat views

The part of `memory.c` that turns a hierarchy of memory regions into a flat view:
`render_memory_region`, `flatview_simplify` and `generate_memory_topology`.

A region is known by its address, `Rid`, and the hierarchy is a map from addresses to
regions. An `Int128` is an integer here: a base moves by less than `2^66` for each
region on the path from the root, so it takes more regions than fit into memory to
leave 128 bits. A `hwaddr` is 64 bits wide and wraps around. The array of a view is a
list. `none` stands for a failed assertion, and for a recursion that does not end.
-/

namespace QemuVmi.Memory

open SortedRanges

abbrev HwAddr := BitVec 64

/-- A `MemoryRegion *`. -/
abbrev Rid := Nat

/-- `MemoryRegion`, without what the topology does not depend on. -/
structure MemoryRegion where
  size : Nat
  addr : HwAddr
  enabled : Bool
  terminates : Bool
  romdMode : Bool
  readonly : Bool
  dirtyLogMask : BitVec 8
  aliasMr : Option Rid
  aliasOffset : HwAddr
  parent : Option Rid
  priority : Int
  mayOverlap : Bool
  subregions : List Rid
deriving DecidableEq, Repr

def memoryRegionInit (size : BitVec 64) : MemoryRegion :=
  { size := if size = BitVec.allOnes 64 then 2 ^ 64 else size.toNat
    addr := 0#64
    enabled := true
    terminates := false
    romdMode := true
    readonly := false
    dirtyLogMask := 0#8
    aliasMr := none
    aliasOffset := 0#64
    parent := none
    priority := 0
    mayOverlap := false
    subregions := [] }

abbrev Regions := Rid → MemoryRegion

def int128Make64 (a : HwAddr) : Int := a.toNat

def int128Get64 (a : Int) : Option HwAddr :=
  if 0 ≤ a ∧ a < 2 ^ 64 then some (BitVec.ofInt 64 a) else none

structure AddrRange where
  start : Int
  size : Int
deriving DecidableEq, Repr

/-- `addrrange_end`. -/
def AddrRange.endAddr (r : AddrRange) : Int := r.start + r.size

/-- `addrrange_contains`. -/
def AddrRange.contains (r : AddrRange) (addr : Int) : Bool :=
  decide (r.start ≤ addr) && decide (addr < r.endAddr)

/-- `addrrange_intersects`. -/
def AddrRange.intersects (r1 r2 : AddrRange) : Bool := r1.contains r2.start || r2.contains r1.start

/-- `addrrange_intersection`. -/
def AddrRange.intersection (r1 r2 : AddrRange) : AddrRange :=
  let start := max r1.start r2.start
  ⟨start, min r1.endAddr r2.endAddr - start⟩

structure FlatRange where
  mr : Rid
  offsetInRegion : HwAddr
  addr : AddrRange
  dirtyLogMask : BitVec 8
  romdMode : Bool
  readonly : Bool
deriving DecidableEq, Repr

def flatrangeEqual (a b : FlatRange) : Bool :=
  a.mr == b.mr && a.addr == b.addr && a.offsetInRegion == b.offsetInRegion &&
    a.romdMode == b.romdMode && a.readonly == b.readonly

/-- The ranges of a `FlatView`. -/
abbrev FlatView := List FlatRange

def canMerge (r1 r2 : FlatRange) : Bool :=
  r1.addr.endAddr == r2.addr.start && r1.mr == r2.mr &&
    int128Make64 r1.offsetInRegion + r1.addr.size == int128Make64 r2.offsetInRegion &&
    r1.dirtyLogMask == r2.dirtyLogMask && r1.romdMode == r2.romdMode && r1.readonly == r2.readonly

/-- The loops of `flatview_simplify` from the range `i` on. `first` is that range with
what has been merged into it, and `prev` is the range before the rest, as it was. -/
def mergeRanges (first prev : FlatRange) : FlatView → FlatView
  | [] => [first]
  | r :: rs =>
      if canMerge prev r then
        mergeRanges { first with addr := ⟨first.addr.start, first.addr.size + r.addr.size⟩ } r rs
      else first :: mergeRanges r r rs

def flatviewSimplify : FlatView → FlatView
  | [] => []
  | r :: rs => mergeRanges r r rs

/-- The locals `base`, `remain` and `offset_in_region` of `render_memory_region`. -/
structure Cursor where
  base : Int
  remain : Int
  offset : HwAddr

/-- `base += now; offset_in_region += now; remain -= now`. -/
def Cursor.advance (c : Cursor) (now : Int) : Option Cursor :=
  (int128Get64 now).map fun n => ⟨c.base + now, c.remain - now, c.offset + n⟩

def Cursor.piece (c : Cursor) (fr : FlatRange) (now : Int) : FlatRange :=
  { fr with offsetInRegion := c.offset, addr := ⟨c.base, now⟩ }

/-- Past the range `r`, which obscures the region. -/
def Cursor.skip (c : Cursor) (r : FlatRange) : Option Cursor :=
  c.advance (min (c.base + c.remain) r.addr.endAddr - c.base)

/-- The loop of `render_memory_region` over the ranges from `i` on, and the rest of the
region behind them. -/
def fillGaps (fr : FlatRange) : FlatView → Cursor → Option FlatView
  | [], c => some (if c.remain ≠ 0 then [c.piece fr c.remain] else [])
  | r :: rs, c =>
      if c.remain = 0 then some (r :: rs)
      else if r.addr.endAddr ≤ c.base then (fillGaps fr rs c).map (r :: ·)
      else if c.base < r.addr.start then
        let now := min c.remain (r.addr.start - c.base)
        (c.advance now).bind fun c' => (c'.skip r).bind fun c'' =>
          (fillGaps fr rs c'').map fun out => c.piece fr now :: r :: out
      else (c.skip r).bind fun c' => (fillGaps fr rs c').map (r :: ·)

/-- The end of `render_memory_region`: the region itself. -/
def renderSelf (mr : Rid) (m : MemoryRegion) (view : FlatView) (base : Int) (clip : AddrRange)
    (readonly : Bool) : Option FlatView :=
  (int128Get64 (clip.start - base)).bind fun offset =>
    fillGaps ⟨mr, 0#64, ⟨0, 0⟩, m.dirtyLogMask, m.romdMode, readonly⟩ view
      ⟨clip.start, clip.size, offset⟩

def renderMemoryRegion (regions : Regions) :
    Nat → FlatView → Rid → Int → AddrRange → Bool → Option FlatView
  | 0, _, _, _, _, _ => none
  | fuel + 1, view, mr, base, clip, readonly =>
      let m := regions mr
      if !m.enabled then some view
      else
        let base := base + int128Make64 m.addr
        let readonly := readonly || m.readonly
        let tmp : AddrRange := ⟨base, m.size⟩
        if !tmp.intersects clip then some view
        else
          let clip := tmp.intersection clip
          match m.aliasMr with
          | some a =>
            let base := base - int128Make64 (regions a).addr - int128Make64 m.aliasOffset
            renderMemoryRegion regions fuel view a base clip readonly
          | none =>
            (m.subregions.foldlM
              (fun view sub => renderMemoryRegion regions fuel view sub base clip readonly)
              view).bind fun view =>
              if !m.terminates then some view else renderSelf mr m view base clip readonly

def generateMemoryTopology (regions : Regions) (fuel : Nat) (mr : Option Rid) : Option FlatView :=
  let view := match mr with
    | none => some []
    | some mr => renderMemoryRegion regions fuel [] mr 0 ⟨0, 2 ^ 64⟩ false
  view.map flatviewSimplify

end QemuVmi.Memory
