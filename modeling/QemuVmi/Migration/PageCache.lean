import QemuVmi.Lib.UpdateSum
import QemuVmi.Migration.RamSave

/-!
# The page cache of the xbzrle encoder

`page_cache.c`: a table of pages by address, without chaining. A page goes to the slot
that its address hashes to and replaces what is there; a resize moves all pages to a
table of another size and keeps, of those that meet in one slot, the one of the largest
age. Every allocation may fail, which is an input here.

Results, over all sequences of `cache_insert` and `cache_resize`:
1. `page_cache_correct`: the table is what it should be, as long as no page has the
   address `-1`.
2. `page_cache_loses_marker_address`: `-1` marks a slot without a page, and a page of that
   address is lost at the next resize.
3. `view_inserts`: the cache of `RamSave`, which counts in pages, is this one.
-/

namespace QemuVmi.Migration.XbzrleCache

open Function

abbrev Page (pageSize : Nat) := Vector (BitVec 8) pageSize

structure CacheItem (pageSize : Nat) where
  itAddr : BitVec 64
  itAge : BitVec 64
  itData : Option (Page pageSize)
deriving DecidableEq

/-- `page_size` does not change and is a parameter. -/
structure PageCache (pageSize : Nat) where
  pageCache : Nat → CacheItem pageSize
  maxNumItems : BitVec 64
  maxItemAge : BitVec 64
  numItems : Nat

variable {pageSize : Nat}

def isPowerOf2 (value : BitVec 64) : Bool :=
  if value = 0#64 then false else value &&& (value - 1#64) = 0#64

/-- `pow2floor`. For 0 the shift is by 64 and is not defined in C; the result is never the
size of a cache. -/
def pow2floor (value : BitVec 64) : BitVec 64 :=
  if isPowerOf2 value then value else 0x8000000000000000#64 >>> value.clz

def CacheItem.empty : CacheItem pageSize := { itAddr := -1, itAge := 0, itData := none }

/-- `cache_init`; `alloc` says whether the allocations succeed. -/
def cacheInit (numPages : BitVec 64) (alloc : Bool) : Option (PageCache pageSize) :=
  if numPages.sle 0#64 then none
  else if alloc then
    some
      { pageCache := fun _ => .empty
        maxNumItems := if isPowerOf2 numPages then numPages else pow2floor numPages
        maxItemAge := 0
        numItems := 0 }
  else none

namespace PageCache

section
variable (cache : PageCache pageSize)

def cacheGetCachePos (address : BitVec 64) : Nat :=
  (address.toNat / pageSize) &&& (cache.maxNumItems.toNat - 1)

section
variable (addr : BitVec 64)

def cacheGetByAddr : CacheItem pageSize :=
  cache.pageCache (cache.cacheGetCachePos addr)

def set (it : CacheItem pageSize) :
    PageCache pageSize :=
  { cache with pageCache := update cache.pageCache (cache.cacheGetCachePos addr) it }

/-- `cache_insert`: its result and the cache. -/
def cacheInsert (pdata : Page pageSize)
    (alloc : Bool) : Int × PageCache pageSize :=
  let store (numItems : Nat) :=
    { cache.set addr { itAddr := addr, itAge := cache.maxItemAge + 1, itData := some pdata } with
      maxItemAge := cache.maxItemAge + 1, numItems := numItems }
  match (cache.cacheGetByAddr addr).itData with
  | some _ => (0, store cache.numItems)
  | none => if alloc then (0, store (cache.numItems + 1)) else (-1, cache)
end

/-- One iteration of the loop that moves all data from the old cache. -/
def moveItem (newCache : PageCache pageSize) (oldIt : CacheItem pageSize) : PageCache pageSize :=
  if oldIt.itAddr ≠ -1 then
    let newIt := newCache.cacheGetByAddr oldIt.itAddr
    if newIt.itData.isSome ∧ newIt.itAge ≥ oldIt.itAge then newCache
    else
      { newCache.set oldIt.itAddr oldIt with
        numItems := if newIt.itData.isSome then newCache.numItems else newCache.numItems + 1 }
  else newCache

/-- The loop over the first `n` slots of the old cache. -/
def moveItems (newCache : PageCache pageSize) (pageCache : Nat → CacheItem pageSize) (n : Nat) :
    PageCache pageSize :=
  (List.range n).foldl (fun newCache i => newCache.moveItem (pageCache i)) newCache

/-- `cache_resize`: its result and the cache. -/
def cacheResize (newNumPages : BitVec 64) (alloc : Bool) :
    Int × PageCache pageSize :=
  if pow2floor newNumPages = cache.maxNumItems then (cache.maxNumItems.toInt, cache)
  else
    match cacheInit newNumPages alloc with
    | none => (-1, cache)
    | some newCache =>
      let newCache := newCache.moveItems cache.pageCache cache.maxNumItems.toNat
      (newCache.maxNumItems.toInt,
        { cache with
          pageCache := newCache.pageCache
          maxNumItems := newCache.maxNumItems
          numItems := newCache.numItems })
end

end PageCache

inductive Call (pageSize : Nat)
  | insert (addr : BitVec 64) (pdata : Page pageSize) (alloc : Bool)
  | resize (newNumPages : BitVec 64) (alloc : Bool)

def PageCache.call (cache : PageCache pageSize) : Call pageSize → Int × PageCache pageSize
  | .insert addr pdata alloc => cache.cacheInsert addr pdata alloc
  | .resize newNumPages alloc => cache.cacheResize newNumPages alloc

def PageCache.run (cache : PageCache pageSize) (calls : List (Call pageSize)) :
    PageCache pageSize :=
  calls.foldl (fun cache call => (cache.call call).2) cache

def lastInsert (addr : BitVec 64) (calls : List (Call pageSize)) : Option (Page pageSize) :=
  calls.foldl (fun last call =>
    match call with
    | .insert addr' pdata _ => if addr' = addr then some pdata else last
    | .resize _ _ => last) none

variable {cache : PageCache pageSize} {addr numPages : BitVec 64}

namespace PageCache

/-- Slot `i` holds a page. -/
def Holds (cache : PageCache pageSize) (i : Nat) : Prop :=
  i < cache.maxNumItems.toNat ∧ (cache.pageCache i).itData.isSome

def slotsWithData (cache : PageCache pageSize) : Nat :=
  ((Finset.range cache.maxNumItems.toNat).filter fun i => (cache.pageCache i).itData.isSome).card

/-- Slot `pos` of the new cache holds, of the pages in some slots of the old one that hash
to it, one of the largest age, and no page if there are none. -/
def MostRecent (items : Nat → CacheItem pageSize) (slots : Nat → Prop) (new : PageCache pageSize)
    (pos : Nat) : Prop :=
  (new.pageCache pos = .empty ∧ ∀ i, slots i → new.cacheGetCachePos (items i).itAddr ≠ pos) ∨
  ∃ i, slots i ∧ new.cacheGetCachePos (items i).itAddr = pos ∧ new.pageCache pos = items i ∧
    ∀ j, slots j → new.cacheGetCachePos (items j).itAddr = pos → (items j).itAge ≤ (items i).itAge

lemma cacheGetCachePos_lt (hmax : cache.maxNumItems ≠ 0)
    (addr : BitVec 64) : cache.cacheGetCachePos addr < cache.maxNumItems.toNat := by
  have hpos : cache.maxNumItems.toNat ≠ 0 := fun h => hmax (BitVec.eq_of_toNat_eq h)
  exact Nat.and_le_right.trans_lt (Nat.sub_one_lt hpos)

def weight (it : CacheItem pageSize) : Nat := if it.itData.isSome then 1 else 0

lemma slotsWithData_eq_sum (cache : PageCache pageSize) :
    cache.slotsWithData = ∑ i ∈ Finset.range cache.maxNumItems.toNat, weight (cache.pageCache i) :=
  Finset.card_filter _ _

lemma slotsWithData_set (hmax : cache.maxNumItems ≠ 0)
    {it : CacheItem pageSize} (hit : it.itData.isSome) :
    (cache.set addr it).slotsWithData =
      if (cache.cacheGetByAddr addr).itData.isSome then cache.slotsWithData
      else cache.slotsWithData + 1 := by
  have hsum : (cache.set addr it).slotsWithData + weight (cache.cacheGetByAddr addr) =
      cache.slotsWithData + weight it := by
    rw [slotsWithData_eq_sum, slotsWithData_eq_sum]
    exact UpdateSum.sum_update_add (cacheGetCachePos_lt hmax addr) cache.pageCache it weight
  rw [weight, weight, if_pos hit] at hsum
  split
  case isTrue hsome =>
    rw [if_pos hsome] at hsum
    exact add_right_cancel hsum
  case isFalse hnone =>
    rwa [if_neg hnone] at hsum

end PageCache

lemma shifted_bit : ∀ n < 64,
    0x8000000000000000#64 >>> n ≠ 0#64 ∧ 0x8000000000000000#64 >>> n ≠ (-1 : BitVec 64) := by
  decide

lemma pow2floor_spec {value : BitVec 64} (hpos : ¬ value.sle 0#64) :
    pow2floor value ≠ 0 ∧ pow2floor value ≠ -1 := by
  have hne : value ≠ 0#64 := fun h => hpos (by rw [h]; decide)
  unfold pow2floor
  split
  case isTrue => exact ⟨hne, fun h => hpos (by rw [h]; decide)⟩
  case isFalse =>
    have hclz : value.clz.toNat < 64 := BitVec.clz_lt_iff_ne_zero.mpr hne
    exact shifted_bit _ hclz

variable {alloc : Bool}

lemma cacheInit_spec (h : cacheInit numPages alloc = some cache) :
    cache.maxNumItems ≠ 0 ∧ cache.maxNumItems ≠ -1 ∧ (∀ i, cache.pageCache i = .empty) ∧
      cache.numItems = 0 := by
  unfold cacheInit at h
  split at h
  case isTrue => cases h
  case isFalse hpos =>
    split at h
    case isFalse => cases h
    case isTrue =>
      obtain ⟨hne, hne'⟩ := pow2floor_spec hpos
      cases h
      refine ⟨?_, ?_, fun _ => rfl, rfl⟩
      all_goals
        split
        case isTrue hpower =>
          rw [pow2floor, if_pos hpower] at hne hne'
          assumption
        case isFalse => assumption

def CacheItem.Valid (it : CacheItem pageSize) : Prop :=
  it = .empty ∨ it.itData.isSome ∧ it.itAddr ≠ -1

namespace PageCache

/-- The first `n` slots were moved to the new cache. -/
structure Moved (items : Nat → CacheItem pageSize) (n : Nat) (new : PageCache pageSize) : Prop where
  max : new.maxNumItems ≠ 0
  recent : ∀ pos, MostRecent items (fun i => i < n ∧ (items i).itData.isSome) new pos
  count : new.numItems = new.slotsWithData

variable {items : Nat → CacheItem pageSize} {new : PageCache pageSize} {n : Nat}

lemma MostRecent.mono {slots slots' : Nat → Prop} {pos : Nat} (h : MostRecent items slots new pos)
    (hsub : ∀ i, slots i → slots' i)
    (hrest : ∀ i, slots' i → new.cacheGetCachePos (items i).itAddr = pos → slots i) :
    MostRecent items slots' new pos := by
  rcases h with ⟨hempty, hnone⟩ | ⟨i, hi, hpos, heq, hage⟩
  · exact .inl ⟨hempty, fun i hi hpos => hnone i (hrest i hi hpos) hpos⟩
  · exact .inr ⟨i, hsub i hi, hpos, heq, fun j hj hposj => hage j (hrest j hj hposj) hposj⟩

lemma MostRecent.congr {slots : Nat → Prop} {new' : PageCache pageSize} {pos : Nat}
    (h : MostRecent items slots new pos) (hmax : new'.maxNumItems = new.maxNumItems)
    (hpos : new'.pageCache pos = new.pageCache pos) : MostRecent items slots new' pos := by
  have hhash : new'.cacheGetCachePos = new.cacheGetCachePos := by
    funext addr
    rw [cacheGetCachePos, cacheGetCachePos, hmax]
  rwa [MostRecent, hhash, hpos]

lemma moveItem_maxNumItems (new : PageCache pageSize) (oldIt : CacheItem pageSize) :
    (new.moveItem oldIt).maxNumItems = new.maxNumItems := by
  unfold PageCache.moveItem
  split
  · dsimp only
    split <;> rfl
  · rfl

lemma moveItem_empty (new : PageCache pageSize) : new.moveItem .empty = new :=
  if_neg (not_not.mpr rfl)

lemma mostRecent_moveItem
    (h : MostRecent items (fun i => i < n ∧ (items i).itData.isSome) new (new.cacheGetCachePos (items n).itAddr))
    (hsome : (items n).itData.isSome) (haddr : (items n).itAddr ≠ -1) :
    MostRecent items (fun i => i < n + 1 ∧ (items i).itData.isSome) (new.moveItem (items n))
      (new.cacheGetCachePos (items n).itAddr) := by
  unfold PageCache.moveItem
  rw [if_pos haddr]
  dsimp only
  split
  case isTrue hkeep =>
    rcases h with ⟨hempty, -⟩ | ⟨i, hi, hpos, heq, hage⟩
    · rw [cacheGetByAddr, hempty] at hkeep
      exact nomatch hkeep.1
    refine .inr ⟨i, ⟨Nat.lt_succ_of_lt hi.1, hi.2⟩, hpos, heq, fun j hj hposj => ?_⟩
    rcases Nat.lt_succ_iff_lt_or_eq.mp hj.1 with hlt | rfl
    · exact hage j ⟨hlt, hj.2⟩ hposj
    · rw [cacheGetByAddr, heq] at hkeep
      exact hkeep.2
  case isFalse hreplace =>
    refine .inr ⟨n, ⟨n.lt_succ_self, hsome⟩, rfl, update_self _ _ _, fun j hj hposj => ?_⟩
    rcases Nat.lt_succ_iff_lt_or_eq.mp hj.1 with hlt | rfl
    · rcases h with ⟨-, hnone⟩ | ⟨i, hi, -, heq, hage⟩
      · exact absurd hposj (hnone j ⟨hlt, hj.2⟩)
      · -- the page that was there is older
        rw [cacheGetByAddr, heq] at hreplace
        have holder : ¬ (items n).itAge ≤ (items i).itAge := fun hge => hreplace ⟨hi.2, hge⟩
        exact BitVec.le_trans (hage j ⟨hlt, hj.2⟩ hposj) (BitVec.le_of_lt (BitVec.not_le.mp holder))
    · exact BitVec.le_refl _

lemma Moved.moveItem (h : Moved items n new) (hvalid : (items n).Valid) :
    Moved items (n + 1) (new.moveItem (items n)) := by
  have hmem : ∀ i, i < n ∧ (items i).itData.isSome → i < n + 1 ∧ (items i).itData.isSome :=
    fun i hi => ⟨Nat.lt_succ_of_lt hi.1, hi.2⟩
  rcases hvalid with hempty | ⟨hsome, haddr⟩
  · rw [hempty, moveItem_empty]
    refine ⟨h.max, fun pos => (h.recent pos).mono hmem fun i hi _ => ⟨?_, hi.2⟩, h.count⟩
    refine lt_of_le_of_ne (Nat.le_of_lt_succ hi.1) fun heq => ?_
    rw [heq, hempty] at hi
    exact nomatch hi.2
  have hmax := moveItem_maxNumItems new (items n)
  refine ⟨hmax ▸ h.max, fun pos => ?_, ?_⟩
  · by_cases hpos : pos = new.cacheGetCachePos (items n).itAddr
    · rw [hpos]
      exact mostRecent_moveItem (h.recent _) hsome haddr
    have hsame : (new.moveItem (items n)).pageCache pos = new.pageCache pos := by
      unfold PageCache.moveItem
      rw [if_pos haddr]
      dsimp only
      split
      · rfl
      · exact update_of_ne hpos _ _
    refine MostRecent.congr ((h.recent pos).mono hmem fun i hi hposi => ⟨?_, hi.2⟩) hmax hsame
    refine lt_of_le_of_ne (Nat.le_of_lt_succ hi.1) fun heq => ?_
    rw [heq] at hposi
    exact hpos hposi.symm
  · unfold PageCache.moveItem
    rw [if_pos haddr]
    dsimp only
    split
    · exact h.count
    · exact (if_congr Iff.rfl h.count (congrArg Nat.succ h.count)).trans
        (slotsWithData_set h.max hsome).symm

lemma Moved.moveItems (h : Moved items 0 new) (hvalid : ∀ i < n, (items i).Valid) :
    Moved items n (new.moveItems items n) := by
  induction n with
  | zero => exact h
  | succ n ih =>
    rw [PageCache.moveItems, List.range_succ, List.foldl_concat]
    exact (ih fun i hi => hvalid i (Nat.lt_succ_of_lt hi)).moveItem (hvalid n n.lt_succ_self)

lemma moveItems_maxNumItems (new : PageCache pageSize) (items : Nat → CacheItem pageSize) (n : Nat) :
    (new.moveItems items n).maxNumItems = new.maxNumItems := by
  induction n with
  | zero => rfl
  | succ n ih =>
    rw [PageCache.moveItems, List.range_succ, List.foldl_concat, moveItem_maxNumItems]
    exact ih

lemma slotsWithData_of_empty (h : ∀ i, cache.pageCache i = .empty) : cache.slotsWithData = 0 := by
  rw [slotsWithData_eq_sum]
  refine Finset.sum_eq_zero fun i _ => ?_
  rw [h i]
  rfl

lemma Moved.init (h : cacheInit numPages alloc = some new) : Moved items 0 new := by
  obtain ⟨hmax, -, hempty, hcount⟩ := cacheInit_spec h
  refine ⟨hmax, fun pos => .inl ⟨hempty pos, fun i hi => absurd hi.1 (Nat.not_lt_zero i)⟩, ?_⟩
  rw [hcount, slotsWithData_of_empty hempty]

end PageCache

def Call.Unmarked : Call pageSize → Prop
  | .insert addr _ _ => addr ≠ -1
  | .resize _ _ => True

lemma lastInsert_concat_insert (addr addr' : BitVec 64) (pdata : Page pageSize) (alloc : Bool)
    (calls : List (Call pageSize)) :
    lastInsert addr (calls ++ [.insert addr' pdata alloc]) =
      if addr' = addr then some pdata else lastInsert addr calls := by
  rw [lastInsert, List.foldl_concat]
  rfl

lemma lastInsert_concat_resize (addr newNumPages : BitVec 64) (alloc : Bool)
    (calls : List (Call pageSize)) :
    lastInsert addr (calls ++ [.resize newNumPages alloc]) = lastInsert addr calls := by
  rw [lastInsert, List.foldl_concat]
  rfl

structure Inv (cache : PageCache pageSize) (calls : List (Call pageSize)) : Prop where
  max : cache.maxNumItems ≠ 0
  valid : ∀ i, (cache.pageCache i).Valid
  hashed : ∀ i d, (cache.pageCache i).itData = some d →
    cache.cacheGetCachePos (cache.pageCache i).itAddr = i ∧
      lastInsert (cache.pageCache i).itAddr calls = some d
  count : cache.numItems = cache.slotsWithData

namespace Inv

variable {cache : PageCache pageSize} {calls : List (Call pageSize)}

lemma init (h : cacheInit numPages alloc = some cache) : Inv cache [] := by
  obtain ⟨hmax, -, hempty, hcount⟩ := cacheInit_spec h
  refine ⟨hmax, fun i => .inl (hempty i), fun i d hd => ?_, ?_⟩
  · rw [hempty i] at hd
    exact nomatch hd
  · rw [hcount, PageCache.slotsWithData_of_empty hempty]

section
variable (h : Inv cache calls)
include h

lemma hashed_concat {pdata : Page pageSize}
    {i : Nat} {d : Page pageSize} (hd : (cache.pageCache i).itData = some d)
    (hne : i ≠ cache.cacheGetCachePos addr) :
    cache.cacheGetCachePos (cache.pageCache i).itAddr = i ∧
      lastInsert (cache.pageCache i).itAddr (calls ++ [.insert addr pdata alloc]) = some d := by
  obtain ⟨hpos, hlast⟩ := h.hashed i d hd
  refine ⟨hpos, ?_⟩
  rw [lastInsert_concat_insert, if_neg, hlast]
  intro heq
  rw [← heq] at hpos
  exact hne hpos.symm

lemma store (age : BitVec 64) (haddr : addr ≠ -1) (pdata : Page pageSize) (alloc : Bool) : Inv
      { cache.set addr { itAddr := addr, itAge := age, itData := some pdata } with
        maxItemAge := age
        numItems :=
          if (cache.cacheGetByAddr addr).itData.isSome then cache.numItems else cache.numItems + 1 }
      (calls ++ [.insert addr pdata alloc]) where
  max := h.max
  valid i := by
    dsimp only [PageCache.set]
    by_cases hi : i = cache.cacheGetCachePos addr
    · rw [hi, update_self]
      exact .inr ⟨rfl, haddr⟩
    · rw [update_of_ne hi]
      exact h.valid i
  hashed i d hd := by
    dsimp only [PageCache.set] at hd ⊢
    by_cases hi : i = cache.cacheGetCachePos addr
    · rw [hi, update_self] at hd
      cases hd
      rw [hi, update_self, lastInsert_concat_insert, if_pos rfl]
      exact ⟨rfl, rfl⟩
    · rw [update_of_ne hi] at hd ⊢
      exact h.hashed_concat hd hi
  count :=
    (if_congr Iff.rfl h.count (congrArg Nat.succ h.count)).trans
      (PageCache.slotsWithData_set h.max rfl).symm

lemma insert (haddr : addr ≠ -1) (pdata : Page pageSize) (alloc : Bool) :
    Inv (cache.cacheInsert addr pdata alloc).2 (calls ++ [.insert addr pdata alloc]) := by
  have hstore := h.store (cache.maxItemAge + 1) haddr pdata alloc
  unfold PageCache.cacheInsert
  split
  next hsome =>
    rwa [hsome, Option.isSome_some, if_pos rfl] at hstore
  next hnone =>
    rw [hnone, Option.isSome_none, if_neg Bool.false_ne_true] at hstore
    split
    case isTrue => exact hstore
    case isFalse =>
      refine ⟨h.max, h.valid, fun i d hd => h.hashed_concat hd fun hi => ?_, h.count⟩
      rw [PageCache.cacheGetByAddr, ← hi, hd] at hnone
      exact nomatch hnone

lemma mostRecent_self (pos : Nat) :
    PageCache.MostRecent cache.pageCache cache.Holds cache pos := by
  have honly : ∀ i, cache.Holds i → cache.cacheGetCachePos (cache.pageCache i).itAddr = i := by
    intro i hi
    obtain ⟨d, hd⟩ := Option.isSome_iff_exists.mp hi.2
    exact (h.hashed i d hd).1
  rcases h.valid pos with hempty | ⟨hsome, -⟩
  · refine .inl ⟨hempty, fun i hi hpos => ?_⟩
    have hsome := hi.2
    rw [(honly i hi).symm.trans hpos, hempty] at hsome
    exact nomatch hsome
  obtain ⟨d, hd⟩ := Option.isSome_iff_exists.mp hsome
  have hpos := (h.hashed pos d hd).1
  have hholds : cache.Holds pos := ⟨hpos ▸ PageCache.cacheGetCachePos_lt h.max _, hsome⟩
  refine .inr ⟨pos, hholds, hpos, rfl, fun j hj hposj => ?_⟩
  rw [(honly j hj).symm.trans hposj]
  exact BitVec.le_refl _

section
variable (newNumPages : BitVec 64)

lemma resize_cases (alloc : Bool) : (cache.cacheResize newNumPages alloc).2 = cache ∨
    ∃ new, PageCache.Moved cache.pageCache cache.maxNumItems.toNat new ∧ new.maxNumItems ≠ -1 ∧
      cache.cacheResize newNumPages alloc = (new.maxNumItems.toInt, { cache with
            pageCache := new.pageCache, maxNumItems := new.maxNumItems, numItems := new.numItems }) := by
  unfold PageCache.cacheResize
  split
  · exact .inl rfl
  split
  next => exact .inl rfl
  next new hnew =>
    refine .inr ⟨_, (PageCache.Moved.init hnew).moveItems fun i _ => h.valid i, ?_, rfl⟩
    rw [PageCache.moveItems_maxNumItems]
    exact (cacheInit_spec hnew).2.1

lemma moved {new : PageCache pageSize} {age : BitVec 64}
    (hmoved : PageCache.Moved cache.pageCache cache.maxNumItems.toNat new) :
    Inv { new with maxItemAge := age } calls := by
  have hfrom : ∀ i, new.pageCache i = .empty ∨ ∃ k, new.pageCache i = cache.pageCache k ∧
      (cache.pageCache k).itData.isSome ∧ new.cacheGetCachePos (cache.pageCache k).itAddr = i := by
    intro i
    rcases hmoved.recent i with ⟨hempty, -⟩ | ⟨k, hk, hpos, heq, -⟩
    · exact .inl hempty
    · exact .inr ⟨k, heq, hk.2, hpos⟩
  refine ⟨hmoved.max, fun i => ?_, fun i d hd => ?_, hmoved.count⟩
  · rcases hfrom i with hempty | ⟨k, heq, -, -⟩
    · exact .inl hempty
    · rw [heq]
      exact h.valid k
  rcases hfrom i with hempty | ⟨k, heq, -, hpos⟩
  · rw [hempty] at hd
    exact nomatch hd
  · rw [heq] at hd
    rw [heq]
    exact ⟨hpos, (h.hashed k d hd).2⟩

lemma resize (alloc : Bool) :
    Inv (cache.cacheResize newNumPages alloc).2 (calls ++ [.resize newNumPages alloc]) := by
  have hcalls : ∀ {cache : PageCache pageSize}, Inv cache calls →
      Inv cache (calls ++ [.resize newNumPages alloc]) := fun h =>
    ⟨h.max, h.valid, fun i d hd => by
      rw [lastInsert_concat_resize]
      exact h.hashed i d hd, h.count⟩
  apply hcalls
  rcases h.resize_cases newNumPages alloc with hsame | ⟨new, hmoved, -, heq⟩
  · rwa [hsame]
  · rw [heq]
    exact h.moved hmoved

lemma run {more : List (Call pageSize)}
    (hmore : ∀ call ∈ more, call.Unmarked) : Inv (cache.run more) (calls ++ more) := by
  induction more generalizing cache calls with
  | nil => simpa [PageCache.run] using h
  | cons call rest ih =>
    have hcall := hmore call List.mem_cons_self
    have hstep : Inv (cache.call call).2 (calls ++ [call]) := by
      cases call with
      | insert addr pdata alloc => exact h.insert hcall pdata alloc
      | resize newNumPages alloc => exact h.resize newNumPages alloc
    have hrest := ih hstep fun call hmem => hmore call (List.mem_cons_of_mem _ hmem)
    rwa [List.append_assoc, List.singleton_append] at hrest

lemma resize_mostRecent (alloc : Bool) (pos : Nat) :
    PageCache.MostRecent cache.pageCache cache.Holds (cache.cacheResize newNumPages alloc).2 pos := by
  rcases h.resize_cases newNumPages alloc with hsame | ⟨new, hmoved, -, heq⟩
  · rw [hsame]
    exact h.mostRecent_self pos
  · rw [heq]
    exact hmoved.recent pos
end

lemma call_fails (call : Call pageSize) (hfail : (cache.call call).1 = -1) :
    (cache.call call).2 = cache := by
  cases call with
  | insert addr pdata alloc =>
    simp only [PageCache.call, PageCache.cacheInsert] at hfail ⊢
    split at hfail
    next => cases hfail
    next =>
      split at hfail
      case isTrue => cases hfail
      case isFalse halloc => rw [if_neg halloc]
  | resize newNumPages alloc =>
    rcases h.resize_cases newNumPages alloc with hsame | ⟨new, -, hne, heq⟩
    · exact hsame
    · rw [PageCache.call, heq] at hfail
      exact absurd (BitVec.eq_of_toInt_eq hfail) hne
end

end Inv

/-- After every sequence of calls that insert no page at the address `-1`: a slot with a
page is the one its address hashes to and has the bytes of the most recent insert for it;
`num_items` counts the slots with data; a resize leaves in each slot the page of the largest
age of those that hash to it; and a call that fails changes nothing. -/
theorem page_cache_correct {numPages : BitVec 64} {alloc : Bool} {cache : PageCache pageSize}
    (hinit : cacheInit numPages alloc = some cache) {calls : List (Call pageSize)}
    (hcalls : ∀ call ∈ calls, call.Unmarked) :
    (∀ i d, ((cache.run calls).pageCache i).itData = some d →
      (cache.run calls).cacheGetCachePos ((cache.run calls).pageCache i).itAddr = i ∧
        lastInsert ((cache.run calls).pageCache i).itAddr calls = some d) ∧
    (cache.run calls).numItems = (cache.run calls).slotsWithData ∧
    (∀ newNumPages alloc pos,
      PageCache.MostRecent (cache.run calls).pageCache (cache.run calls).Holds
        ((cache.run calls).cacheResize newNumPages alloc).2 pos) ∧
    ∀ call, ((cache.run calls).call call).1 = -1 →
      ((cache.run calls).call call).2 = cache.run calls :=
  have h := (Inv.init hinit).run hcalls
  ⟨h.hashed, h.count, h.resize_mostRecent, h.call_fails⟩

def exCache : PageCache 1 where
  pageCache _ := .empty
  maxNumItems := 4
  maxItemAge := 0
  numItems := 0

def exPage : Page 1 := Vector.replicate 1 7

/-- Two pages meet in one slot when a cache of four pages shrinks. -/
theorem page_cache_correct_shrink :
    (exCache.run [.insert 1 exPage true, .insert 3 exPage true, .resize 2 true]).numItems =
      (exCache.run [.insert 1 exPage true, .insert 3 exPage true, .resize 2 true]).slotsWithData :=
  (@page_cache_correct 1 4 true exCache rfl _ (by simp [Call.Unmarked])).2.1

/-- A page at the address `-1` is not moved when the cache grows. -/
theorem page_cache_loses_marker_address :
    (exCache.run [.insert (-1) exPage true]).Holds 3 ∧
    ¬ ∀ pos, PageCache.MostRecent (exCache.run [.insert (-1) exPage true]).pageCache
      (exCache.run [.insert (-1) exPage true]).Holds
      ((exCache.run [.insert (-1) exPage true]).cacheResize 8 true).2 pos := by
  have hholds : (exCache.run [.insert (-1) exPage true]).Holds 3 := ⟨by decide, by decide⟩
  refine ⟨hholds, fun h => ?_⟩
  rcases h 7 with ⟨-, hnone⟩ | ⟨i, hi, -, heq, -⟩
  · exact hnone 3 hholds (by decide)
  have hsome := hi.2
  rw [← heq] at hsome
  revert hsome
  decide

def Page.region (page : Page pageSize) : ByteRegion.Region := fun k => page.getD k 0

/-- The cache as `RamSave` has it: the pages by their number. -/
def PageCache.view (cache : PageCache pageSize) : Migration.PageCache where
  maxNumItems := cache.maxNumItems.toNat
  items pos := (cache.pageCache pos).itData.map fun page =>
    ((cache.pageCache pos).itAddr.toNat / pageSize, page.region)

section
variable {cache : PageCache pageSize} {addr : BitVec 64}

lemma view_insert (pdata : Page pageSize) : (cache.cacheInsert addr pdata true).2.view =
      cache.view.insert (addr.toNat / pageSize) pdata.region := by
  have hitems : ∀ numItems, PageCache.view
      { cache.set addr { itAddr := addr, itAge := cache.maxItemAge + 1, itData := some pdata } with
        maxItemAge := cache.maxItemAge + 1, numItems := numItems } =
      cache.view.insert (addr.toNat / pageSize) pdata.region := by
    intro numItems
    refine congrArg (Migration.PageCache.mk cache.maxNumItems.toNat) (funext fun pos => ?_)
    dsimp only [PageCache.set]
    by_cases hpos : pos = cache.cacheGetCachePos addr
    · rw [hpos, update_self]
      exact (if_pos rfl).symm
    · rw [update_of_ne hpos]
      exact (if_neg hpos).symm
  unfold PageCache.cacheInsert
  split
  · exact hitems _
  · exact hitems _

/-- The two caches stay the same over any sequence of inserts. -/
lemma view_inserts (pages : List (BitVec 64 × Page pageSize)) :
    (pages.foldl (fun cache p => (cache.cacheInsert p.1 p.2 true).2) cache).view =
      pages.foldl (fun view p => view.insert (p.1.toNat / pageSize) p.2.region) cache.view :=
  (List.foldl_hom PageCache.view fun _ p => (view_insert p.2).symm).symm
end

end QemuVmi.Migration.XbzrleCache
