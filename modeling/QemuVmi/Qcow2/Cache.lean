import Mathlib

/-!
# The metadata caches

`qcow2-cache.c`: the L2 table cache and the refcount block cache. A cache holds tables of the image
file and writes them back when an entry is replaced or the cache is flushed. A cache can depend on
the other one, which is then flushed before a table is written.

Results:
1. `step_moves`: what an operation does is a sequence of `Move`s, which say what can happen to the
   entries, the dependencies and the file.
2. `cacheFlush_spec`: a successful flush leaves no dirty table.
3. `cacheFlush_isSome`: a flush returns, if the caches do not depend on each other.
-/

namespace QemuVmi.Qcow2

open Option Function Nat

/-- `l2_table_cache` and `refcount_block_cache`. -/
inductive CacheId
  | l2Table
  | refcountBlock
deriving DecidableEq, Repr

def CacheId.other : CacheId → CacheId
  | l2Table => refcountBlock
  | refcountBlock => l2Table

/-- `Qcow2CachedTable`. An entry with `offset` 0 holds no table. -/
structure CachedTable (α : Type) where
  table : α
  offset : Nat
  dirty : Bool
  cacheHits : Nat
  ref : Nat

/-- `Qcow2Cache`: the first `size` entries are used. -/
structure Cache (α : Type) where
  entries : Nat → CachedTable α
  size : Nat
  depends : Option CacheId
  dependsOnFlush : Bool

/-- What has been done so far: a table has been written, the file has been flushed, or a cache
has been made dependent on the other one, which had these dirty tables. -/
inductive CacheEvent
  | write (c : CacheId) (offset : Nat)
  | flush
  | depend (c : CacheId) (dirty : List Nat)
deriving DecidableEq, Repr

/-- The two caches and the image file. `results` are the return values of the requests to the file
and of the overlap checks, of which `done` have been used. The last event stands first in `log`. -/
structure Caches (α : Type) where
  cache : CacheId → Cache α
  file : Nat → α
  results : Nat → Int
  done : Nat
  log : List CacheEvent

def intMax : Nat := 0x7fffffff

namespace Caches

variable {α : Type}

section
variable (s : Caches α) (c : CacheId)

def entry (i : Nat) : CachedTable α := (s.cache c).entries i

def setCache (cache : Cache α) : Caches α :=
  { s with cache := update s.cache c cache }

def setEntry (i : Nat) (e : CachedTable α) : Caches α :=
  s.setCache c { s.cache c with entries := update (s.cache c).entries i e }

def dirtyOffsets : List Nat :=
  ((List.range (s.cache c).size).filter fun i =>
    (s.entry c i).dirty && (s.entry c i).offset != 0).map fun i => (s.entry c i).offset

def request : Int × Caches α := (s.results s.done, { s with done := s.done + 1 })

def bdrvFlush : Int × Caches α :=
  let (ret, s) := s.request
  (ret, if ret < 0 then s else { s with log := .flush :: s.log })

/-- `bdrv_pwrite` of the table of an entry. -/
def pwriteTable (i : Nat) : Int × Caches α :=
  let (ret, s) := s.request
  (ret, if ret < 0 then s else
    { s with
      file := update s.file (s.entry c i).offset (s.entry c i).table
      log := .write c (s.entry c i).offset :: s.log })

section
variable (flush : CacheId → Caches α → Option (Int × Caches α))

/-- `qcow2_cache_flush_dependency`, with the function that flushes a cache. -/
def flushDependency (c : CacheId) :
    Option (Int × Caches α) := do
  let d ← (s.cache c).depends
  let (ret, s) ← flush d s
  if ret < 0 then some (ret, s)
  else some (0, s.setCache c { s.cache c with depends := none, dependsOnFlush := false })

/-- What `qcow2_cache_entry_flush` does before it writes. -/
def flushBefore (c : CacheId) :
    Option (Int × Caches α) :=
  if (s.cache c).depends.isSome then s.flushDependency flush c
  else if (s.cache c).dependsOnFlush then
    let (ret, s) := s.bdrvFlush
    some (ret, if 0 ≤ ret then s.setCache c { s.cache c with dependsOnFlush := false } else s)
  else some (0, s)

/-- `qcow2_cache_entry_flush`. -/
def entryFlush (c : CacheId) (i : Nat) :
    Option (Int × Caches α) :=
  if (s.entry c i).dirty = false ∨ (s.entry c i).offset = 0 then some (0, s)
  else do
    let (ret, s) ← s.flushBefore flush c
    if ret < 0 then some (ret, s)
    else
      -- qcow2_pre_write_overlap_check
      let (ret, s) := s.request
      if ret < 0 then some (ret, s)
      else
        let (ret, s) := s.pwriteTable c i
        if ret < 0 then some (ret, s)
        else some (0, s.setEntry c i { s.entry c i with dirty := false })
end

def enospc : Int := 28

/-- The loop of `qcow2_cache_flush`, with its `result`. -/
def flushEntries (flush : CacheId → Caches α → Option (Int × Caches α)) (c : CacheId) :
    Nat → Option (Int × Caches α)
  | 0 => some (0, s)
  | n + 1 => do
    let (result, s) ← flushEntries flush c n
    let (ret, s) ← s.entryFlush flush c n
    some (if ret < 0 ∧ result ≠ -enospc then ret else result, s)
end

/-- `qcow2_cache_flush`, which calls itself for the cache that `c` depends on. -/
def cacheFlush : Nat → CacheId → Caches α → Option (Int × Caches α)
  | 0, _, _ => none
  | fuel + 1, c, s => do
    let (result, s) ← s.flushEntries (cacheFlush fuel) c (s.cache c).size
    if result = 0 then
      let (ret, s) := s.bdrvFlush
      some (if ret < 0 then ret else 0, s)
    else some (result, s)

section
variable (s : Caches α) (c : CacheId)

/-- `qcow2_cache_flush`. Two levels are enough as long as the caches do not depend on each
other. -/
def flush : Option (Int × Caches α) := cacheFlush 2 c s

def flushDependencyIf (condition : Bool) (c : CacheId) : Option (Int × Caches α) :=
  if condition then s.flushDependency (cacheFlush 2) c else some (0, s)

/-- `qcow2_cache_set_dependency(c, dependency)`, where `dependency` is the other cache. -/
def setDependency : Option (Int × Caches α) := do
  let (ret, s) ← s.flushDependencyIf (s.cache c.other).depends.isSome c.other
  if ret < 0 then some (ret, s)
  else
    let (ret, s) ← s.flushDependencyIf
      ((s.cache c).depends.isSome && (s.cache c).depends != some c.other) c
    if ret < 0 then some (ret, s)
    else
      some (0, { s.setCache c { s.cache c with depends := some c.other } with
        log := .depend c (s.dirtyOffsets c.other) :: s.log })

/-- `qcow2_cache_depends_on_flush`. -/
def dependsOnFlush (c : CacheId) : Caches α :=
  s.setCache c { s.cache c with dependsOnFlush := true }

/-- The loop of `qcow2_cache_empty`, which asserts that no entry is in use. -/
def emptyEntries (c : CacheId) : Nat → Option (Caches α)
  | 0 => some s
  | n + 1 => do
    let s ← emptyEntries c n
    if (s.entry c n).ref = 0 then
      some (s.setEntry c n { s.entry c n with offset := 0, cacheHits := 0 })
    else none

/-- `qcow2_cache_empty`. -/
def empty : Option (Int × Caches α) := do
  let (ret, s) ← s.flush c
  if ret < 0 then some (ret, s)
  else
    let s ← s.emptyEntries c (s.cache c).size
    some (0, s)

/-- The loop of `qcow2_cache_find_entry_to_replace`: `min_count`, `min_index` and the entries,
whose counters it halves. -/
def findLoop (c : CacheId) : Nat → Nat × Option Nat × Caches α
  | 0 => (intMax, none, s)
  | n + 1 =>
    let (minCount, minIndex, s) := findLoop c n
    if (s.entry c n).ref ≠ 0 then (minCount, minIndex, s)
    else
      let aged := s.setEntry c n { s.entry c n with cacheHits := (s.entry c n).cacheHits / 2 }
      if (s.entry c n).cacheHits < minCount then ((s.entry c n).cacheHits, some n, aged)
      else (minCount, minIndex, aged)

/-- `qcow2_cache_find_entry_to_replace`, which aborts if all the entries are in use. -/
def findEntryToReplace : Option (Nat × Caches α) :=
  match s.findLoop c (s.cache c).size with
  | (_, some i, s) => some (i, s)
  | (_, none, _) => none

/-- `bdrv_pread` into the table of an entry. -/
def preadTable (i offset : Nat) : Int × Caches α :=
  let (ret, s) := s.request
  (ret, if ret < 0 then s else s.setEntry c i { s.entry c i with table := s.file offset })

/-- The end of `qcow2_cache_do_get`, with the table that it returns. The counters are signed and
must not overflow. -/
def found (i : Nat) : Option (Int × Option Nat × Caches α) :=
  let e := s.entry c i
  if e.cacheHits = intMax ∨ e.ref = intMax then none
  else some (0, some i, s.setEntry c i { e with cacheHits := e.cacheHits + 1, ref := e.ref + 1 })

/-- `qcow2_cache_do_get` if the table is not cached, once the entry to replace is known. -/
def replace (i offset : Nat) (readFromDisk : Bool) :
    Option (Int × Option Nat × Caches α) := do
  let (ret, s) ← s.entryFlush (cacheFlush 2) c i
  if ret < 0 then some (ret, none, s)
  else
    let s := s.setEntry c i { s.entry c i with offset := 0 }
    let (ret, s) := if readFromDisk then s.preadTable c i offset else (0, s)
    if ret < 0 then some (ret, none, s)
    else
      -- the number 32 is completely arbitrary
      (s.setEntry c i { s.entry c i with cacheHits := 32, offset := offset }).found c i

def lookup (offset : Nat) : Option Nat :=
  (List.range (s.cache c).size).find? fun i => (s.entry c i).offset == offset

/-- `qcow2_cache_do_get`. A table is identified by the index of its entry. -/
def doGet (offset : Nat) (readFromDisk : Bool) :
    Option (Int × Option Nat × Caches α) :=
  match s.lookup c offset with
  | some i => s.found c i
  | none => do
    let (i, s) ← s.findEntryToReplace c
    s.replace c i offset readFromDisk

/-- `qcow2_cache_put`, which asserts that the table is in use. -/
def put (i : Nat) : Option (Caches α) :=
  if i < (s.cache c).size ∧ (s.entry c i).ref ≠ 0 then
    some (s.setEntry c i { s.entry c i with ref := (s.entry c i).ref - 1 })
  else none

/-- A table that is in use is modified, and `qcow2_cache_entry_mark_dirty`. -/
def modify (i : Nat) (table : α) : Option (Caches α) :=
  if i < (s.cache c).size ∧ (s.entry c i).ref ≠ 0 then
    some (s.setEntry c i { s.entry c i with table := table, dirty := true })
  else none
end

end Caches

inductive CacheOp (α : Type)
  | get (c : CacheId) (offset : Nat)
  | getEmpty (c : CacheId) (offset : Nat)
  | modify (c : CacheId) (i : Nat) (table : α)
  | put (c : CacheId) (i : Nat)
  | flush (c : CacheId)
  | empty (c : CacheId)
  | setDependency (c : CacheId)
  | dependsOnFlush (c : CacheId)

namespace Caches

variable {α : Type}

def step (s : Caches α) : CacheOp α → Option (Int × Caches α)
  | .get c offset => if offset = 0 then none else (s.doGet c offset true).map fun r => (r.1, r.2.2)
  | .getEmpty c offset =>
    if offset = 0 then none else (s.doGet c offset false).map fun r => (r.1, r.2.2)
  | .modify c i table => (s.modify c i table).map fun s => (0, s)
  | .put c i => (s.put c i).map fun s => (0, s)
  | .flush c => s.flush c
  | .empty c => s.empty c
  | .setDependency c => s.setDependency c
  | .dependsOnFlush c => some (0, s.dependsOnFlush c)

/-- `qcow2_cache_create` for both caches. -/
def create (sizes : CacheId → Nat) (table : CacheId → Nat → α) (file : Nat → α)
    (results : Nat → Int) : Caches α where
  cache c := ⟨fun i => ⟨table c i, 0, false, 0, 0⟩, sizes c, none, false⟩
  file := file
  results := results
  done := 0
  log := []

/-! ## Moves -/

def Clean (s : Caches α) (c : CacheId) : Prop :=
  ∀ i < (s.cache c).size, (s.entry c i).dirty = true → (s.entry c i).offset = 0

def written (s : Caches α) (c : CacheId) (i : Nat) : Caches α :=
  { s.setEntry c i { s.entry c i with dirty := false } with
    file := update s.file (s.entry c i).offset (s.entry c i).table
    log := .write c (s.entry c i).offset :: s.log }

/-- What flushing can do. A table is written while its cache depends on nothing, and a dependency
goes once the other cache is clean and the file has been flushed. -/
inductive FlushMove : Caches α → Caches α → Prop
  | request (s : Caches α) : FlushMove s { s with done := s.done + 1 }
  | flush (s : Caches α) : FlushMove s { s with log := .flush :: s.log }
  | write (s : Caches α) (c : CacheId) (i : Nat) : i < (s.cache c).size → (s.cache c).depends = none →
      (s.entry c i).offset ≠ 0 → FlushMove s (s.written c i)
  | clearFlag (s : Caches α) (c : CacheId) :
      FlushMove s (s.setCache c { s.cache c with dependsOnFlush := false })
  | clearDepends (s : Caches α) (c d : CacheId) : (s.cache c).depends = some d → s.Clean d →
      (∃ l, s.log = .flush :: l) →
      FlushMove s (s.setCache c { s.cache c with depends := none, dependsOnFlush := false })

/-- What the operations can do, apart from `modify` and `put`. Tables are loaded at the offsets that the cache
`owns`, and without reading them if they are `blank`. -/
inductive Move (owns : CacheId → Nat → Prop) (blank : Nat → Prop) : Caches α → Caches α → Prop
  | flush {s s' : Caches α} : FlushMove s s' → Move owns blank s s'
  | age (s : Caches α) (c : CacheId) (i hits : Nat) : i < (s.cache c).size →
      Move owns blank s (s.setEntry c i { s.entry c i with cacheHits := hits })
  | take (s : Caches α) (c : CacheId) (i : Nat) : i < (s.cache c).size → (s.entry c i).offset ≠ 0 →
      Move owns blank s (s.setEntry c i { s.entry c i with
        cacheHits := (s.entry c i).cacheHits + 1, ref := (s.entry c i).ref + 1 })
  | evict (s : Caches α) (c : CacheId) (i hits : Nat) : i < (s.cache c).size → (s.entry c i).ref = 0 →
      ((s.entry c i).dirty = true → (s.entry c i).offset = 0) →
      Move owns blank s (s.setEntry c i { s.entry c i with offset := 0, cacheHits := hits })
  | load (s : Caches α) (c : CacheId) (i offset : Nat) (table : α) : i < (s.cache c).size →
      (s.entry c i).ref = 0 → (s.entry c i).offset = 0 → offset ≠ 0 → owns c offset →
      (∀ j < (s.cache c).size, (s.entry c j).offset ≠ offset) → (table = s.file offset ∨ blank offset) →
      Move owns blank s (s.setEntry c i { s.entry c i with
        table := table, cacheHits := 32, offset := offset })
  | depend (s : Caches α) (c : CacheId) : (s.cache c.other).depends = none →
      ((s.cache c).depends = none ∨ (s.cache c).depends = some c.other) →
      Move owns blank s { s.setCache c { s.cache c with depends := some c.other } with
        log := .depend c (s.dirtyOffsets c.other) :: s.log }
  | setFlag (s : Caches α) (c : CacheId) : Move owns blank s (s.dependsOnFlush c)

open Relation (ReflTransGen)

abbrev FlushMoves : Caches α → Caches α → Prop := ReflTransGen FlushMove

abbrev Moves (owns : CacheId → Nat → Prop) (blank : Nat → Prop) : Caches α → Caches α → Prop :=
  ReflTransGen (Move owns blank)

section
variable (s : Caches α) {c d : CacheId} {i j : Nat} {e : CachedTable α} {cache : Cache α}

@[simp] lemma cache_setCache_same : (s.setCache c cache).cache c = cache :=
  update_self ..

lemma cache_setCache_of_ne (h : d ≠ c) : (s.setCache c cache).cache d = s.cache d :=
  update_of_ne h ..

@[simp] lemma entry_setEntry_same : (s.setEntry c i e).entry c i = e := by
  rw [entry, setEntry, cache_setCache_same]
  exact update_self ..

lemma entry_setEntry_of_ne (h : ¬ (d = c ∧ j = i)) : (s.setEntry c i e).entry d j = s.entry d j := by
  by_cases hc : d = c
  · subst hc
    rw [entry, setEntry, cache_setCache_same]
    exact update_of_ne (fun hj => h ⟨rfl, hj⟩) ..
  · rw [entry, setEntry, cache_setCache_of_ne s hc, entry]

lemma cache_setEntry : ((s.setEntry c i e).cache d).size = (s.cache d).size ∧
    ((s.setEntry c i e).cache d).depends = (s.cache d).depends := by
  by_cases hc : d = c
  · subst hc
    rw [setEntry, cache_setCache_same]
    exact ⟨rfl, rfl⟩
  · rw [setEntry, cache_setCache_of_ne s hc]
    exact ⟨rfl, rfl⟩

lemma setEntry_setEntry (e' : CachedTable α) : (s.setEntry c i e).setEntry c i e' = s.setEntry c i e' := by
  rw [setEntry, setEntry, cache_setCache_same]
  rw [update_idem, setCache, setCache, setEntry, setCache]
  rw [update_idem]

@[simp] lemma size_setEntry : ((s.setEntry c i e).cache d).size = (s.cache d).size :=
  (s.cache_setEntry).1

@[simp] lemma depends_setEntry : ((s.setEntry c i e).cache d).depends = (s.cache d).depends :=
  (s.cache_setEntry).2

@[simp] lemma entry_written_same :
    (s.written c i).entry c i = { s.entry c i with dirty := false } :=
  s.entry_setEntry_same

lemma entry_written_of_ne (h : ¬ (d = c ∧ j = i)) : (s.written c i).entry d j = s.entry d j :=
  s.entry_setEntry_of_ne h

lemma entry_setCache (hentries : cache.entries = (s.cache c).entries) :
    (s.setCache c cache).entry d j = s.entry d j := by
  by_cases hc : d = c
  · subst hc
    rw [entry, cache_setCache_same, hentries, entry]
  · rw [entry, cache_setCache_of_ne s hc, entry]

lemma size_setCache (hsize : cache.size = (s.cache c).size) :
    ((s.setCache c cache).cache d).size = (s.cache d).size := by
  by_cases hc : d = c
  · subst hc
    rw [cache_setCache_same, hsize]
  · rw [cache_setCache_of_ne s hc]
end

/-! ## Flushing -/

variable {s s' s'' : Caches α} {c d : CacheId} {i n : Nat} {ret : Int}

structure Flushing (s s' : Caches α) : Prop where
  size : ∀ c, (s'.cache c).size = (s.cache c).size
  entry : ∀ c i, s'.entry c i = { s.entry c i with dirty := (s'.entry c i).dirty }
  dirty : ∀ c i, (s'.entry c i).dirty = true → (s.entry c i).dirty = true
  depends : ∀ c, (s'.cache c).depends = none ∨ (s'.cache c).depends = (s.cache c).depends
  results : s'.results = s.results

lemma Flushing.refl (s : Caches α) : Flushing s s :=
  ⟨fun _ => rfl, fun _ _ => rfl, fun _ _ h => h, fun _ => .inr rfl, rfl⟩

lemma Flushing.trans (h : Flushing s s') (h' : Flushing s' s'') : Flushing s s'' where
  size c := (h'.size c).trans (h.size c)
  entry c i := by rw [h'.entry c i, h.entry c i]
  dirty c i hdirty := h.dirty c i (h'.dirty c i hdirty)
  depends c := by
    rcases h'.depends c with hnone | hsame
    · exact .inl hnone
    · rw [hsame]
      exact h.depends c
  results := h'.results.trans h.results

lemma Flushing.offset (h : Flushing s s') (c : CacheId) (i : Nat) :
    (s'.entry c i).offset = (s.entry c i).offset := by
  rw [h.entry c i]

lemma Flushing.clean (h : Flushing s s')
    (hclean : (s.entry c i).dirty = true → (s.entry c i).offset = 0) :
    (s'.entry c i).dirty = true → (s'.entry c i).offset = 0 := by
  intro hdirty
  rw [h.offset]
  exact hclean (h.dirty c i hdirty)

lemma Flushing.setCache {cache : Cache α} (hentries : cache.entries = (s.cache c).entries)
    (hsize : cache.size = (s.cache c).size)
    (hdepends : cache.depends = none ∨ cache.depends = (s.cache c).depends) :
    Flushing s (s.setCache c cache) where
  size _ := s.size_setCache hsize
  entry d j := by rw [s.entry_setCache hentries]
  dirty d j hdirty := by rwa [s.entry_setCache hentries] at hdirty
  depends d := by
    by_cases hd : d = c
    · subst hd
      rwa [cache_setCache_same]
    · exact .inr (by rw [s.cache_setCache_of_ne hd])
  results := rfl

lemma FlushMove.flushing (h : FlushMove s s') : Flushing s s' := by
  cases h with
  | request | flush => exact ⟨fun _ => rfl, fun _ _ => rfl, fun _ _ h => h, fun _ => .inr rfl, rfl⟩
  | write c i hi hdepends hoffset =>
    refine ⟨fun d => s.size_setEntry, fun d j => ?_, fun d j hj => ?_,
      fun d => .inr s.depends_setEntry, rfl⟩
    · by_cases heq : d = c ∧ j = i
      · obtain ⟨rfl, rfl⟩ := heq
        rw [entry_written_same]
      · rw [entry_written_of_ne s heq]
    by_cases heq : d = c ∧ j = i
    · obtain ⟨rfl, rfl⟩ := heq
      rw [entry_written_same] at hj
      cases hj
    · rwa [entry_written_of_ne s heq] at hj
  | clearFlag c => exact .setCache rfl rfl (.inr rfl)
  | clearDepends c d => exact .setCache rfl rfl (.inl rfl)

lemma FlushMoves.flushing (h : FlushMoves s s') : Flushing s s' := by
  induction h with
  | refl => exact .refl s
  | tail _ hmove ih => exact ih.trans hmove.flushing

def Flushed (s : Caches α) (c : CacheId) : Prop := s.Clean c ∧ ∃ l, s.log = .flush :: l

def FlushSpec (flush : CacheId → Caches α → Option (Int × Caches α)) : Prop :=
  ∀ c s ret s', flush c s = some (ret, s') → FlushMoves s s' ∧ (0 ≤ ret → s'.Flushed c)

lemma bdrvFlush_moves (s : Caches α) : FlushMoves s s.bdrvFlush.2 := by
  refine .head (.request s) ?_
  unfold bdrvFlush request
  dsimp only
  split
  · exact .refl
  · exact .single (.flush _)

lemma bdrvFlush_flushed (h : 0 ≤ s.bdrvFlush.1) : ∃ l, s.bdrvFlush.2.log = .flush :: l := by
  unfold bdrvFlush request at h ⊢
  dsimp only at h ⊢
  rw [if_neg (Int.not_lt.mpr h)]
  exact ⟨_, rfl⟩

section
variable {flush : CacheId → Caches α → Option (Int × Caches α)} (hflush : FlushSpec flush)
include hflush

lemma flushDependency_spec (h : s.flushDependency flush c = some (ret, s')) :
    FlushMoves s s' ∧ (0 ≤ ret → (s'.cache c).depends = none) := by
  obtain ⟨d, hd, h⟩ := bind_eq_some_iff.mp h
  obtain ⟨⟨r, mid⟩, hrun, h⟩ := bind_eq_some_iff.mp h
  obtain ⟨hmoves, hflushed⟩ := hflush d s r mid hrun
  dsimp only at h
  split at h
  next hneg =>
    cases h
    exact ⟨hmoves, fun hpos => absurd hneg (Int.not_lt.mpr hpos)⟩
  rename_i hpos
  cases h
  obtain ⟨hclean, hlog⟩ := hflushed (Int.not_lt.mp hpos)
  refine ⟨?_, fun _ => by rw [cache_setCache_same]⟩
  rcases hmoves.flushing.depends c with hnone | hsame
  · -- the recursive call has cleared it already
    have hflag := FlushMove.clearFlag mid c
    rw [show ({ mid.cache c with dependsOnFlush := false } : Cache α) =
      { mid.cache c with depends := none, dependsOnFlush := false } by rw [← hnone]] at hflag
    exact hmoves.tail hflag
  · exact hmoves.tail (.clearDepends mid c d (hsame.trans hd) hclean hlog)

lemma flushBefore_spec (h : s.flushBefore flush c = some (ret, s')) :
    FlushMoves s s' ∧ (0 ≤ ret → (s'.cache c).depends = none) := by
  unfold flushBefore at h
  split at h
  · exact flushDependency_spec hflush h
  rename_i hdepends
  have hnone : (s.cache c).depends = none := by simpa using hdepends
  split at h
  · cases h
    have hmoves := bdrvFlush_moves s
    have hkept : ((s.bdrvFlush.2).cache c).depends = none := by
      rcases hmoves.flushing.depends c with hkept | hkept
      · exact hkept
      · exact hkept.trans hnone
    split
    · exact ⟨hmoves.tail (.clearFlag _ c), fun _ => by rw [cache_setCache_same]; exact hkept⟩
    · exact ⟨hmoves, fun _ => hkept⟩
  · cases h
    exact ⟨.refl, fun _ => hnone⟩

lemma entryFlush_spec (hi : i < (s.cache c).size) (h : s.entryFlush flush c i = some (ret, s')) :
    FlushMoves s s' ∧ (0 ≤ ret → (s'.entry c i).dirty = true → (s'.entry c i).offset = 0) := by
  unfold entryFlush at h
  split at h
  next hskip =>
    cases h
    refine ⟨.refl, fun _ hdirty => hskip.resolve_left ?_⟩
    rw [hdirty]
    exact Bool.noConfusion
  rename_i hwrite
  have hoffset : (s.entry c i).offset ≠ 0 := fun hzero => hwrite (.inr hzero)
  obtain ⟨⟨r, mid⟩, hbefore, h⟩ := bind_eq_some_iff.mp h
  obtain ⟨hmoves, hdepends⟩ := flushBefore_spec hflush hbefore
  have hflushing := hmoves.flushing
  dsimp only at h
  split at h
  next hneg =>
    cases h
    exact ⟨hmoves, fun hpos => absurd hneg (Int.not_lt.mpr hpos)⟩
  rename_i hpos
  have hchecked := hmoves.tail (.request mid)
  split at h
  next hneg =>
    cases h
    exact ⟨hchecked, fun hpos => absurd hneg (Int.not_lt.mpr hpos)⟩
  unfold pwriteTable request at h
  dsimp only at h
  have hrequested := hchecked.tail (.request _)
  split at h
  next hneg =>
    cases h
    exact ⟨hrequested, fun hpos => absurd hneg (Int.not_lt.mpr hpos)⟩
  cases h
  refine ⟨hrequested.tail (.write _ c i ?_ (hdepends (Int.not_lt.mp hpos)) ?_), fun _ hdirty => ?_⟩
  · exact (hflushing.size c).symm ▸ hi
  · exact (hflushing.offset c i).symm ▸ hoffset
  · rw [entry_setEntry_same] at hdirty
    cases hdirty

lemma flushEntries_spec (hn : n ≤ (s.cache c).size)
    (h : s.flushEntries flush c n = some (ret, s')) : FlushMoves s s' ∧ ret ≤ 0 ∧
      (0 ≤ ret → ∀ i < n, (s'.entry c i).dirty = true → (s'.entry c i).offset = 0) := by
  induction n generalizing s' ret with
  | zero =>
    cases h
    exact ⟨.refl, Int.le_refl 0, fun _ i hi => absurd hi (Nat.not_lt_zero i)⟩
  | succ n ih =>
    obtain ⟨⟨result, mid⟩, hrest, h⟩ := bind_eq_some_iff.mp h
    obtain ⟨⟨r, last⟩, hentry, h⟩ := bind_eq_some_iff.mp h
    cases h
    obtain ⟨hmoves, hresult, hclean⟩ := ih (le_of_succ_le hn) hrest
    obtain ⟨hmoves', hclean'⟩ := entryFlush_spec hflush ((hmoves.flushing.size c).symm ▸ hn) hentry
    refine ⟨hmoves.trans hmoves', ?_, fun hret i hi => ?_⟩
    · split <;> omega
    have hok : 0 ≤ result ∧ 0 ≤ r := by
      unfold enospc at hret
      split at hret <;> omega
    rcases Nat.lt_succ_iff_lt_or_eq.mp hi with hlt | rfl
    · exact hmoves'.flushing.clean (hclean hok.1 i hlt)
    · exact hclean' hok.2
end

lemma cacheFlush_spec (fuel : Nat) : FlushSpec (cacheFlush (α := α) fuel) := by
  induction fuel with
  | zero => exact fun c s ret s' h => by cases h
  | succ fuel ih =>
    intro c s ret s' h
    obtain ⟨⟨result, mid⟩, hloop, h⟩ := bind_eq_some_iff.mp h
    obtain ⟨hmoves, hresult, hclean⟩ := flushEntries_spec ih (Nat.le_refl _) hloop
    dsimp only at h
    split at h
    next hzero =>
      cases h
      have hlast := bdrvFlush_moves mid
      refine ⟨hmoves.trans hlast, fun hret => ⟨fun i hi => ?_, ?_⟩⟩
      · rw [hlast.flushing.size, hmoves.flushing.size] at hi
        exact hlast.flushing.clean (hclean (Int.le_of_eq hzero.symm) i hi)
      · refine bdrvFlush_flushed (Int.not_lt.mp fun hneg => ?_)
        rw [if_pos hneg] at hret
        omega
    next hzero =>
      cases h
      exact ⟨hmoves, fun hpos => absurd (Int.le_antisymm hresult hpos) hzero⟩

/-! ## Operations as moves -/

variable {owns : CacheId → Nat → Prop} {blank : Nat → Prop}

lemma FlushMoves.moves (h : FlushMoves s s') : Moves owns blank s s' :=
  ReflTransGen.mono (fun _ _ => Move.flush) s s' h

lemma setDependency_moves (h : s.setDependency c = some (ret, s')) : Moves owns blank s s' := by
  obtain ⟨⟨r, first⟩, hfirst, h⟩ := bind_eq_some_iff.mp h
  have hother : FlushMoves s first ∧ (0 ≤ r → (first.cache c.other).depends = none) := by
    unfold flushDependencyIf at hfirst
    split at hfirst
    · exact flushDependency_spec (cacheFlush_spec 2) hfirst
    next hdepends =>
      cases hfirst
      exact ⟨.refl, fun _ => by simpa using hdepends⟩
  dsimp only at h
  split at h
  · cases h
    exact hother.1.moves
  rename_i hpos
  obtain ⟨⟨r', second⟩, hsecond, h⟩ := bind_eq_some_iff.mp h
  have hthis : FlushMoves first second ∧ (0 ≤ r' → (second.cache c).depends = none ∨
      (second.cache c).depends = some c.other) := by
    unfold flushDependencyIf at hsecond
    split at hsecond
    · obtain ⟨hmoves, hnone⟩ := flushDependency_spec (cacheFlush_spec 2) hsecond
      exact ⟨hmoves, fun hr => .inl (hnone hr)⟩
    rename_i hdepends
    cases hsecond
    refine ⟨.refl, fun _ => ?_⟩
    cases hd : (first.cache c).depends with
    | none => exact .inl rfl
    | some d => exact .inr (by_contra fun hne => hdepends (by simp [hd, hne]))
  have hmoves : Moves owns blank s second := FlushMoves.moves (hother.1.trans hthis.1)
  split at h
  · cases h
    exact hmoves
  rename_i hpos'
  cases h
  refine hmoves.tail (.depend second c ?_ (hthis.2 (Int.not_lt.mp hpos')))
  have hnone := hother.2 (Int.not_lt.mp hpos)
  rcases hthis.1.flushing.depends c.other with hkept | hkept
  · exact hkept
  · exact hkept.trans hnone

lemma emptyEntries_moves (hclean : s.Clean c) (hn : n ≤ (s.cache c).size)
    (h : s.emptyEntries c n = some s') :
    Moves owns blank s s' ∧ (∀ d, (s'.cache d).size = (s.cache d).size) ∧
      ∀ j, n ≤ j → s'.entry c j = s.entry c j := by
  induction n generalizing s' with
  | zero =>
    cases h
    exact ⟨.refl, fun _ => rfl, fun _ _ => rfl⟩
  | succ n ih =>
    obtain ⟨mid, hrest, h⟩ := bind_eq_some_iff.mp h
    obtain ⟨hmoves, hsize, hkept⟩ := ih (le_of_succ_le hn) hrest
    split at h
    next href =>
      cases h
      refine ⟨hmoves.tail (.evict mid c n 0 ?_ href ?_), fun d => ?_, fun j hj => ?_⟩
      · rwa [hsize]
      · rw [hkept n (Nat.le_refl n)]
        exact hclean n hn
      · rw [size_setEntry, hsize]
      · rw [entry_setEntry_of_ne _ (by omega), hkept j (le_of_succ_le hj)]
    · cases h

lemma empty_moves (h : s.empty c = some (ret, s')) : Moves owns blank s s' := by
  obtain ⟨⟨r, mid⟩, hrun, h⟩ := bind_eq_some_iff.mp h
  obtain ⟨hmoves, hflushed⟩ := cacheFlush_spec 2 c s r mid hrun
  dsimp only at h
  split at h
  · cases h
    exact hmoves.moves
  next hpos =>
    obtain ⟨last, hempty, h⟩ := bind_eq_some_iff.mp h
    cases h
    have hclean := (hflushed (Int.not_lt.mp hpos)).1
    exact hmoves.moves.trans (emptyEntries_moves hclean (Nat.le_refl _) hempty).1

structure Aged (s s' : Caches α) : Prop where
  cache : ∀ c, (s'.cache c).size = (s.cache c).size ∧ (s'.cache c).depends = (s.cache c).depends
  entry : ∀ c i, s'.entry c i = { s.entry c i with cacheHits := (s'.entry c i).cacheHits }
  results : s'.results = s.results

lemma findLoop_spec (hn : n ≤ (s.cache c).size) :
    Moves owns blank s (s.findLoop c n).2.2 ∧ Aged s (s.findLoop c n).2.2 ∧
      ∀ i, (s.findLoop c n).2.1 = some i → i < n ∧ (s.entry c i).ref = 0 := by
  induction n with
  | zero => exact ⟨.refl, ⟨fun _ => ⟨rfl, rfl⟩, fun _ _ => rfl, rfl⟩, fun i hi => by cases hi⟩
  | succ n ih =>
    have ih := ih (le_of_succ_le hn)
    unfold findLoop
    generalize s.findLoop c n = r at ih ⊢
    obtain ⟨minCount, minIndex, mid⟩ := r
    obtain ⟨hmoves, haged, hfound⟩ := ih
    have hstay : ∀ i, minIndex = some i → i < n + 1 ∧ (s.entry c i).ref = 0 := fun i hi =>
      ⟨lt_succ_of_lt (hfound i hi).1, (hfound i hi).2⟩
    dsimp only at hmoves haged ⊢
    split
    · exact ⟨hmoves, haged, hstay⟩
    rename_i href
    have href' : (s.entry c n).ref = 0 := by
      rw [haged.entry c n] at href
      simpa using href
    have hmoves' : Moves owns blank s _ := hmoves.tail (.age mid c n ((mid.entry c n).cacheHits / 2)
      ((haged.cache c).1.symm ▸ hn))
    have haged' : Aged s (mid.setEntry c n { mid.entry c n with
        cacheHits := (mid.entry c n).cacheHits / 2 }) := by
      refine ⟨fun d => ?_, fun d j => ?_, haged.results⟩
      · rw [size_setEntry, depends_setEntry]
        exact haged.cache d
      by_cases heq : d = c ∧ j = n
      · obtain ⟨rfl, rfl⟩ := heq
        rw [entry_setEntry_same, haged.entry d j]
      · rw [entry_setEntry_of_ne _ heq, haged.entry d j]
    split
    · refine ⟨hmoves', haged', fun i hi => ?_⟩
      cases hi
      exact ⟨lt_succ_self n, href'⟩
    · exact ⟨hmoves', haged', hstay⟩

lemma Aged.offset (h : Aged s s') (c : CacheId) (i : Nat) :
    (s'.entry c i).offset = (s.entry c i).offset := by
  rw [h.entry c i]

lemma findEntryToReplace_spec (h : s.findEntryToReplace c = some (i, s')) :
    Moves owns blank s s' ∧ Aged s s' ∧ i < (s.cache c).size ∧ (s'.entry c i).ref = 0 := by
  obtain ⟨hmoves, haged, hfound⟩ : Moves owns blank s _ ∧ _ ∧ _ := findLoop_spec (Nat.le_refl (s.cache c).size)
  unfold findEntryToReplace at h
  split at h
  next hloop =>
    cases h
    rw [hloop] at hmoves haged hfound
    obtain ⟨hi, href⟩ := hfound i rfl
    exact ⟨hmoves, haged, hi, by rw [haged.entry c i]; exact href⟩
  · cases h

variable {offset : Nat} {t : Option Nat}

lemma lookup_eq_some (h : s.lookup c offset = some i) :
    i < (s.cache c).size ∧ (s.entry c i).offset = offset :=
  ⟨List.mem_range.mp (List.mem_of_find?_eq_some h), by simpa using List.find?_some h⟩

lemma lookup_eq_none :
    s.lookup c offset = none ↔ ∀ j < (s.cache c).size, (s.entry c j).offset ≠ offset := by
  simp [lookup]

lemma found_spec (hi : i < (s.cache c).size) (hoffset : offset ≠ 0)
    (heq : (s.entry c i).offset = offset) (h : s.found c i = some (ret, t, s')) :
    Moves owns blank s s' ∧ t = some i ∧ i < (s'.cache c).size ∧ (s'.entry c i).offset = offset := by
  unfold found at h
  dsimp only at h
  split at h
  · cases h
  cases h
  refine ⟨.single (.take s c i hi (heq.symm ▸ hoffset)), rfl, ?_, ?_⟩
  · rwa [size_setEntry]
  · rw [entry_setEntry_same]
    exact heq

lemma load_spec (table : α) (hi : i < (s.cache c).size) (href : (s.entry c i).ref = 0)
    (hempty : (s.entry c i).offset = 0) (hoffset : offset ≠ 0) (howns : owns c offset)
    (hnew : ∀ j < (s.cache c).size, (s.entry c j).offset ≠ offset)
    (htable : table = s.file offset ∨ blank offset)
    (h : (s.setEntry c i { s.entry c i with table := table, cacheHits := 32, offset := offset }).found c i =
      some (ret, t, s')) :
    Moves owns blank s s' ∧ ∀ j, t = some j → j < (s'.cache c).size ∧ (s'.entry c j).offset = offset := by
  have hload : Move owns blank s _ := .load s c i offset table hi href hempty hoffset howns hnew htable
  have hsize : i < ((s.setEntry c i { s.entry c i with
      table := table, cacheHits := 32, offset := offset }).cache c).size := by
    rwa [size_setEntry]
  obtain ⟨hmoves, ht, hfound⟩ := found_spec hsize hoffset (by rw [entry_setEntry_same]) h
  refine ⟨.head hload hmoves, fun j hj => ?_⟩
  cases ht.symm.trans hj
  exact hfound

lemma replace_spec {readFromDisk : Bool} (hi : i < (s.cache c).size)
    (href : (s.entry c i).ref = 0) (hoffset : offset ≠ 0) (howns : owns c offset)
    (hnew : ∀ j < (s.cache c).size, (s.entry c j).offset ≠ offset)
    (hblank : readFromDisk = false → blank offset)
    (h : s.replace c i offset readFromDisk = some (ret, t, s')) :
    Moves owns blank s s' ∧ ∀ j, t = some j → j < (s'.cache c).size ∧ (s'.entry c j).offset = offset := by
  obtain ⟨⟨r, mid⟩, hflush, h⟩ := bind_eq_some_iff.mp h
  obtain ⟨hmoves, hclean⟩ := entryFlush_spec (cacheFlush_spec 2) hi hflush
  have hflushing := hmoves.flushing
  have hsize := hflushing.size c
  dsimp only at h
  split at h
  · cases h
    exact ⟨hmoves.moves, fun j hj => by cases hj⟩
  rename_i hpos
  have href' : (mid.entry c i).ref = 0 := by
    rwa [hflushing.entry c i]
  have hempty : Moves owns blank s (mid.setEntry c i { mid.entry c i with offset := 0 }) :=
    hmoves.moves.tail (.evict mid c i (mid.entry c i).cacheHits (hsize.symm ▸ hi) href'
      (hclean (Int.not_lt.mp hpos)))
  -- the entry that has been emptied
  have hi' : i < ((mid.setEntry c i { mid.entry c i with offset := 0 }).cache c).size := by
    rwa [size_setEntry, hsize]
  have hentry := mid.entry_setEntry_same (c := c) (i := i) (e := { mid.entry c i with offset := 0 })
  have hnew' : ∀ j < ((mid.setEntry c i { mid.entry c i with offset := 0 }).cache c).size,
      ((mid.setEntry c i { mid.entry c i with offset := 0 }).entry c j).offset ≠ offset := by
    intro j hj
    rw [size_setEntry, hsize] at hj
    by_cases hji : j = i
    · subst hji
      rw [hentry]
      exact hoffset.symm
    · rw [entry_setEntry_of_ne _ (fun hc => hji hc.2), hflushing.offset]
      exact hnew j hj
  have href'' : ((mid.setEntry c i { mid.entry c i with offset := 0 }).entry c i).ref = 0 := by
    rwa [hentry]
  have hzero : ((mid.setEntry c i { mid.entry c i with offset := 0 }).entry c i).offset = 0 := by
    rw [hentry]
  generalize mid.setEntry c i { mid.entry c i with offset := 0 } = last at h hempty hi' hnew' href'' hzero
  cases readFromDisk with
  | false =>
    obtain ⟨hmoves', hresult⟩ := load_spec (last.entry c i).table hi' href'' hzero hoffset
      howns hnew' (.inr (hblank rfl)) h
    exact ⟨hempty.trans hmoves', hresult⟩
  | true =>
    have hrequest := hempty.tail (.flush (.request last))
    rw [if_pos rfl] at h
    unfold preadTable request at h
    dsimp only at h
    split at h
    · cases h
      exact ⟨hrequest, fun j hj => by cases hj⟩
    rw [setEntry_setEntry, entry_setEntry_same] at h
    obtain ⟨hmoves', hresult⟩ := load_spec (s := { last with done := last.done + 1 })
      (last.file offset) hi' href'' hzero hoffset howns hnew' (.inl rfl) h
    exact ⟨hrequest.trans hmoves', hresult⟩

lemma doGet_spec {readFromDisk : Bool} (hoffset : offset ≠ 0) (howns : owns c offset)
    (hblank : readFromDisk = false → s.lookup c offset = none → blank offset)
    (h : s.doGet c offset readFromDisk = some (ret, t, s')) :
    Moves owns blank s s' ∧ ∀ j, t = some j → j < (s'.cache c).size ∧ (s'.entry c j).offset = offset := by
  unfold doGet at h
  split at h
  next i hlookup =>
    obtain ⟨hi, heq⟩ := lookup_eq_some hlookup
    obtain ⟨hmoves, ht, hfound⟩ := found_spec hi hoffset heq h
    refine ⟨hmoves, fun j hj => ?_⟩
    cases ht.symm.trans hj
    exact hfound
  next hlookup =>
    obtain ⟨⟨i, mid⟩, hfind, h⟩ := bind_eq_some_iff.mp h
    obtain ⟨hmoves, haged, hi, href⟩ := findEntryToReplace_spec hfind
    have hsize := (haged.cache c).1
    have hnew : ∀ j < (mid.cache c).size, (mid.entry c j).offset ≠ offset := by
      intro j hj
      rw [hsize] at hj
      rw [haged.offset]
      exact lookup_eq_none.mp hlookup j hj
    obtain ⟨hmoves', hresult⟩ := replace_spec (hsize.symm ▸ hi) href hoffset howns hnew
      (fun hread => hblank hread hlookup) h
    exact ⟨hmoves.trans hmoves', hresult⟩

lemma modify_eq_some {table : α} (h : s.modify c i table = some s') :
    i < (s.cache c).size ∧ (s.entry c i).ref ≠ 0 ∧
      s' = s.setEntry c i { s.entry c i with table := table, dirty := true } := by
  unfold modify at h
  split at h
  next hused => exact ⟨hused.1, hused.2, (Option.some.inj h).symm⟩
  · cases h

lemma put_eq_some (h : s.put c i = some s') : i < (s.cache c).size ∧ (s.entry c i).ref ≠ 0 ∧
      s' = s.setEntry c i { s.entry c i with ref := (s.entry c i).ref - 1 } := by
  unfold put at h
  split at h
  next hused => exact ⟨hused.1, hused.2, (Option.some.inj h).symm⟩
  · cases h

/-- The operations that load tables may do so: at the offsets of the cache, and without reading
only if the table is blank. -/
def Allowed (owns : CacheId → Nat → Prop) (blank : Nat → Prop) (s : Caches α) : CacheOp α → Prop
  | .get c offset => owns c offset
  | .getEmpty c offset => owns c offset ∧ (s.lookup c offset = none → blank offset)
  | _ => True

lemma step_moves {op : CacheOp α} (hallowed : Allowed owns blank s op)
    (h : s.step op = some (ret, s')) :
    (Moves owns blank s s' ∧ ∀ c i table, op ≠ .modify c i table) ∨
      (∃ c i table, op = .modify c i table ∧ s.modify c i table = some s') ∨
      ∃ c i, op = .put c i ∧ s.put c i = some s' := by
  cases op with
  | get c offset =>
    dsimp only [step] at h
    split at h
    · cases h
    next hoffset =>
      obtain ⟨⟨r, t, last⟩, hget, heq⟩ := map_eq_some_iff.mp h
      cases heq
      exact .inl ⟨(doGet_spec hoffset hallowed (fun hread => by cases hread) hget).1, nofun⟩
  | getEmpty c offset =>
    dsimp only [step] at h
    split at h
    · cases h
    next hoffset =>
      obtain ⟨⟨r, t, last⟩, hget, heq⟩ := map_eq_some_iff.mp h
      cases heq
      exact .inl ⟨(doGet_spec hoffset hallowed.1 (fun _ => hallowed.2) hget).1, nofun⟩
  | modify c i table =>
    obtain ⟨last, hmodify, heq⟩ := map_eq_some_iff.mp h
    cases heq
    exact .inr (.inl ⟨c, i, table, rfl, hmodify⟩)
  | put c i =>
    obtain ⟨last, hput, heq⟩ := map_eq_some_iff.mp h
    cases heq
    exact .inr (.inr ⟨c, i, rfl, hput⟩)
  | flush c => exact .inl ⟨(cacheFlush_spec 2 c s ret s' h).1.moves, nofun⟩
  | empty c => exact .inl ⟨empty_moves h, nofun⟩
  | setDependency c => exact .inl ⟨setDependency_moves h, nofun⟩
  | dependsOnFlush c =>
    cases h
    exact .inl ⟨.single (.setFlag s c), nofun⟩

end Caches

end QemuVmi.Qcow2
