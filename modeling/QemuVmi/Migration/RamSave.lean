import QemuVmi.Migration.RamLoad

/-!
# Saving RAM

The source side of the migration of RAM in `arch_init.c`: `ram_save_setup`, `ram_save_iterate`,
`ram_save_pending` and `ram_save_complete` with `ram_save_block`, `save_xbzrle_page` and the page cache.
The guest runs meanwhile. It may write pages between any two calls, and inside of a call wherever the
code looks at a page (`pause`): between the test for zeros, the copy to the cache and the copy to the
encoder. A page that is put in the stream with `qemu_put_buffer_async` is read only when the stream is
flushed.

There is no RDMA, no error of an allocation or of the stream, and no block is added or removed. `none`
stands for a failed assertion and for a loop that does not end.
-/

namespace QemuVmi.Migration

open ByteRegion

/-- A block: its name, its first page in the space of RAM addresses and its length in pages. -/
structure SaveBlock where
  idstr : List UInt8
  base : Nat
  pages : Nat
deriving DecidableEq, Repr

/-- The blocks of `ram_list`. -/
structure Layout where
  blocks : List SaveBlock
  nonempty : 0 < blocks.length
  pages_pos : ∀ block ∈ blocks, 0 < block.pages
  total_lt : (blocks.map fun block => block.pages * targetPageSize).sum < 2 ^ 64
  disjoint : blocks.Pairwise fun a b => a.base + a.pages ≤ b.base ∨ b.base + b.pages ≤ a.base
  names : (blocks.map SaveBlock.idstr).Nodup
  no_zero : ∀ block ∈ blocks, ∀ c ∈ block.idstr, c ≠ 0

namespace Layout

variable (L : Layout)

def pages (b : Nat) : Nat := (L.blocks[b]?.map SaveBlock.pages).getD 0

def nr (b i : Nat) : Nat := (L.blocks[b]?.map SaveBlock.base).getD 0 + i

def Valid (b i : Nat) : Prop := b < L.blocks.length ∧ i < L.pages b

def allPages : List (Nat × Nat) :=
  (List.range L.blocks.length).flatMap fun b => (List.range (L.pages b)).map fun i => (b, i)

def ramBlocks : List RAMBlock :=
  L.blocks.map fun block => ⟨block.idstr, block.pages * targetPageSize⟩

/-- `ram_bytes_total` -/
def bytesTotal : Nat := (L.blocks.map fun block => block.pages * targetPageSize).sum

end Layout

/-- `PageCache`: an item has the address and the data of a page. -/
structure PageCache where
  maxNumItems : Nat
  items : Nat → Option (Nat × Region)

def cacheInit (numPages : Nat) : PageCache := ⟨2 ^ Nat.log2 numPages, fun _ => none⟩

section
variable (cache : PageCache)

/-- `cache_get_cache_pos` -/
def PageCache.pos (addr : Nat) : Nat := addr &&& (cache.maxNumItems - 1)

/-- `cache_is_cached` -/
def PageCache.isCached (addr : Nat) : Bool :=
  match cache.items (cache.pos addr) with
  | none => false
  | some item => item.1 = addr

/-- `get_cached_data` -/
def PageCache.data (addr : Nat) : Option Region :=
  (cache.items (cache.pos addr)).map Prod.snd

/-- `cache_insert`, and a store to the data of a page that is cached. -/
def PageCache.insert (addr : Nat) (data : Region) : PageCache :=
  { cache with
    items := fun pos => if pos = cache.pos addr then some (addr, data) else cache.items pos }
end

/-- What is put in the stream. `cont` says that the block is the last one that was named. -/
inductive Item
  | memSize
  | eos
  | zero (cont : Bool) (b i : Nat)
  | page (cont : Bool) (b i : Nat) (data : Region)
  | live (cont : Bool) (b i : Nat)
  | xbzrle (cont : Bool) (b i len : Nat) (encoded : Region)

structure PageWrite where
  block : Nat
  page : Nat
  data : Region

structure SaveState where
  mem : Nat → Region
  /-- `ram_list.dirty_memory[DIRTY_MEMORY_MIGRATION]` -/
  dirtyLog : Nat → Bool
  /-- `migration_bitmap` -/
  bitmap : Nat → Bool
  lastSeen : Option Nat
  lastSent : Option Nat
  /-- `last_offset`, in pages. -/
  lastOffset : Nat
  /-- `ram_bulk_stage` -/
  bulk : Bool
  /-- `XBZRLE.cache`, with `migrate_use_xbzrle`. -/
  cache : Option PageCache
  stream : List Item
  running : Bool
  guest : List (List PageWrite)

def pageOf (mem : Nat → Region) (b i : Nat) : Region := fun k => mem b (i * targetPageSize + k)

def guestWrite (L : Layout) (w : SaveState) (write : PageWrite) : SaveState :=
  { w with
    mem := fun b =>
      if b = write.block then copy (w.mem b) (write.page * targetPageSize) targetPageSize write.data
      else w.mem b
    dirtyLog := fun n => n = L.nr write.block write.page || w.dirtyLog n }

def guestWrites (L : Layout) (w : SaveState) (writes : List PageWrite) : SaveState :=
  writes.foldl (guestWrite L) w

def pause (L : Layout) (w : SaveState) : SaveState :=
  if w.running then
    match w.guest with
    | [] => w
    | writes :: guest => guestWrites L { w with guest := guest } writes
  else w

def emit (w : SaveState) (item : Item) : SaveState := { w with stream := w.stream ++ [item] }

def flush (w : SaveState) : SaveState :=
  { w with stream := w.stream.map fun item =>
      match item with
      | .live cont b i => .page cont b i (pageOf w.mem b i)
      | item => item }

section
variable (L : Layout) (W : Nat) (last : Bool) (w : SaveState)

/-- `save_xbzrle_page` and what `ram_save_block` does after it: whether something was sent. -/
def saveXbzrlePage (b i : Nat) (cache : PageCache) :
    Option (SaveState × Bool) :=
  let addr := L.nr b i
  let cont := w.lastSent = some b
  if !cache.isCached addr then
    if last then some (emit w (.live cont b i), true)
    else
      let w := pause L w
      let data := pageOf w.mem b i
      some (emit { w with cache := some (cache.insert addr data) } (.page cont b i data), true)
  else do
    let prev ← cache.data addr
    let w := pause L w
    let current := pageOf w.mem b i
    let (len, out) ← xbzrleEncodeBuffer W prev current targetPageSize (fun _ => 0#8) targetPageSize
    if len = 0 then some (w, false)
    else if len = -1 then
      let w := pause L w
      let data := pageOf w.mem b i
      let w := { w with cache := some (cache.insert addr data) }
      some (emit w (if last then .live cont b i else .page cont b i data), true)
    else
      let w := if last then w else { w with cache := some (cache.insert addr current) }
      some (emit w (.xbzrle cont b i len.toNat out.mem), true)

/-- The part of `ram_save_block` for a page: whether something was sent. -/
def savePage (b i : Nat) : Option (SaveState × Bool) :=
  let w := pause L w
  let cont := w.lastSent = some b
  if isZeroRange (w.mem b) (i * targetPageSize) targetPageSize then
    let w := emit w (.zero cont b i)
    match w.cache with
    | none => some (w, true)
    | some cache =>
      -- xbzrle_cache_zero_page
      if w.bulk then some (w, true)
      else some ({ w with cache := some (cache.insert (L.nr b i) fun _ => 0#8) }, true)
  else
    match w.cache with
    | none => some (emit w (.live cont b i), true)
    | some cache =>
      if w.bulk then some (emit w (.live cont b i), true) else saveXbzrlePage L W last w b i cache

/-- `find_next_bit` among `size` bits. -/
def findNextBit (bit : Nat → Bool) (size start : Nat) : Nat :=
  ((List.range' start (size - start)).find? bit).getD size

/-- `migration_bitmap_find_and_reset_dirty` -/
def findAndResetDirty (b start : Nat) : Nat × SaveState :=
  let next :=
    if w.bulk && decide (start > 0) then start + 1
    else findNextBit (fun i => w.bitmap (L.nr b i)) (L.pages b) start
  if next < L.pages b then
    (next, { w with bitmap := fun n => if n = L.nr b next then false else w.bitmap n })
  else (next, w)

/-- What a round of the loop of `ram_save_block` comes to. -/
inductive SaveRound
  | done (w : SaveState) (sent : Bool)
  | next (w : SaveState) (b offset : Nat) (completeRound : Bool)

/-- A round of the loop at a block and an offset. -/
def saveRound (b offset : Nat) (completeRound : Bool) :
    Option SaveRound :=
  let (next, w) := findAndResetDirty L w b offset
  if completeRound && w.lastSeen == some b && decide (next ≥ w.lastOffset) then
    some (.done { w with lastSeen := some b, lastOffset := next } false)
  else if next ≥ L.pages b then
    if b + 1 < L.blocks.length then some (.next w (b + 1) 0 completeRound)
    else some (.next { w with bulk := false } 0 0 true)
  else
    (savePage L W last w b next).map fun (w, sent) =>
      if sent then
        .done { w with lastSent := some b, lastSeen := some b, lastOffset := next } true
      else .next w b next completeRound

/-- The loop of `ram_save_block` at a block and an offset: whether something was sent. -/
def saveLoop (last : Bool) : Nat → SaveState → Nat → Nat → Bool → Option (SaveState × Bool)
  | 0, _, _, _, _ => none
  | n + 1, w, b, offset, completeRound =>
    match saveRound L W last w b offset completeRound with
    | none => none
    | some (.done w sent) => some (w, sent)
    | some (.next w b offset completeRound) => saveLoop last n w b offset completeRound

/-- More rounds than the loop needs (`saveLoop_spec`). -/
def Layout.rounds : Nat := 4 * (L.allPages.length + L.blocks.length) + 4

def ramSaveBlock : Option (SaveState × Bool) :=
  saveLoop L W last L.rounds w (w.lastSeen.getD 0) w.lastOffset false

/-- Calls of `ram_save_block` until one sends nothing, `n` at most: whether that was reached. -/
def saveBlocks (last : Bool) : Nat → SaveState → Option (SaveState × Bool)
  | 0, w => some (w, false)
  | n + 1, w =>
    match ramSaveBlock L W last w with
    | none => none
    | some (w, false) => some (w, true)
    | some (w, true) => saveBlocks last n w

def migrationBitmapSync (w : SaveState) : SaveState :=
  { w with
    bitmap := fun n => w.bitmap n || w.dirtyLog n
    dirtyLog := fun _ => false }

/-- `ram_save_setup`, with the size of the cache in pages if there is one. -/
def ramSaveSetup (mem : Nat → Region) (guest : List (List PageWrite)) (cachePages : Option Nat) :
    SaveState :=
  let w : SaveState :=
    { mem := mem, dirtyLog := fun _ => false, bitmap := fun _ => true, lastSeen := none,
      lastSent := none, lastOffset := 0, bulk := true, cache := cachePages.map cacheInit, stream := [],
      running := true, guest := guest }
  emit (emit (migrationBitmapSync w) .memSize) .eos

inductive SaveOp
  | guest (writes : List PageWrite)
  /-- `ram_save_iterate`, which the rate limit ends after `n` calls of `ram_save_block`. -/
  | iterate (n : Nat)
  /-- `ram_save_pending`: whether little enough is left to look at the dirty log. -/
  | pending (sync : Bool)
  | flush
  /-- `xbzrle_cache_resize` to a number of pages. -/
  | resize (numPages : Nat)

def saveStep (w : SaveState) : SaveOp → Option SaveState
  | .guest writes => some (guestWrites L w writes)
  | .iterate n => (saveBlocks L W false n w).map fun r => emit r.1 .eos
  | .pending sync => some (if sync then migrationBitmapSync w else w)
  | .flush => some (flush w)
  | .resize numPages => some { w with cache := w.cache.map fun _ => cacheInit numPages }

def saveRun (w : SaveState) : List SaveOp → Option SaveState
  | [] => some w
  | op :: ops =>
    match saveStep L W w op with
    | none => none
    | some w => saveRun w ops

/-- `ram_save_complete` after the guest is stopped, with the end of the stream. -/
def ramSaveComplete (w : SaveState) : Option SaveState := do
  let w := migrationBitmapSync { w with running := false }
  let (w, done) ← saveBlocks L W true (L.allPages.length + 1) w
  if done then some (flush (emit w .eos)) else none
end

def toRecord (L : Layout) (mem : Nat → Region) (item : Item) : Record :=
  let base : Record := ⟨0, [], [], 0#8, fun _ => 0#8, targetPageSize, 0, 0, fun _ => 0#8, 0⟩
  -- `save_block_hdr`
  let header (cont : Bool) (b i flag : Nat) : Record :=
    { base with
      addr := UInt64.ofNat (i * targetPageSize + (if cont then ramSaveFlagContinue else 0) + flag)
      id := (L.blocks[b]?.map SaveBlock.idstr).getD [] }
  match item with
  | .memSize =>
    { base with
      addr := UInt64.ofNat (L.bytesTotal + ramSaveFlagMemSize)
      entries := L.blocks.map fun block =>
        (block.idstr, UInt64.ofNat (block.pages * targetPageSize)) }
  | .eos => { base with addr := UInt64.ofNat ramSaveFlagEos }
  | .zero cont b i => header cont b i ramSaveFlagCompress
  | .page cont b i data => { header cont b i ramSaveFlagPage with page := data }
  | .live cont b i => { header cont b i ramSaveFlagPage with page := pageOf mem b i }
  | .xbzrle cont b i len encoded =>
    { header cont b i ramSaveFlagXbzrle with
      xhFlags := encodingFlagXbzrle
      xhLen := UInt16.ofNat len
      encoded := encoded }

/-- The stream on the destination: `ram_load` is called again after each end of a section. `none` for
an error. -/
def loadStream (blocks : List RAMBlock) : LoadState → List Record → Option LoadState
  | st, [] => some st
  | st, r :: records =>
    match loadRecord blocks st r with
    | .next st => loadStream blocks st records
    | .ret code st => if code = 0 then loadStream blocks st records else none
    | .abort => none

end QemuVmi.Migration
