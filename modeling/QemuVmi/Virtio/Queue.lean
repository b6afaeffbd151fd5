import QemuVmi.Lib.Interaction

/-!
# Virtqueues

The device's side of a virtqueue in `hw/virtio/virtio.c`: the functions that take descriptor chains
from the rings in guest memory. The guest may change its memory at any time, so that every load is a
question to it (`Lib.Interaction`). A load from a descriptor table names the table it is from, with the
number of its entries, which the code holds in `max` beside `desc_pa`.

`exit(1)` stops the program. So does what must not happen at all: a division by zero, a store behind an
array, and more rounds of a loop than it is given.
-/

namespace QemuVmi.Virtio

open Interaction (Prog)

def virtqueueMaxSize : Nat := 1024

/-- `sizeof(VRingDesc)` -/
def vringDescSize : Nat := 16

def vringDescFNext : Nat := 1

def vringDescFWrite : Nat := 2

def vringDescFIndirect : Nat := 4

structure VRing where
  num : Nat
  align : Nat
  desc : Nat
  avail : Nat
  used : Nat
deriving DecidableEq, Repr

structure VirtQueue where
  vring : VRing
  pa : Nat
  lastAvailIdx : Nat
  signalledUsed : Nat
  signalledUsedValid : Bool
  notification : Bool
  inuse : Int
  vector : Nat
deriving DecidableEq, Repr

structure DescTable where
  pa : Nat
  max : Nat
deriving DecidableEq, Repr

inductive DescField
  | addr | len | flags | next
deriving DecidableEq, Repr

inductive Req
  | desc (field : DescField) (table : DescTable) (i : Nat)
  | availIdx (avail : Nat)
  | availRing (avail i : Nat)
  /-- A store to `avail_event`. -/
  | setAvailEvent (used num val : Nat)
  /-- `cpu_physical_memory_map`: not zero if all of the range is mapped. -/
  | map (addr len : Nat) (isWrite : Bool)
deriving DecidableEq, Repr

inductive Exit
  | movedIndex (idx avail : Nat)
  | headTooLarge (head : Nat)
  | nextTooLarge (next : Nat)
  | indirectSize
  | looped
  | tooManyWrite
  | tooManyRead
  | mapMmio
  | divisionByZero
  | storeBehindArray
  | outOfRounds
deriving DecidableEq, Repr

def Exit.Intended (e : Exit) : Prop :=
  e ≠ .divisionByZero ∧ e ≠ .storeBehindArray ∧ e ≠ .outOfRounds

instance (e : Exit) : Decidable e.Intended := inferInstanceAs (Decidable (_ ∧ _))

abbrev Device := Prog Req Exit

section
variable (table : DescTable) (i : Nat)

def vringDescAddr : Device Nat :=
  Prog.word (2 ^ 64) (.desc .addr table i)

def vringDescLen : Device Nat :=
  Prog.word (2 ^ 32) (.desc .len table i)

def vringDescFlags : Device Nat :=
  Prog.word (2 ^ 16) (.desc .flags table i)

def vringDescNext : Device Nat :=
  Prog.word (2 ^ 16) (.desc .next table i)

section
variable (vq : VirtQueue)

def vringAvailIdx : Device Nat := Prog.word (2 ^ 16) (.availIdx vq.vring.avail)

def vringAvailRing (i : Nat) : Device Nat :=
  Prog.word (2 ^ 16) (.availRing vq.vring.avail i)

def vringAvailEvent (val : Nat) : Device Unit :=
  if vq.notification then do
    let _ ← Prog.word 1 (.setAvailEvent vq.vring.used vq.vring.num val)
    pure ()
  else pure ()

/-- A difference of two numbers as a `uint16_t`. -/
def sub16 (a b : Nat) : Nat := (a + 0x10000 - b % 0x10000) % 0x10000

def virtqueueNumHeads (idx : Nat) : Device Nat := do
  let avail ← vringAvailIdx vq
  let numHeads := sub16 avail idx
  if numHeads > vq.vring.num then do
    -- the message reads the index once more
    let avail ← vringAvailIdx vq
    .stop (.movedIndex idx avail)
  else pure numHeads

def virtqueueGetHead (idx : Nat) : Device Nat :=
  if vq.vring.num = 0 then .stop .divisionByZero
  else do
    let head ← vringAvailRing vq (idx % vq.vring.num)
    if head ≥ vq.vring.num then .stop (.headTooLarge head) else pure head

def virtqueueNextDesc : Device Nat := do
  let flags ← vringDescFlags table i
  if flags &&& vringDescFNext = 0 then pure table.max
  else do
    let next ← vringDescNext table i
    if next ≥ table.max then .stop (.nextTooLarge next) else pure next

def VirtQueue.ring : DescTable := ⟨vq.vring.desc, vq.vring.num⟩

def indirectTable (ring : DescTable) (head : Nat) : Device DescTable := do
  let max ← vringDescLen ring head
  let addr ← vringDescAddr ring head
  pure ⟨addr, max / vringDescSize⟩

/-- The sizes that are summed up, as `unsigned int`. -/
structure Totals where
  inTotal : Nat
  outTotal : Nat
deriving DecidableEq, Repr

/-- The chain of one head: the totals, and `num_bufs` unless the function is done. `num_bufs` is
compared with `max` in each round and does not wrap. -/
def availChain (maxIn maxOut : Nat) : Nat → DescTable → Nat → Nat → Totals →
    Device (Totals × Option Nat)
  | 0, _, _, _, _ => .stop .outOfRounds
  | n + 1, table, i, numBufs, totals =>
    if numBufs + 1 > table.max then .stop .looped
    else do
      let flags ← vringDescFlags table i
      let len ← vringDescLen table i
      let totals : Totals :=
        if flags &&& vringDescFWrite ≠ 0 then
          { totals with inTotal := (totals.inTotal + len) % 0x100000000 }
        else { totals with outTotal := (totals.outTotal + len) % 0x100000000 }
      if totals.inTotal ≥ maxIn ∧ totals.outTotal ≥ maxOut then pure (totals, none)
      else do
        let next ← virtqueueNextDesc table i
        if next = table.max then pure (totals, some (numBufs + 1))
        else availChain maxIn maxOut n table next (numBufs + 1) totals

/-- One round of the outer loop for a head: the totals, and `total_bufs` unless the function is
done. -/
def availHead (maxIn maxOut : Nat) (idx totalBufs : Nat) (totals : Totals) :
    Device (Totals × Option Nat) := do
  let head ← virtqueueGetHead vq idx
  let flags ← vringDescFlags vq.ring head
  if flags &&& vringDescFIndirect ≠ 0 then do
    let len ← vringDescLen vq.ring head
    if len % vringDescSize ≠ 0 then .stop .indirectSize
    else if totalBufs ≥ vq.vring.num then .stop .looped
    else do
      let table ← indirectTable vq.ring head
      let (totals, numBufs) ← availChain maxIn maxOut (table.max + 1) table 0 0 totals
      pure (totals, numBufs.map fun _ => totalBufs + 1)
  else availChain maxIn maxOut (vq.vring.num + 1) vq.ring head totalBufs totals

/-- The loop over the heads. Each one adds to `total_bufs`, which is at most the size of the ring. -/
def availHeads (vq : VirtQueue) (maxIn maxOut : Nat) : Nat → Nat → Nat → Totals → Device Totals
  | 0, _, _, _ => .stop .outOfRounds
  | n + 1, idx, totalBufs, totals => do
    let heads ← virtqueueNumHeads vq idx
    if heads = 0 then pure totals
    else do
      let (totals, totalBufs) ← availHead vq maxIn maxOut idx totalBufs totals
      match totalBufs with
      | none => pure totals
      | some totalBufs => availHeads vq maxIn maxOut n (idx + 1) totalBufs totals

def virtqueueGetAvailBytes (maxInBytes maxOutBytes : Nat) : Device Totals :=
  availHeads vq maxInBytes maxOutBytes (vq.vring.num + 1) vq.lastAvailIdx 0 ⟨0, 0⟩
end

/-- An entry of `in_addr` and `in_sg`, or of `out_addr` and `out_sg`. -/
structure Sg where
  addr : Nat
  len : Nat
deriving DecidableEq, Repr

/-- `VirtQueueElement`: the lists are the entries of the arrays up to `in_num` and `out_num`. -/
structure VirtQueueElement where
  index : Nat
  inSg : List Sg
  outSg : List Sg
deriving DecidableEq, Repr

/-- `elem->in_num + elem->out_num` -/
def VirtQueueElement.num (elem : VirtQueueElement) : Nat := elem.inSg.length + elem.outSg.length

/-- A store to the next entries of two arrays of `VIRTQUEUE_MAX_SIZE`. -/
def storeSg (sg : List Sg) (entry : Sg) : Device (List Sg) :=
  if sg.length ≥ virtqueueMaxSize then .stop .storeBehindArray else pure (sg ++ [entry])

def addDesc (elem : VirtQueueElement) : Device VirtQueueElement := do
  let flags ← vringDescFlags table i
  if flags &&& vringDescFWrite ≠ 0 then
    if elem.inSg.length ≥ virtqueueMaxSize then .stop .tooManyWrite
    else do
      let addr ← vringDescAddr table i
      let len ← vringDescLen table i
      let inSg ← storeSg elem.inSg ⟨addr, len⟩
      pure { elem with inSg := inSg }
  else
    if elem.outSg.length ≥ virtqueueMaxSize then .stop .tooManyRead
    else do
      let addr ← vringDescAddr table i
      let len ← vringDescLen table i
      let outSg ← storeSg elem.outSg ⟨addr, len⟩
      pure { elem with outSg := outSg }
end

/-- "Collect all the descriptors" -/
def collect : Nat → DescTable → Nat → VirtQueueElement → Device VirtQueueElement
  | 0, _, _, _ => .stop .outOfRounds
  | n + 1, table, i, elem => do
    let elem ← addDesc table i elem
    if elem.num > table.max then .stop .looped
    else do
      let next ← virtqueueNextDesc table i
      if next = table.max then pure elem else collect n table next elem

def virtqueueMapSg (isWrite : Bool) : List Sg → Device Unit
  | [] => pure ()
  | sg :: rest => do
    let mapped ← Prog.word 2 (.map sg.addr sg.len isWrite)
    if mapped = 0 then .stop .mapMmio else virtqueueMapSg isWrite rest

def chainStart (vq : VirtQueue) (head : Nat) : Device (DescTable × Nat) := do
  let flags ← vringDescFlags vq.ring head
  if flags &&& vringDescFIndirect ≠ 0 then do
    let len ← vringDescLen vq.ring head
    if len % vringDescSize ≠ 0 then .stop .indirectSize
    else do
      let table ← indirectTable vq.ring head
      pure (table, 0)
  else pure (vq.ring, head)

/-- `if (guest_features & (1 << VIRTIO_RING_F_EVENT_IDX)) vring_avail_event(vq, vring_avail_idx(vq))` -/
def publishAvailEvent (eventIdx : Bool) (vq : VirtQueue) : Device Unit :=
  if eventIdx then do
    let avail ← vringAvailIdx vq
    vringAvailEvent vq avail
  else pure ()

/-- `virtqueue_pop`: the queue and the element, if there is one. -/
def virtqueuePop (eventIdx : Bool) (vq : VirtQueue) :
    Device (VirtQueue × Option VirtQueueElement) := do
  let heads ← virtqueueNumHeads vq vq.lastAvailIdx
  if heads = 0 then pure (vq, none)
  else do
    let head ← virtqueueGetHead vq vq.lastAvailIdx
    let vq := { vq with lastAvailIdx := (vq.lastAvailIdx + 1) % 0x10000 }
    publishAvailEvent eventIdx vq
    let (table, i) ← chainStart vq head
    let elem ← collect (table.max + 1) table i ⟨head, [], []⟩
    virtqueueMapSg true elem.inSg
    virtqueueMapSg false elem.outSg
    pure ({ vq with inuse := vq.inuse + 1 }, some elem)

end QemuVmi.Virtio
