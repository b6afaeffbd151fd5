import QemuVmi.Lib.KeyedList

/-!
# Tracked requests

`bdrv_co_do_preadv` and `bdrv_co_do_pwritev` of `block.c`. A write that is not aligned reads the
blocks at its two ends and writes them back with its own data in them. Such a request is serialising:
it waits for the requests it overlaps with, and they wait for it. A request that finds an overlapping
one waiting does not wait for it, as that one will look at all the requests again when it is woken up.

The coroutines are interleaved where they yield: in the wait queue of a request, and in the driver,
which may transfer the bytes of a request in any order and in any number of pieces.

Results:
1. `waitAt_spec`, `waitRound_spec`: a request goes on only when the requests it conflicts with are all
   waiting.
2. `waitAt_of_free`: a request that has gone on is not blocked at its later waits.
3. `Serialised.cons`, `Serialised.put`, `Serialised.end`: of two requests that conflict one is waiting,
   and the counter is the number of serialising requests.
-/

namespace QemuVmi.Block

open List Nat

/-- `offset & (align - 1)` -/
def misalignment (align x : Nat) : Nat := x &&& (align - 1)

/-- `offset & ~(align - 1)` -/
def alignDown (align x : Nat) : Nat := x - misalignment align x

def roundUp (align x : Nat) : Nat := alignDown align (x + (align - 1))

/-- The parameters of `bdrv_co_do_pwritev`. `zero` is `BDRV_REQ_ZERO_WRITE`, `qiov` the bytes of the
vector: `bdrv_co_write_zeroes` passes a null pointer, `bdrv_write_zeroes` a vector without memory,
which nobody looks into. -/
structure Write where
  offset : Nat
  bytes : Nat
  zero : Bool
  qiov : Option (List UInt8)
  qiov_length : ∀ data, qiov = some data → data.length = bytes

inductive Request
  | read (offset bytes : Nat)
  | write (w : Write)

/-- What the driver reads for a request: the block at the start of a write, the block at its end, or
the range of a read. -/
inductive Part
  | head
  | tail
  | all
deriving DecidableEq, Repr

/-- The calls of `wait_serialising_requests`: two in `bdrv_co_do_pwritev`, one in
`bdrv_aligned_preadv` and one in `bdrv_aligned_pwritev`. -/
inductive Point
  | head
  | tail
  | preadv (part : Part)
  | pwritev
deriving DecidableEq, Repr

inductive Phase
  /-- In the wait queue of `waitingFor`, or taken out of it and not entered yet. -/
  | waiting (point : Point) (waitingFor : Nat) (woken : Bool)
  | reading (part : Part) (buf : Nat → Option UInt8)
  /-- In the driver, with the bytes that are stored so far. -/
  | writing (stored : Nat → Bool)

/-- `BdrvTrackedRequest`, with the variables of the function it belongs to: `offset` and `bytes`,
which are those of the padded request in the end, and `local_qiov`. `trackedOffset` and
`trackedBytes` are the fields `offset` and `bytes`. -/
structure Tracked where
  id : Nat
  req : Request
  trackedOffset : Nat
  trackedBytes : Nat
  serialising : Bool
  overlapOffset : Nat
  overlapBytes : Nat
  offset : Nat
  bytes : Nat
  localQiov : Option (List UInt8)
  phase : Phase

/-- `waiting_for` is not null. -/
def Tracked.isWaiting (t : Tracked) : Bool :=
  match t.phase with
  | .waiting _ _ _ => true
  | _ => false

/-- The part of `BlockDriverState` that the requests use, and the bytes of the image. -/
structure BDS where
  image : Nat → UInt8
  tracked : List Tracked
  serialisingInFlight : Nat

/-- `tracked_request_begin`, up to the insertion into the list. -/
def trackedRequestBegin (id : Nat) (req : Request) (offset bytes : Nat) : Tracked where
  id := id
  req := req
  trackedOffset := offset
  trackedBytes := bytes
  serialising := false
  overlapOffset := offset
  overlapBytes := bytes
  offset := offset
  bytes := bytes
  localQiov := none
  phase := .writing fun _ => false

section
variable (align : Nat) (s : BDS) (t : Tracked)

def markRequestSerialising : BDS × Tracked :=
  let overlapOffset := alignDown align t.trackedOffset
  let overlapBytes := roundUp align (t.trackedOffset + t.trackedBytes) - overlapOffset
  (if t.serialising then s else { s with serialisingInFlight := s.serialisingInFlight + 1 },
    { t with
      serialising := true
      overlapOffset := min t.overlapOffset overlapOffset
      overlapBytes := max t.overlapBytes overlapBytes })

def trackedRequestOverlaps (offset bytes : Nat) : Bool :=
  !decide (offset ≥ t.overlapOffset + t.overlapBytes) && !decide (t.overlapOffset ≥ offset + bytes)

/-- The loop over the requests in `wait_serialising_requests`: the first request to wait for. -/
def blocker (self : Tracked) : Option Tracked :=
  s.tracked.find? fun req =>
    req.id ≠ self.id && (req.serialising || self.serialising) &&
      trackedRequestOverlaps req self.overlapOffset self.overlapBytes && !req.isWaiting

/-- One round of the loop of `wait_serialising_requests`: wait, or go on with `k`. -/
def waitRound (self : Tracked) (point : Point) (k : Option (BDS × Tracked)) :
    Option (BDS × Tracked) :=
  match blocker s self with
  | some req => some (s, { self with phase := .waiting point req.id false })
  | none => k

/-- `wait_serialising_requests` when it is called. -/
def waitSerialisingRequests (self : Tracked) (point : Point)
    (k : Option (BDS × Tracked)) : Option (BDS × Tracked) :=
  if s.serialisingInFlight = 0 then k else waitRound s self point k

/-- The call of the driver in `bdrv_aligned_preadv`. -/
def startRead (part : Part) (s : BDS) (t : Tracked) : Option (BDS × Tracked) :=
  some (s, { t with phase := .reading part fun _ => none })

/-- `bdrv_aligned_preadv` without copy on read. -/
def alignedPreadv (part : Part) (s : BDS) (t : Tracked) : Option (BDS × Tracked) :=
  waitSerialisingRequests s t (.preadv part) (startRead part s t)

/-- The assertions of `bdrv_aligned_pwritev` after the wait, and the call of the driver. -/
def startWrite (waited : Bool) (s : BDS) (t : Tracked) : Option (BDS × Tracked) :=
  if (waited && t.serialising) = true then none
  else if t.overlapOffset ≤ t.offset ∧ t.offset + t.bytes ≤ t.overlapOffset + t.overlapBytes then
    some (s, { t with phase := .writing fun _ => false })
  else none

/-- The code after each call of `wait_serialising_requests`, with the result of the call. -/
def goOn (point : Point) (waited : Bool) (s : BDS) (t : Tracked) : Option (BDS × Tracked) :=
  match point with
  | .head => alignedPreadv .head s t
  | .tail => if (waited && t.localQiov.isSome) = true then none else alignedPreadv .tail s t
  | .preadv part => startRead part s t
  | .pwritev => startWrite waited s t

/-- A call of `wait_serialising_requests` and the code after it. -/
def waitAt (point : Point) (s : BDS) (t : Tracked) : Option (BDS × Tracked) :=
  waitSerialisingRequests s t point (goOn point false s t)

/-- `bdrv_co_do_pwritev` from the test of the end of the request on. -/
def pwritevTail : Option (BDS × Tracked) :=
  if misalignment align (t.offset + t.bytes) ≠ 0 then
    let (s, t) := markRequestSerialising align s t
    waitAt .tail s t
  else waitAt .pwritev s t

/-- `bdrv_co_do_preadv` and `bdrv_co_do_pwritev`, up to the first yield. -/
def start (id : Nat) : Request → Option (BDS × Tracked)
  | .read offset bytes =>
    -- the request is padded before it is tracked
    let bytes := bytes + misalignment align offset
    let offset := alignDown align offset
    let bytes := if misalignment align (offset + bytes) ≠ 0 then roundUp align bytes else bytes
    waitAt (.preadv .all) s (trackedRequestBegin id (.read offset bytes) offset bytes)
  | .write w =>
    let t := trackedRequestBegin id (.write w) w.offset w.bytes
    if misalignment align w.offset ≠ 0 then
      let (s, t) := markRequestSerialising align s t
      waitAt .head s t
    else pwritevTail align s t

def Tracked.readRange : Part → Nat × Nat
  | .head => (alignDown align t.offset, align)
  | .tail => (alignDown align (t.offset + t.bytes), align)
  | .all => (t.offset, t.bytes)

/-- `local_qiov` after the head was read. `none` where `qiov` is a null pointer. -/
def padHead (w : Write) (t : Tracked) (headBuf : List UInt8) : Option Tracked :=
  w.qiov.map fun data =>
    { t with
      localQiov := some (headBuf.take (misalignment align t.offset) ++ data)
      bytes := t.bytes + misalignment align t.offset
      offset := alignDown align t.offset }

/-- `local_qiov` after the tail was read. -/
def padTail (w : Write) (t : Tracked) (tailBuf : List UInt8) : Option Tracked :=
  (t.localQiov.or w.qiov).map fun data =>
    { t with
      localQiov := some (data ++ tailBuf.drop (misalignment align (t.offset + t.bytes)))
      bytes := roundUp align t.bytes }

/-- The bytes that the driver gets from `bdrv_aligned_pwritev`. -/
def Tracked.writeData (w : Write) (t : Tracked) : List UInt8 :=
  if w.zero then replicate t.bytes 0 else (t.localQiov.or w.qiov).getD []

/-- `qemu_co_queue_restart_all` on the queue of a request. -/
def Tracked.wake (id : Nat) (t : Tracked) : Tracked :=
  match t.phase with
  | .waiting point waitingFor _ =>
    if waitingFor = id then { t with phase := .waiting point waitingFor true } else t
  | _ => t

def trackedRequestEnd : BDS :=
  { s with
    serialisingInFlight :=
      if t.serialising then s.serialisingInFlight - 1 else s.serialisingInFlight
    tracked := (KeyedList.remove Tracked.id t.id s.tracked).map (Tracked.wake t.id) }

def BDS.put : BDS :=
  { s with tracked := KeyedList.put Tracked.id t s.tracked }

/-- The driver has the bytes from `lo` to `hi` of the range it reads. -/
def fetch (lo hi : Nat) : Option BDS :=
  match t.phase with
  | .reading part buf =>
    let (start, length) := t.readRange align part
    some (s.put { t with phase := .reading part fun i =>
      if lo ≤ i ∧ i < hi ∧ i < length then some (s.image (start + i)) else buf i })
  | _ => none

/-- The image after the bytes from `lo` to `hi` of the data at `offset` were stored. -/
def storeBytes (image : Nat → UInt8) (data : List UInt8) (offset lo hi : Nat) : Nat → UInt8 :=
  fun x =>
    if offset + lo ≤ x ∧ x < offset + hi ∧ x < offset + data.length then
      data.getD (x - offset) 0
    else image x

/-- The driver stores the bytes from `lo` to `hi` of the data it writes. -/
def store (lo hi : Nat) : Option BDS :=
  match t.phase, t.req with
  | .writing stored, .write w =>
    let image := storeBytes s.image (t.writeData w) t.offset lo hi
    let stored := fun i => stored i || (decide (lo ≤ i) && decide (i < hi))
    some ({ s with image := image }.put { t with phase := .writing stored })
  | _, _ => none

def afterRead (part : Part) (buf : List UInt8) : Option BDS :=
  match part, t.req with
  | .head, .write w => do
    let t ← padHead align w t buf
    let (s, t) ← pwritevTail align s t
    some (s.put t)
  | .tail, .write w => do
    let t ← padTail align w t buf
    let (s, t) ← waitAt .pwritev s t
    some (s.put t)
  | .all, _ => some (trackedRequestEnd s t)
  | _, _ => none

inductive Act
  | begin (id : Nat) (req : Request)
  | resume (id : Nat)
  | fetch (id lo hi : Nat)
  | store (id lo hi : Nat)
  /-- The driver returns, with an error or after all the bytes were transferred. -/
  | complete (id : Nat) (ok : Bool)

def complete (ok : Bool) : Option BDS :=
  if ok = false then
    match t.phase with
    | .waiting _ _ _ => none
    | _ => some (trackedRequestEnd s t)
  else
    match t.phase with
    | .waiting _ _ _ => none
    | .reading part buf => do
      let bytes ← (range (t.readRange align part).2).mapM buf
      afterRead align s t part bytes
    | .writing stored =>
      if ∀ i < t.bytes, stored i = true then some (trackedRequestEnd s t) else none

/-- One step of one coroutine. `none` where it cannot take the step, or where an assertion fails or a
null pointer is used. -/
def step : Act → Option BDS
  | .begin id req =>
    if id ∈ s.tracked.map Tracked.id then none
    else do
      let (s, t) ← start align s id req
      some { s with tracked := t :: s.tracked }
  | .resume id => do
    let t ← KeyedList.get Tracked.id id s.tracked
    match t.phase with
    | .waiting point _ true => do
      let (s, t) ← waitRound s t point (goOn point true s t)
      some (s.put t)
    | _ => none
  | .fetch id lo hi => do
    let t ← KeyedList.get Tracked.id id s.tracked
    fetch align s t lo hi
  | .store id lo hi => do
    let t ← KeyedList.get Tracked.id id s.tracked
    store s t lo hi
  | .complete id ok => do
    let t ← KeyedList.get Tracked.id id s.tracked
    complete align s t ok

def fresh (image : Nat → UInt8) : BDS := ⟨image, [], 0⟩

def run (acts : List Act) : Option BDS := acts.foldlM (step align) s
end

section
variable {align : Nat}

section
variable (halign : ∃ k, align = 2 ^ k)
include halign

lemma misalignment_eq_mod (x : Nat) : misalignment align x = x % align := by
  obtain ⟨k, rfl⟩ := halign
  exact and_two_pow_sub_one_eq_mod x k

lemma align_pos : 0 < align := by
  obtain ⟨k, rfl⟩ := halign
  exact k.two_pow_pos

lemma misalignment_lt (x : Nat) : misalignment align x < align := by
  rw [misalignment_eq_mod halign]
  exact mod_lt x (align_pos halign)
end

lemma misalignment_le (align x : Nat) : misalignment align x ≤ x := and_le_left

lemma alignDown_add (align x : Nat) : alignDown align x + misalignment align x = x :=
  Nat.sub_add_cancel (misalignment_le align x)

lemma misalignment_alignDown (halign : ∃ k, align = 2 ^ k) (x : Nat) :
    misalignment align (alignDown align x) = 0 := by
  rw [alignDown, misalignment_eq_mod halign, misalignment_eq_mod halign]
  exact sub_mod_eq_zero_of_mod_eq (mod_mod x align).symm

variable {x : Nat}

section
variable (halign : ∃ k, align = 2 ^ k)
include halign

lemma misalignment_add (hx : misalignment align x = 0) (y : Nat) :
    misalignment align (x + y) = misalignment align y := by
  rw [misalignment_eq_mod halign] at hx
  rw [misalignment_eq_mod halign, misalignment_eq_mod halign, add_mod, hx, zero_add, mod_mod]

lemma roundUp_of_eq_zero (hx : misalignment align x = 0) : roundUp align x = x := by
  have hpos := align_pos halign
  have hsmall : misalignment align (align - 1) = align - 1 := by
    rw [misalignment_eq_mod halign]
    exact mod_eq_of_lt (by omega)
  rw [roundUp, alignDown, misalignment_add halign hx, hsmall]
  omega

lemma roundUp_of_ne_zero (hx : misalignment align x ≠ 0) :
    roundUp align x = alignDown align x + align := by
  have hlt := misalignment_lt halign x
  have hsplit := alignDown_add align x
  -- the block behind `x` starts one block after the block of `x`
  have hnext : misalignment align (alignDown align x + align) = 0 := by
    rw [misalignment_add halign (misalignment_alignDown halign x), misalignment_eq_mod halign,
      mod_self]
  have hrest : misalignment align (misalignment align x - 1) = misalignment align x - 1 := by
    rw [misalignment_eq_mod halign (_ - 1)]
    exact mod_eq_of_lt (by omega)
  have hsum : x + (align - 1) = alignDown align x + align + (misalignment align x - 1) := by omega
  rw [roundUp, hsum, alignDown, misalignment_add halign hnext, hrest]
  omega

lemma le_roundUp (x : Nat) : x ≤ roundUp align x := by
  by_cases hx : misalignment align x = 0
  · exact (roundUp_of_eq_zero halign hx).symm.le
  have hlt := misalignment_lt halign x
  have hsplit := alignDown_add align x
  rw [roundUp_of_ne_zero halign hx]
  omega
end

end

section
variable {s s' : BDS} {t t' u u' : Tracked} {point : Point}

def Conflict (a b : Tracked) : Prop :=
  (a.serialising = true ∨ b.serialising = true) ∧
    a.overlapOffset < b.overlapOffset + b.overlapBytes ∧
    b.overlapOffset < a.overlapOffset + a.overlapBytes

lemma Conflict.symm {a b : Tracked} (h : Conflict a b) : Conflict b a :=
  ⟨h.1.symm, h.2.2, h.2.1⟩

/-- All the requests that `t` conflicts with are waiting. -/
def Free (s : BDS) (t : Tracked) : Prop :=
  ∀ u ∈ s.tracked, u.id ≠ t.id → Conflict t u → u.isWaiting = true

structure SameRange (t u : Tracked) : Prop where
  id : t.id = u.id
  req : t.req = u.req
  serialising : t.serialising = u.serialising
  overlapOffset : t.overlapOffset = u.overlapOffset
  overlapBytes : t.overlapBytes = u.overlapBytes

lemma SameRange.conflict_iff (ht : SameRange t t') (hu : SameRange u u') :
    Conflict t u ↔ Conflict t' u' := by
  simp only [Conflict, ht.serialising, ht.overlapOffset, ht.overlapBytes, hu.serialising,
    hu.overlapOffset, hu.overlapBytes]

lemma SameRange.rfl' (t : Tracked) : SameRange t t := ⟨rfl, rfl, rfl, rfl, rfl⟩

lemma SameRange.trans {v : Tracked} (h : SameRange t u) (h' : SameRange u v) : SameRange t v :=
  ⟨h.id.trans h'.id, h.req.trans h'.req, h.serialising.trans h'.serialising,
    h.overlapOffset.trans h'.overlapOffset, h.overlapBytes.trans h'.overlapBytes⟩

lemma Free.congr (h : Free s t) (htracked : s'.tracked = s.tracked) (ht : SameRange t t') :
    Free s' t' := by
  intro u hu hne hconflict
  rw [htracked] at hu
  exact h u hu (ht.id ▸ hne) ((ht.conflict_iff (SameRange.rfl' u)).mpr hconflict)

lemma blocker_eq_none_iff : blocker s t = none ↔ Free s t := by
  rw [blocker, List.find?_eq_none]
  refine forall₂_congr fun u _ => ?_
  simp only [trackedRequestOverlaps, Conflict, Bool.and_eq_true, Bool.or_eq_true,
    Bool.not_eq_true', decide_eq_false_iff_not, decide_eq_true_eq, ne_eq, not_and, ge_iff_le,
    Nat.not_le, Bool.not_eq_false]
  constructor
  · rintro h hne ⟨hserial, hoverlap⟩
    exact h ⟨⟨hne, hserial.symm⟩, hoverlap⟩
  · rintro h ⟨⟨hne, hserial⟩, hoverlap⟩
    exact h hne ⟨hserial.symm, hoverlap⟩

def Counts (s : BDS) (t : Tracked) : Prop :=
  s.serialisingInFlight = 0 → t.serialising = false ∧ ∀ u ∈ s.tracked, u.serialising = false

lemma Counts.free (h : Counts s t) (hzero : s.serialisingInFlight = 0) : Free s t := by
  obtain ⟨ht, hothers⟩ := h hzero
  rintro u hu - ⟨hserial | hserial, -⟩
  · rw [ht] at hserial
    cases hserial
  · rw [hothers u hu] at hserial
    cases hserial

lemma waitRound_of_free (h : Free s t) (point : Point)
    (k : Option (BDS × Tracked)) : waitRound s t point k = k := by
  rw [waitRound, blocker_eq_none_iff.mpr h]

lemma wait_of_free (h : Free s t) (point : Point)
    (k : Option (BDS × Tracked)) : waitSerialisingRequests s t point k = k := by
  rw [waitSerialisingRequests, waitRound_of_free h]
  exact ite_self k

variable {r : BDS × Tracked}

lemma waitRound_spec {k : Option (BDS × Tracked)} (h : waitRound s t point k = some r) :
    (∃ id, r = (s, { t with phase := .waiting point id false })) ∨ (Free s t ∧ k = some r) := by
  rw [waitRound] at h
  split at h
  next req _ => exact .inl ⟨req.id, (Option.some.inj h).symm⟩
  next hnone => exact .inr ⟨blocker_eq_none_iff.mp hnone, h⟩

lemma wait_spec {k : Option (BDS × Tracked)} (hcounts : Counts s t)
    (h : waitSerialisingRequests s t point k = some r) :
    (∃ id, r = (s, { t with phase := .waiting point id false })) ∨ (Free s t ∧ k = some r) := by
  rw [waitSerialisingRequests] at h
  split at h
  next hzero => exact .inr ⟨hcounts.free hzero, h⟩
  · exact waitRound_spec h

def Point.entered : Point → Phase
  | .head => .reading .head fun _ => none
  | .tail => .reading .tail fun _ => none
  | .preadv part => .reading part fun _ => none
  | .pwritev => .writing fun _ => false

def Tracked.InOverlap (t : Tracked) : Prop :=
  t.overlapOffset ≤ t.offset ∧ t.offset + t.bytes ≤ t.overlapOffset + t.overlapBytes

lemma goOn_spec {waited : Bool} (hfree : Free s t) (h : goOn point waited s t = some r) :
    r = (s, { t with phase := point.entered }) ∧ (point = .pwritev → t.InOverlap) := by
  cases point with
  | head =>
    rw [goOn, alignedPreadv, wait_of_free hfree] at h
    exact ⟨(Option.some.inj h).symm, nofun⟩
  | tail =>
    rw [goOn, alignedPreadv, wait_of_free hfree] at h
    split at h
    · cases h
    · exact ⟨(Option.some.inj h).symm, nofun⟩
  | preadv part => exact ⟨(Option.some.inj h).symm, nofun⟩
  | pwritev =>
    rw [goOn, startWrite] at h
    split at h
    · cases h
    split at h
    next hrange => exact ⟨(Option.some.inj h).symm, fun _ => hrange⟩
    · cases h

/-- What a call of `wait_serialising_requests` at the point makes of the request. -/
inductive Waits (s : BDS) (point : Point) (t : Tracked) : Tracked → Prop
  | blocked (id : Nat) : Waits s point t { t with phase := .waiting point id false }
  | entered (hfree : Free s t) (hrange : point = .pwritev → t.InOverlap) :
      Waits s point t { t with phase := point.entered }

lemma Waits.of_goOn {waited : Bool}
    (h : (∃ id, (s', t') = (s, { t with phase := .waiting point id false })) ∨
      Free s t ∧ goOn point waited s t = some (s', t')) : s' = s ∧ Waits s point t t' := by
  obtain ⟨id, hr⟩ | ⟨hfree, hgo⟩ := h
  · cases hr
    exact ⟨rfl, .blocked id⟩
  · obtain ⟨hr, hrange⟩ := goOn_spec hfree hgo
    cases hr
    exact ⟨rfl, .entered hfree hrange⟩

lemma waitAt_spec (hcounts : Counts s t) (h : waitAt point s t = some (s', t')) :
    s' = s ∧ Waits s point t t' :=
  Waits.of_goOn (wait_spec hcounts h)

lemma waitAt_of_free (hfree : Free s t) (h : waitAt point s t = some (s', t')) :
    s' = s ∧ t' = { t with phase := point.entered } ∧ (point = .pwritev → t.InOverlap) := by
  rw [waitAt, wait_of_free hfree] at h
  obtain ⟨hr, hrange⟩ := goOn_spec hfree h
  cases hr
  exact ⟨rfl, rfl, hrange⟩

lemma resume_spec (h : waitRound s t point (goOn point true s t) = some (s', t')) :
    s' = s ∧ Waits s point t t' :=
  Waits.of_goOn (waitRound_spec h)

lemma Waits.sameRange (h : Waits s point t t') : SameRange t t' := by
  cases h with
  | blocked id | entered _ _ => exact ⟨rfl, rfl, rfl, rfl, rfl⟩

lemma Waits.waiting_or_free (h : Waits s point t t') : t'.isWaiting = true ∨ Free s t' := by
  cases h with
  | blocked id => exact .inl rfl
  | entered hfree _ => exact .inr (hfree.congr rfl ⟨rfl, rfl, rfl, rfl, rfl⟩)

structure Serialised (s : BDS) : Prop where
  ids : (s.tracked.map Tracked.id).Nodup
  count : s.serialisingInFlight = s.tracked.countP Tracked.serialising
  excl : ∀ t ∈ s.tracked, t.isWaiting = true ∨ Free s t

lemma Serialised.fresh (image : Nat → UInt8) : Serialised (fresh image) :=
  ⟨nodup_nil, rfl, by simp [Block.fresh]⟩

section
variable (h : Serialised s)
include h

lemma Serialised.free (ht : t ∈ s.tracked) (hgo : t.isWaiting = false) : Free s t := by
  rcases h.excl t ht with hwait | hfree
  · rw [hgo] at hwait
    cases hwait
  · exact hfree

lemma Serialised.not_conflict (ht : t ∈ s.tracked) (hu : u ∈ s.tracked)
    (hne : u.id ≠ t.id) (htgo : t.isWaiting = false) (hugo : u.isWaiting = false) :
    ¬ Conflict t u := by
  intro hconflict
  rw [h.free ht htgo u hu hne hconflict] at hugo
  cases hugo

lemma Serialised.image (image : Nat → UInt8) : Serialised { s with image := image } :=
  ⟨h.ids, h.count, h.excl⟩

lemma Serialised.excl_of_mem (hexcl : t.isWaiting = true ∨ Free s t)
    (hmem : ∀ u ∈ s'.tracked, u = t ∨ u ∈ s.tracked ∧ u.id ≠ t.id) :
    ∀ u ∈ s'.tracked, u.isWaiting = true ∨ Free s' u := by
  intro u hu
  obtain rfl | ⟨hu, hid⟩ := hmem u hu
  · refine hexcl.imp_right fun hfree v hv hne hconflict => ?_
    obtain rfl | ⟨hv, -⟩ := hmem v hv
    · exact absurd rfl hne
    · exact hfree v hv hne hconflict
  by_cases hgo : u.isWaiting = true
  · exact .inl hgo
  -- `u` goes on: the new one is waiting when it conflicts with it
  refine .inr fun v hv hne hconflict => ?_
  obtain rfl | ⟨hv, -⟩ := hmem v hv
  · exact hexcl.resolve_right fun hfree => hgo (hfree u hu hid hconflict.symm)
  · exact h.free hu (by simpa using hgo) v hv hne hconflict

/-- A new request, with the counter that `mark_request_serialising` leaves. -/
lemma Serialised.cons {n : Nat} (hid : t.id ∉ s.tracked.map Tracked.id)
    (hn : n = s.serialisingInFlight + if t.serialising then 1 else 0)
    (hexcl : t.isWaiting = true ∨ Free s t) :
    Serialised { s with tracked := t :: s.tracked, serialisingInFlight := n } := by
  refine ⟨nodup_cons.mpr ⟨hid, h.ids⟩, ?_, h.excl_of_mem hexcl fun u hu => ?_⟩
  · simp only [countP_cons, hn, h.count]
  · exact (mem_cons.mp hu).imp_right fun hu => ⟨hu, fun heq => hid (heq ▸ mem_map_of_mem hu)⟩

lemma Serialised.put (ht : t ∈ s.tracked)
    (hsame : SameRange t t') (hexcl : t'.isWaiting = true ∨ Free s t') : Serialised (s.put t') := by
  refine ⟨?_, ?_, h.excl_of_mem hexcl fun u hu => KeyedList.mem_put hu⟩
  · rw [BDS.put, KeyedList.keys_put]
    exact h.ids
  · rw [BDS.put, h.count]
    refine (KeyedList.countP_put fun u hu hid => ?_).symm
    rw [inj_on_of_nodup_map h.ids hu ht (hid.trans hsame.id.symm), hsame.serialising]
end

lemma Tracked.wake_spec (id : Nat) (t : Tracked) :
    SameRange t (t.wake id) ∧ (t.wake id).isWaiting = t.isWaiting := by
  cases hphase : t.phase with
  | waiting point waitingFor woken =>
    by_cases hid : waitingFor = id
    · have hwake : t.wake id = { t with phase := .waiting point waitingFor true } := by
        rw [Tracked.wake, hphase]
        exact if_pos hid
      rw [hwake]
      exact ⟨⟨rfl, rfl, rfl, rfl, rfl⟩, by simp [Tracked.isWaiting, hphase]⟩
    have hwake : t.wake id = t := by
      rw [Tracked.wake, hphase]
      exact if_neg hid
    rw [hwake]
    exact ⟨SameRange.rfl' t, rfl⟩
  | reading _ _ | writing _ =>
    have hwake : t.wake id = t := by rw [Tracked.wake, hphase]
    rw [hwake]
    exact ⟨SameRange.rfl' t, rfl⟩

lemma Serialised.end (h : Serialised s) (ht : t ∈ s.tracked) :
    Serialised (trackedRequestEnd s t) := by
  have hids : ((KeyedList.remove Tracked.id t.id s.tracked).map (Tracked.wake t.id)).map Tracked.id =
      (KeyedList.remove Tracked.id t.id s.tracked).map Tracked.id := by
    rw [map_map]
    exact map_congr_left fun u _ => (Tracked.wake_spec t.id u).1.id.symm
  refine ⟨?_, ?_, ?_⟩
  · rw [trackedRequestEnd, hids]
    exact h.ids.sublist KeyedList.keys_remove_sublist
  · have hcount := KeyedList.countP_remove (p := Tracked.serialising) h.ids ht
    have hwake : (((KeyedList.remove Tracked.id t.id s.tracked).map (Tracked.wake t.id)).countP
        Tracked.serialising) =
        (KeyedList.remove Tracked.id t.id s.tracked).countP Tracked.serialising := by
      rw [countP_map]
      exact countP_congr fun u _ => by
        rw [Function.comp_apply, (Tracked.wake_spec t.id u).1.serialising]
    rw [trackedRequestEnd, hwake]
    dsimp only
    rw [h.count]
    cases hserial : t.serialising with
    | true =>
      rw [hserial, if_pos rfl] at hcount
      rw [if_pos rfl]
      omega
    | false =>
      rw [hserial, if_neg Bool.false_ne_true] at hcount
      rw [if_neg Bool.false_ne_true]
      omega
  · intro u' hu'
    obtain ⟨u, hu, rfl⟩ := mem_map.mp hu'
    obtain ⟨hu, -⟩ := KeyedList.mem_remove.mp hu
    obtain ⟨hsame, hwait⟩ := Tracked.wake_spec t.id u
    rw [hwait]
    refine (h.excl u hu).imp_right fun hfree v' hv' hne hconflict => ?_
    obtain ⟨v, hv, rfl⟩ := mem_map.mp hv'
    obtain ⟨hv, -⟩ := KeyedList.mem_remove.mp hv
    obtain ⟨hsame', hwait'⟩ := Tracked.wake_spec t.id v
    rw [hwait']
    refine hfree v hv ?_ ((hsame.conflict_iff hsame').mpr hconflict)
    rwa [hsame.id, hsame'.id]
end

end QemuVmi.Block
