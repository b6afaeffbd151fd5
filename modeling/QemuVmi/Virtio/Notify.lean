import QemuVmi.Virtio.Queue

/-!
# Interrupts of a virtqueue

`virtqueue_fill`, `virtqueue_flush` and `virtio_notify` with `VIRTIO_RING_F_EVENT_IDX`. The guest asks to
be interrupted when a position of the used ring is passed; all positions are indices of 16 bits that
wrap. `signalled_used` is the index at the last call of `virtio_notify` that looked at the position,
and `signalled_used_valid` is cleared before it is half of the index space behind.

The model keeps the two positions that the indices stand for as natural numbers, `used` and `recorded`.

Results:
1. `Tracks.flush`, `Tracks.notify`: what the indices say of the positions is kept.
2. `interrupt_when_passed`: an interrupt is raised when the position is passed.
-/

namespace QemuVmi.Virtio

/-- The features that `vring_notify` looks at. -/
structure Features where
  notifyOnEmpty : Bool
  eventIdx : Bool
deriving DecidableEq, Repr

/-- What the guest has in its memory when `virtio_notify` is called. -/
structure GuestView where
  availIdx : Nat
  availFlags : Nat
  usedEvent : Nat
deriving DecidableEq, Repr

structure World where
  vq : VirtQueue
  usedIdx : Nat
  usedRing : List (Nat × Nat × Nat)
  isr : Nat
  interrupts : List Nat
  used : Nat
  /-- How many of them at the last call that recorded `signalled_used`. -/
  recorded : Nat

/-- `(int16_t)` -/
def toInt16 (a : Nat) : Int := if a < 0x8000 then a else (a : Int) - 0x10000

/-- `virtqueue_fill`: the stores to the used ring, each with its index. -/
def virtqueueFill (w : World) (id len idx : Nat) : World :=
  { w with usedRing := w.usedRing ++ [((idx + w.usedIdx) % w.vq.vring.num, id, len)] }

def virtqueueFlush (w : World) (count : Nat) : World :=
  let old := w.usedIdx
  let new := (old + count) % 0x10000
  let valid :=
    if toInt16 (sub16 new w.vq.signalledUsed) < sub16 new old then false
    else w.vq.signalledUsedValid
  { w with
    vq := { w.vq with inuse := w.vq.inuse - count, signalledUsedValid := valid }
    usedIdx := new
    used := w.used + count }

def vringNeedEvent (event new old : Nat) : Bool := sub16 new (event + 1) < sub16 new old

section
variable (features : Features)

/-- "Always notify when queue is empty" -/
def notifiesOnEmpty (w : World) (guest : GuestView) : Bool :=
  features.notifyOnEmpty && decide (w.vq.inuse = 0) && guest.availIdx == w.vq.lastAvailIdx

def vringNotify (w : World) (guest : GuestView) : World × Bool :=
  if notifiesOnEmpty features w guest then (w, true)
  else if !features.eventIdx then (w, guest.availFlags &&& 1 == 0)
  else
    let old := w.vq.signalledUsed
    let new := w.usedIdx
    ({ w with
        vq := { w.vq with signalledUsedValid := true, signalledUsed := new }
        recorded := w.used },
      !w.vq.signalledUsedValid || vringNeedEvent guest.usedEvent new old)

def virtioNotify (w : World) (guest : GuestView) : World :=
  let (w, notify) := vringNotify features w guest
  if notify then { w with isr := w.isr ||| 1, interrupts := w.interrupts ++ [w.vq.vector] } else w

inductive Op
  /-- `virtqueue_pop` with an element. -/
  | pop
  | fill (id len idx : Nat)
  | flush (count : Nat)
  | notify (guest : GuestView)
deriving DecidableEq, Repr

def step (w : World) : Op → World
  | .pop =>
    { w with vq := { w.vq with
        lastAvailIdx := (w.vq.lastAvailIdx + 1) % 0x10000, inuse := w.vq.inuse + 1 } }
  | .fill id len idx => virtqueueFill w id len idx
  | .flush count => virtqueueFlush w count
  | .notify guest => virtioNotify features w guest
end

def BatchOk (num : Nat) : Op → Prop
  | .flush count => count ≤ num
  | _ => True

instance (num : Nat) (op : Op) : Decidable (BatchOk num op) := by
  unfold BatchOk
  split <;> infer_instance

/-- The indices stand for the positions. As long as `signalled_used` is valid, less than half of the
index space was used since. -/
structure Tracks (w : World) : Prop where
  used : w.usedIdx = w.used % 0x10000
  recorded : w.recorded ≤ w.used
  signalled : w.vq.signalledUsedValid = true →
    w.vq.signalledUsed = w.recorded % 0x10000 ∧ w.used - w.recorded < 0x8000

lemma sub16_mod {a b : Nat} (hle : b ≤ a) (hlt : a - b < 0x10000) :
    sub16 (a % 0x10000) (b % 0x10000) = a - b := by
  unfold sub16
  omega

lemma sub16_mod_mod {a b : Nat} (hle : b ≤ a) :
    sub16 (a % 0x10000) (b % 0x10000) = (a - b) % 0x10000 := by
  unfold sub16
  omega

variable {w : World} {features : Features}

lemma Tracks.flush (h : Tracks w) {count : Nat} (hcount : count < 0x10000) :
    Tracks (virtqueueFlush w count) := by
  have hnew : (w.usedIdx + count) % 0x10000 = (w.used + count) % 0x10000 := by
    rw [h.used]
    omega
  refine ⟨hnew, h.recorded.trans (Nat.le_add_right _ _), fun hvalid => ?_⟩
  -- the flag survives only if it was set and the distance did not pass the half
  simp only [virtqueueFlush] at hvalid ⊢
  split at hvalid
  · cases hvalid
  rename_i hdistance
  obtain ⟨hsignalled, hclose⟩ := h.signalled hvalid
  refine ⟨hsignalled, ?_⟩
  have hrecorded := h.recorded
  have hbatch : sub16 ((w.usedIdx + count) % 0x10000) w.usedIdx = count := by
    rw [hnew, h.used, sub16_mod (Nat.le_add_right _ _) (by omega)]
    omega
  have hsince : sub16 ((w.usedIdx + count) % 0x10000) w.vq.signalledUsed =
      (w.used + count - w.recorded) % 0x10000 := by
    rw [hnew, hsignalled, sub16_mod_mod (by omega)]
  rw [hbatch, hsince] at hdistance
  unfold toInt16 at hdistance
  split at hdistance <;> omega

lemma Tracks.record (h : Tracks w) : Tracks { w with
      vq := { w.vq with signalledUsedValid := true, signalledUsed := w.usedIdx }
      recorded := w.used } :=
  ⟨h.used, Nat.le_refl _, fun _ => ⟨h.used, by simp⟩⟩

lemma Tracks.notify (h : Tracks w) (guest : GuestView) :
    Tracks (virtioNotify features w guest) := by
  have hnotify : Tracks (vringNotify features w guest).1 := by
    unfold vringNotify
    split
    · exact h
    · split
      · exact h
      · exact h.record
  unfold virtioNotify
  dsimp only
  split
  · exact ⟨hnotify.used, hnotify.recorded, hnotify.signalled⟩
  · exact hnotify

lemma Tracks.step (h : Tracks w) {num : Nat} (hnum : num < 0x10000) {op : Op}
    (hop : BatchOk num op) : Tracks (step features w op) := by
  cases op with
  | pop | fill id len idx => exact ⟨h.used, h.recorded, h.signalled⟩
  | flush count => exact h.flush (hop.trans_lt hnum)
  | notify guest => exact h.notify guest

lemma Tracks.run {num : Nat} (hnum : num < 0x10000) (ops : List Op) :
    ∀ {w : World}, Tracks w → (∀ op ∈ ops, BatchOk num op) →
      Tracks (ops.foldl (Virtio.step features) w) := by
  induction ops with
  | nil =>
    intro w h _
    exact h
  | cons op ops ih =>
    intro w h hops
    exact ih (h.step hnum (hops op List.mem_cons_self)) fun o ho => hops o (List.mem_cons_of_mem op ho)

/-- A position that the guest asked for was passed since `signalled_used` was recorded. -/
def Passed (w : World) (usedEvent : Nat) : Prop :=
  ∃ position, w.recorded ≤ position ∧ position < w.used ∧ position % 0x10000 = usedEvent

lemma needEvent_of_passed (h : Tracks w) (hvalid : w.vq.signalledUsedValid = true)
    {usedEvent : Nat} (hpassed : Passed w usedEvent) :
    vringNeedEvent usedEvent w.usedIdx w.vq.signalledUsed = true := by
  obtain ⟨position, hfrom, hto, rfl⟩ := hpassed
  obtain ⟨hsignalled, hclose⟩ := h.signalled hvalid
  have hsince : sub16 w.usedIdx w.vq.signalledUsed = w.used - w.recorded := by
    rw [h.used, hsignalled, sub16_mod h.recorded (by omega)]
  have hafter : sub16 w.usedIdx (position % 0x10000 + 1) = w.used - (position + 1) := by
    rw [h.used]
    unfold sub16
    omega
  rw [vringNeedEvent, hsince, hafter]
  exact decide_eq_true (by omega)

lemma vringNotify_of_passed (hevent : features.eventIdx = true) (h : Tracks w) {guest : GuestView}
    (hpassed : Passed w guest.usedEvent) : (vringNotify features w guest).2 = true := by
  unfold vringNotify
  split
  · rfl
  rw [hevent]
  cases hvalid : w.vq.signalledUsedValid with
  | false => rfl
  | true =>
    change (!true || vringNeedEvent guest.usedEvent w.usedIdx w.vq.signalledUsed) = true
    rw [needEvent_of_passed h hvalid hpassed]
    rfl

/-- A queue after `virtio_init`, `virtio_reset` or `virtio_load`: `signalled_used` is not valid. -/
structure Started (w : World) : Prop where
  used : w.usedIdx = w.used % 0x10000
  recorded : w.recorded ≤ w.used
  invalid : w.vq.signalledUsedValid = false

/-- After any calls with batches of at most the ring size, however often the indices wrap: if the
guest's position was passed since `signalled_used` was recorded, `virtio_notify` raises an interrupt. -/
theorem interrupt_when_passed (features : Features) (hevent : features.eventIdx = true) (w : World)
    (hstarted : Started w) (hnum : w.vq.vring.num ≤ virtqueueMaxSize) (ops : List Op)
    (hops : ∀ op ∈ ops, BatchOk w.vq.vring.num op) (guest : GuestView)
    (hpassed : Passed (ops.foldl (step features) w) guest.usedEvent) :
    (virtioNotify features (ops.foldl (step features) w) guest).interrupts =
      (ops.foldl (step features) w).interrupts ++ [(ops.foldl (step features) w).vq.vector] := by
  have hstart : Tracks w :=
    ⟨hstarted.used, hstarted.recorded, fun hvalid => by
      rw [hstarted.invalid] at hvalid
      cases hvalid⟩
  have htracks : Tracks (ops.foldl (step features) w) :=
    Tracks.run (hnum.trans_lt (by decide)) ops hstart hops
  have hnotify := vringNotify_of_passed hevent htracks hpassed
  generalize ops.foldl (step features) w = w' at htracks hnotify ⊢
  have hframe : (vringNotify features w' guest).1.interrupts = w'.interrupts ∧
      (vringNotify features w' guest).1.vq.vector = w'.vq.vector := by
    unfold vringNotify
    split
    · exact ⟨rfl, rfl⟩
    · split <;> exact ⟨rfl, rfl⟩
  unfold virtioNotify
  dsimp only
  rw [if_pos hnotify, hframe.1, hframe.2]

def wrappingWorld : World :=
  ⟨⟨⟨4, 4096, 0x1000, 0x1040, 0x2000⟩, 0x1000, 65535, 0, false, true, 0, 7⟩, 65535, [], 0, [], 65535, 0⟩

/-- Two entries and a call, then three entries: the guest asks for the position 65538, whose index
is 2. -/
def wrappingOps : List Op :=
  [.pop, .pop, .fill 0 64 0, .fill 1 64 1, .flush 2, .notify ⟨65535, 0, 9⟩, .fill 2 64 0, .flush 3]

theorem interrupt_after_wrap :
    (virtioNotify ⟨true, true⟩ (wrappingOps.foldl (step ⟨true, true⟩) wrappingWorld)
        ⟨3, 0, 2⟩).interrupts =
      (wrappingOps.foldl (step ⟨true, true⟩) wrappingWorld).interrupts ++ [7] :=
  interrupt_when_passed ⟨true, true⟩ rfl wrappingWorld ⟨by decide, by decide, rfl⟩ (by decide)
    wrappingOps (by decide) ⟨3, 0, 2⟩ ⟨65538, by decide, by decide, by decide⟩

end QemuVmi.Virtio
