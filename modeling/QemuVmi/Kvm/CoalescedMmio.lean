import QemuVmi.Lib.RingWindow

/-!
# The ring of coalesced MMIO writes

`coalesced_mmio_write` of the kernel module appends writes of the guest to a ring of
`KVM_COALESCED_MMIO_MAX` entries, and `kvm_flush_coalesced_mmio_buffer` of the user
space takes them out. Producers run under `ring_lock`, so there is one at a time; the
consumer takes no lock. A step is one access that the other side can see:

* a producer takes the lock and tests for room, fills the entry at `last`, advances
  `last` and releases the lock;
* the consumer tests `first != last`, carries out the entry at `first`, and advances
  `first`.

The state also keeps what was appended and consumed over the whole run. The accesses
take effect in program order.

The test for room computes `first - last - 1` in 32 bits and then takes it modulo 170,
which does not divide `2 ^ 32`. While `last` is behind `first` in the ring that is the
number of free entries. Otherwise it is off by `2 ^ 32 % 170 = 86`:

* the ring counts as full when 85 entries are pending, and
* as not full when `first = 0` and `last = 169`, with 169 pending; one more entry makes
  `last = first`, and all 170 are lost.

`coalesced_mmio_iff` says that nothing else goes wrong.
-/

namespace QemuVmi.Kvm.CoalescedMmio

open Function RingWindow List Option

/-- `(PAGE_SIZE - sizeof(struct kvm_coalesced_mmio_ring)) / sizeof(struct kvm_coalesced_mmio)`. -/
def kvmCoalescedMmioMax : Nat := (4096 - 8) / 24

/-- `struct kvm_coalesced_mmio`. The length is that of the data. -/
structure Entry where
  physAddr : BitVec 64
  data : List (BitVec 8)
  fits : data.length ≤ 8
deriving DecidableEq

/-- `struct kvm_coalesced_mmio_zone`. -/
structure Zone where
  addr : BitVec 64
  size : BitVec 32

/-- `coalesced_mmio_in_range`. A length is never negative here. -/
def coalescedMmioInRange (zone : Zone) (addr : BitVec 64) (len : Nat) : Bool :=
  let stop := addr + BitVec.ofNat 64 len
  !(stop < addr || addr < zone.addr || stop > zone.addr + zone.size.setWidth 64)

/-- What the holder of `ring_lock` does next with its entry. -/
inductive Producer
  | fill (vcpu : Nat) (e : Entry)
  | advance (vcpu : Nat) (e : Entry)

/-- Where `kvm_flush_coalesced_mmio_buffer` is; `out` while it does not run. -/
inductive Consumer
  | out
  | test
  | handle
  | advance
deriving DecidableEq

structure State where
  first : Nat
  last : Nat
  coalescedMmio : Nat → Entry
  /-- The holder of `ring_lock`. -/
  lock : Option Producer
  consumer : Consumer
  /-- Not in the source: all entries that were appended. -/
  appended : List Entry
  /-- Not in the source: all entries that were carried out. -/
  consumed : List Entry
  /-- Not in the source: how often `first` was advanced. -/
  released : Nat
  /-- Not in the source: how many entries were pending at each write that found no room. -/
  refusals : List Nat

def State.initial (coalescedMmio : Nat → Entry) : State where
  first := 0
  last := 0
  coalescedMmio := coalescedMmio
  lock := none
  consumer := .out
  appended := []
  consumed := []
  released := 0
  refusals := []

section
variable (s : State)

def coalescedMmioHasRoom : Bool :=
  let avail := (BitVec.ofNat 32 s.first - BitVec.ofNat 32 s.last - 1#32).toNat % kvmCoalescedMmioMax
  avail != 0

inductive Event
  /-- A virtual CPU calls `coalesced_mmio_write` of a zone. It spins while the lock is held. -/
  | write (vcpu : Nat) (zone : Zone) (e : Entry)
  | produce
  /-- A call of `kvm_flush_coalesced_mmio_buffer`. -/
  | flush
  | consume

def State.produce : State :=
  match s.lock with
  | none => s
  | some (.fill vcpu e) =>
    { s with coalescedMmio := update s.coalescedMmio s.last e, lock := some (.advance vcpu e) }
  | some (.advance _ e) =>
    { s with last := (s.last + 1) % kvmCoalescedMmioMax, lock := none, appended := s.appended ++ [e] }

def State.consume : State :=
  match s.consumer with
  | .out => s
  | .test => { s with consumer := if s.first ≠ s.last then .handle else .out }
  | .handle => { s with consumed := s.consumed ++ [s.coalescedMmio s.first], consumer := .advance }
  | .advance =>
    { s with
      first := (s.first + 1) % kvmCoalescedMmioMax, released := s.released + 1, consumer := .test }

def State.write (vcpu : Nat) (zone : Zone) (e : Entry) : State :=
  if coalescedMmioInRange zone e.physAddr e.data.length then
    match s.lock with
    | some _ => s
    | none =>
      if coalescedMmioHasRoom s then { s with lock := some (.fill vcpu e) }
      else { s with refusals := s.refusals ++ [s.appended.length - s.released] }
  else s

def State.step : Event → State
  | .write vcpu zone e => s.write vcpu zone e
  | .produce => s.produce
  -- a second call returns at once, because of `coalesced_flush_in_progress`
  | .flush => if s.consumer = .out then { s with consumer := .test } else s
  | .consume => s.consume

/-- What the consumer finds between `first` and `last`. -/
def State.visible : List Entry :=
  (range ((s.last + kvmCoalescedMmioMax - s.first) % kvmCoalescedMmioMax)).map fun k =>
    s.coalescedMmio ((s.first + k) % kvmCoalescedMmioMax)

/-- What the ring is for: it holds all entries that were appended and not released yet,
entries are carried out in the order in which they were appended, and a write is refused
only with 169 entries pending. -/
structure Sound (s : State) : Prop where
  visible : s.visible = s.appended.drop s.released
  order : s.consumed = s.appended.take s.consumed.length
  progress : s.consumed.length = s.released ∨ s.consumed.length = s.released + 1
  refusals : ∀ n ∈ s.refusals, n = kvmCoalescedMmioMax - 1

def Throughout (P : State → Prop) (s : State) : List Event → Prop
  | [] => P s
  | event :: rest => P s ∧ Throughout P (s.step event) rest

/-- The steps at which the test for room goes wrong: a write while `first ≤ last` with 85
entries pending, and an advance of `last` from 169 to 0 while `first` is 0. -/
def Wrong : Event → Prop
  | .write _ zone e =>
      coalescedMmioInRange zone e.physAddr e.data.length = true ∧ s.lock = none ∧
        s.last = s.first + 85
  | .produce => (∃ vcpu e, s.lock = some (.advance vcpu e)) ∧ s.first = 0 ∧ s.last = 169
  | .flush | .consume => False
end

def NeverWrong (s : State) : List Event → Prop
  | [] => True
  | event :: rest => ¬ Wrong s event ∧ NeverWrong (s.step event) rest

lemma sub_sub_one {first last : Nat} (hfirst : first < 170) (hlast : last < 170) :
    (BitVec.ofNat 32 first - BitVec.ofNat 32 last - 1#32).toNat =
      if last < first then first - last - 1 else 2 ^ 32 - 1 - (last - first) := by
  have hfirst' : (BitVec.ofNat 32 first).toNat = first := Nat.mod_eq_of_lt (by omega)
  have hlast' : (BitVec.ofNat 32 last).toNat = last := Nat.mod_eq_of_lt (by omega)
  have hone : (1#32).toNat = 1 := rfl
  rw [BitVec.toNat_sub, BitVec.toNat_sub, hfirst', hlast', hone]
  split <;> omega

variable {s : State}

lemma hasRoom_eq_false_iff (hfirst : s.first < 170) (hlast : s.last < 170) :
    coalescedMmioHasRoom s = false ↔ s.first = s.last + 1 ∨ s.last = s.first + 85 := by
  have hmax : kvmCoalescedMmioMax = 170 := rfl
  simp only [coalescedMmioHasRoom, bne_eq_false_iff_eq, hmax, sub_sub_one hfirst hlast]
  split <;> omega

def Consumer.ahead : Consumer → Nat
  | .advance => 1
  | .out | .test | .handle => 0

structure Inv (s : State) : Prop where
  first : s.first = s.released % 170
  last : s.last = s.appended.length % 170
  released : s.released ≤ s.appended.length
  room : s.appended.length ≤ s.released + 169
  window : Window 170 s.coalescedMmio s.appended s.released
  order : s.consumed = s.appended.take s.consumed.length
  progress : s.consumed.length = s.released + s.consumer.ahead
  /-- The entry that the consumer works on is still in the ring. -/
  busy : s.consumer = .handle ∨ s.consumer = .advance → s.released < s.appended.length
  /-- The test for room is only wrong at the end of the ring. -/
  admitted : s.lock ≠ none → s.appended.length = s.released + 169 → s.first = 0
  filled : ∀ vcpu e, s.lock = some (.advance vcpu e) → s.coalescedMmio s.last = e
  refusals : ∀ n ∈ s.refusals, n = 169

lemma Inv.initial (coalescedMmio : Nat → Entry) : Inv (State.initial coalescedMmio) where
  first := rfl
  last := rfl
  released := le_refl 0
  room := Nat.zero_le _
  window _ _ hk := absurd hk (Nat.not_lt_zero _)
  order := rfl
  progress := rfl
  busy h := h.elim nofun nofun
  admitted h := absurd rfl h
  filled _ _ h := nomatch h
  refusals _ h := nomatch h

section
variable (h : Inv s)
include h

lemma Inv.first_lt : s.first < 170 := by
  rw [h.first]
  exact Nat.mod_lt _ (by decide)

lemma Inv.last_lt : s.last < 170 := by
  rw [h.last]
  exact Nat.mod_lt _ (by decide)

lemma Inv.pending : (s.last + 170 - s.first) % 170 = s.appended.length - s.released := by
  have hfirst := h.first
  have hlast := h.last
  have hreleased := h.released
  have hroom := h.room
  omega

lemma Inv.sound : Sound s where
  visible := by
    have hmax : kvmCoalescedMmioMax = 170 := rfl
    rw [← h.window.read, State.visible, hmax, h.pending, h.first]
    simp only [Nat.mod_add_mod]
  order := h.order
  progress := by
    rw [h.progress]
    cases s.consumer with
    | advance => exact .inr rfl
    | out | test | handle => exact .inl rfl
  refusals := h.refusals

lemma Inv.consumed_le : s.consumed.length ≤ s.appended.length := by
  have hprogress := h.progress
  cases hconsumer : s.consumer with
  | advance =>
    rw [hconsumer] at hprogress
    have hbusy := h.busy (.inr hconsumer)
    exact hprogress.trans_le hbusy
  | out | test | handle =>
    rw [hconsumer] at hprogress
    exact hprogress.trans_le h.released

/-! ### Writes -/

lemma Inv.write {vcpu : Nat} {zone : Zone} {e : Entry}
    (hright : ¬ Wrong s (.write vcpu zone e)) : Inv (s.write vcpu zone e) := by
  unfold State.write
  split
  case isFalse => exact h
  case isTrue hrange =>
    split
    next => exact h
    next hlock =>
      have hpending := h.pending
      have hiff := hasRoom_eq_false_iff h.first_lt h.last_lt
      split
      case isTrue hroom =>
        refine { h with admitted := fun _ hfull => ?_, filled := fun _ _ hheld => nomatch hheld }
        have hne : ¬ s.first = s.last + 1 := fun heq => by
          rw [hiff.mpr (.inl heq)] at hroom
          cases hroom
        have hlast := h.last_lt
        dsimp only at hfull ⊢
        omega
      case isFalse hroom =>
        refine { h with refusals := fun n hn => ?_ }
        rcases mem_append.mp hn with hn | hn
        · exact h.refusals n hn
        have hfull : s.first = s.last + 1 :=
          (hiff.mp (Bool.eq_false_of_not_eq_true hroom)).resolve_right fun hhalf =>
            hright ⟨hrange, hlock, hhalf⟩
        rw [mem_singleton.mp hn]
        omega

lemma Inv.write_wrong {vcpu : Nat} {zone : Zone} {e : Entry}
    (hwrong : Wrong s (.write vcpu zone e)) : ¬ Sound (s.write vcpu zone e) := by
  obtain ⟨hrange, hlock, hhalf⟩ := hwrong
  have hroom := (hasRoom_eq_false_iff h.first_lt h.last_lt).mpr (.inr hhalf)
  have hpending := h.pending
  have heq : s.write vcpu zone e =
      { s with refusals := s.refusals ++ [s.appended.length - s.released] } := by
    simp only [State.write, hrange, hlock, hroom, if_true, Bool.false_eq_true, if_false]
  rw [heq]
  intro hsound
  have hcount := hsound.refusals _ (mem_append_right _ mem_cons_self)
  have hmax : kvmCoalescedMmioMax = 170 := rfl
  omega

/-! ### The producer -/

lemma Inv.produce (hright : ¬ Wrong s .produce) : Inv s.produce := by
  have hroom := h.room
  unfold State.produce
  split
  next => exact h
  next vcpu e hlock =>
    refine { h with
      window := ?_
      admitted := fun _ => h.admitted (by rw [hlock]; exact some_ne_none _)
      filled := fun vcpu' e' hheld => ?_ }
    · rw [h.last]
      exact h.window.store (by omega) e
    · cases hheld
      exact update_self s.last e s.coalescedMmio
  next vcpu e hlock =>
    -- the entry is in its slot, and the ring is not full
    have hentry : s.coalescedMmio (s.appended.length % 170) = e := h.last ▸ h.filled vcpu e hlock
    have hfree : s.appended.length < s.released + 169 := by
      refine lt_of_le_of_ne hroom fun hfull => hright ⟨⟨vcpu, e, hlock⟩, ?_⟩
      have hfirst := h.admitted (by rw [hlock]; exact some_ne_none _) hfull
      have hpending := h.pending
      have hlast := h.last_lt
      omega
    refine { h with
      last := ?_, released := ?_, room := ?_, window := ?_, order := ?_, busy := fun hbusy => ?_,
      admitted := fun hheld => absurd rfl hheld, filled := fun _ _ hheld => nomatch hheld }
    · rw [h.last, length_append, length_singleton]
      exact Nat.mod_add_mod _ _ _
    · rw [length_append]
      exact Nat.le_add_right_of_le h.released
    · rwa [length_append]
    · have happend := h.window.append
      rwa [hentry] at happend
    · rw [take_append_of_le_length h.consumed_le]
      exact h.order
    · rw [length_append]
      exact Nat.lt_add_right _ (h.busy hbusy)

lemma Inv.produce_wrong (hwrong : Wrong s .produce) : ¬ Sound s.produce := by
  obtain ⟨⟨vcpu, e, hlock⟩, hfirst, hlast⟩ := hwrong
  have hpending := h.pending
  intro hsound
  have hvisible := congrArg length hsound.visible
  simp only [State.produce, hlock, State.visible, hfirst, hlast, length_map, length_range,
    length_drop, length_append, length_singleton] at hvisible
  have hmax : kvmCoalescedMmioMax = 170 := rfl
  rw [hmax] at hvisible
  omega

/-! ### The consumer -/

lemma Inv.consume : Inv s.consume := by
  have hpending := h.pending
  have hprogress := h.progress
  unfold State.consume
  split
  next => exact h
  next hconsumer =>
    rw [hconsumer] at hprogress
    by_cases hne : s.first ≠ s.last
    · rw [if_pos hne]
      refine { h with progress := hprogress, busy := fun _ => ?_ }
      have hfirst := h.first_lt
      have hlast := h.last_lt
      dsimp only
      omega
    · rw [if_neg hne]
      exact { h with progress := hprogress, busy := fun hbusy => hbusy.elim nofun nofun }
  next hconsumer =>
    rw [hconsumer] at hprogress
    have hbusy := h.busy (.inl hconsumer)
    have hentry := h.window s.released (le_refl _) hbusy
    refine { h with order := ?_, progress := ?_, busy := fun _ => hbusy }
    · have hlen : s.consumed.length = s.released := hprogress
      rw [length_append, length_singleton, take_add_one, ← h.order, hlen, hentry,
        h.first, toList_some]
    · rw [length_append, hprogress]
      rfl
  next hconsumer =>
    rw [hconsumer] at hprogress
    have hbusy := h.busy (.inr hconsumer)
    have hroom := h.room
    refine { h with
      first := ?_, released := hbusy, room := by dsimp only; omega
      window := h.window.mono (Nat.le_succ _)
      progress := hprogress, busy := fun hbusy => hbusy.elim nofun nofun
      admitted := fun _ hfull => by dsimp only at hfull; omega }
    rw [h.first]
    exact Nat.mod_add_mod _ _ _

lemma Inv.step {event : Event} (hright : ¬ Wrong s event) : Inv (s.step event) := by
  cases event with
  | write vcpu zone e => exact h.write hright
  | produce => exact h.produce hright
  | consume => exact h.consume
  | flush =>
    unfold State.step
    dsimp only
    split
    case isFalse => exact h
    case isTrue hout =>
      have hprogress := h.progress
      rw [hout] at hprogress
      exact { h with progress := hprogress, busy := fun hbusy => hbusy.elim nofun nofun }

lemma Inv.step_wrong {event : Event} (hwrong : Wrong s event) : ¬ Sound (s.step event) := by
  cases event with
  | write vcpu zone e => exact h.write_wrong hwrong
  | produce => exact h.produce_wrong hwrong
  | flush | consume => exact hwrong.elim
end

lemma Throughout.head {P : State → Prop} {events : List Event} (h : Throughout P s events) :
    P s := by
  cases events with
  | nil => exact h
  | cons => exact h.1

lemma Inv.throughout_iff (h : Inv s) (events : List Event) :
    Throughout Sound s events ↔ NeverWrong s events := by
  induction events generalizing s with
  | nil => exact ⟨fun _ => trivial, fun _ => h.sound⟩
  | cons event rest ih =>
    by_cases hwrong : Wrong s event
    · exact ⟨fun hall => absurd hall.2.head (h.step_wrong hwrong), fun hnever => absurd hwrong hnever.1⟩
    · exact ⟨fun hall => ⟨hwrong, (ih (h.step hwrong)).mp hall.2⟩,
        fun hnever => ⟨h.sound, (ih (h.step hwrong)).mpr hnever.2⟩⟩

/-- For every interleaving of writes of any number of virtual CPUs with the consumer:
no entry is overwritten, dropped or taken out of order, and writes are refused only with
169 entries pending, exactly if no write comes with 85 entries pending while `first` is
not ahead of `last`, and `last` is not advanced from 169 while `first` is 0. -/
theorem coalesced_mmio_iff (coalescedMmio : Nat → Entry) (events : List Event) :
    Throughout Sound (State.initial coalescedMmio) events ↔
      NeverWrong (State.initial coalescedMmio) events :=
  (Inv.initial coalescedMmio).throughout_iff events

def exEntry : Entry := { physAddr := 0, data := [], fits := Nat.zero_le 8 }

def exWrites (n : Nat) : List Event :=
  (replicate n [.write 0 ⟨0, 8⟩ exEntry, .produce, .produce]).flatten

def exReads (n : Nat) : List Event := replicate (3 * n) .consume

def State.run (s : State) (events : List Event) : State := events.foldl State.step s

def exInitial : State := State.initial fun _ => exEntry

def exLoss : State :=
  exInitial.run (.flush :: exWrites 84 ++ exReads 84 ++ exWrites 16 ++ exReads 16 ++ exWrites 169 ++
    exReads 70 ++ exWrites 71)

/-- With an empty ring at the start, the 86th write is refused. And a ring of which all
entries but one are in use takes one more, after which the consumer finds none. -/
theorem coalesced_mmio_loses_entries : (exInitial.run (exWrites 86)).refusals = [85] ∧
    exLoss.refusals = [] ∧ exLoss.visible = [] ∧ exLoss.appended.length - exLoss.released = 170 := by
  decide +kernel

end QemuVmi.Kvm.CoalescedMmio
