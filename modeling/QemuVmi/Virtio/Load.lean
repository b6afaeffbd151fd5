import QemuVmi.Virtio.Queue

/-!
# Loading a virtio device

`virtio_load` reads the state of a device from a migration stream. The length of the configuration
space, the number of queues and the size of each queue are taken over as they are: the code compares
none of them with what was allocated for the device.

Results:
1. `config_access_in_bounds`: accesses to the configuration space of a device with the right length.
2. `virtio_load_safe_iff`: the streams after which every access is inside of what was allocated.
-/

namespace QemuVmi.Virtio

open Function

def virtioPciQueueMax : Nat := 64

/-- `config` is the buffer that `virtio_init` allocates. -/
structure VirtIODevice where
  status : UInt8
  isr : UInt8
  queueSel : UInt16
  guestFeatures : UInt32
  configLen : Nat
  config : List UInt8
  vq : Nat → VirtQueue

def vringAlign (addr align : UInt64) : UInt64 := (addr + align - 1) &&& ~~~(align - 1)

def virtqueueInit (vq : VirtQueue) : VirtQueue :=
  let avail := (vq.pa + vq.vring.num * vringDescSize) % 2 ^ 64
  { vq with vring := { vq.vring with
      desc := vq.pa
      avail := avail
      used := (vringAlign (UInt64.ofNat (avail + 4 + 2 * vq.vring.num))
        (UInt64.ofNat vq.vring.align)).toNat } }

/-- `vring_avail_idx` while the guest does not run. -/
def loadAvailIdx (guest : Nat → UInt16) (vq : VirtQueue) : Nat :=
  (guest ((vq.vring.avail + 2) % 2 ^ 64)).toNat

/-- `virtio_init`: the queues are added later. -/
def virtioInit (configSize : Nat) : VirtIODevice where
  status := 0
  isr := 0
  queueSel := 0
  guestFeatures := 0
  configLen := configSize
  config := List.replicate configSize 0
  vq := fun _ => ⟨⟨0, 0, 0, 0, 0⟩, 0, 0, 0, false, false, 0, 0xffff⟩

/-- What an access gives: all ones or nothing beyond `config_len`, or the bytes. -/
inductive Access (α : Type)
  | beyond
  | done (value : α)
  | overrun

/-- The reads of `width` bytes. -/
def virtioConfigRead (width : Nat) (vdev : VirtIODevice) (addr : UInt32) : Access (List UInt8) :=
  if addr.toNat + width > vdev.configLen then .beyond
  else if addr.toNat + width > vdev.config.length then .overrun
  else .done ((vdev.config.drop addr.toNat).take width)

def virtioConfigReadb := virtioConfigRead 1

def virtioConfigReadw := virtioConfigRead 2

def virtioConfigReadl := virtioConfigRead 4

def virtioConfigWrite (vdev : VirtIODevice) (addr : UInt32) (bytes : List UInt8) :
    Access VirtIODevice :=
  if addr.toNat + bytes.length > vdev.configLen then .beyond
  else if addr.toNat + bytes.length > vdev.config.length then .overrun
  else
    .done { vdev with
      config := vdev.config.take addr.toNat ++ bytes ++ vdev.config.drop (addr.toNat + bytes.length) }

/-! ## `virtio_load` -/

structure Bus where
  hasLoadConfig : Bool
  hasVariableVringAlignment : Bool
  hasLoadQueue : Bool
  supportedFeatures : UInt32

/-- The part of the stream for a queue, with what `load_queue` returns for its own part. -/
structure QueueRecord where
  num : UInt32
  align : UInt32
  pa : UInt64
  lastAvailIdx : UInt16
  loadQueue : Int

structure Stream where
  /-- What `load_config` returns for its own part. -/
  loadConfig : Int
  status : UInt8
  isr : UInt8
  queueSel : UInt16
  features : UInt32
  configLen : UInt32
  config : Nat → UInt8
  num : UInt32
  queue : Nat → QueueRecord

inductive Loaded
  | error (ret : Int)
  | ok (vdev : VirtIODevice)
  /-- A store behind the buffer or behind the array of queues. -/
  | overrun

/-- A number of 32 bits as an `int`. -/
def toInt (a : UInt32) : Int := if a.toNat < 2 ^ 31 then a.toNat else (a.toNat : Int) - 2 ^ 32

def readQueue (bus : Bus) (vq : VirtQueue) (r : QueueRecord) : VirtQueue :=
  { vq with
    vring := { vq.vring with
      num := r.num.toNat
      align := if bus.hasVariableVringAlignment then r.align.toNat else vq.vring.align }
    pa := r.pa.toNat
    lastAvailIdx := r.lastAvailIdx.toNat
    signalledUsedValid := false
    notification := true }

/-- The body of the loop: the queue, or what is returned. -/
def loadQueue (bus : Bus) (guest : Nat → UInt16) (vq : VirtQueue) (r : QueueRecord) :
    Except Int VirtQueue :=
  let vq := readQueue bus vq r
  let checked : Except Int VirtQueue :=
    if vq.pa ≠ 0 then
      let vq := virtqueueInit vq
      if sub16 (loadAvailIdx guest vq) vq.lastAvailIdx > vq.vring.num then .error (-1) else .ok vq
    else if vq.lastAvailIdx ≠ 0 then .error (-1)
    else .ok vq
  match checked with
  | .error ret => .error ret
  | .ok vq => if bus.hasLoadQueue ∧ r.loadQueue ≠ 0 then .error r.loadQueue else .ok vq

/-- The loop over the queues from the `i`th one on. -/
def loadQueues (bus : Bus) (guest : Nat → UInt16) (queue : Nat → QueueRecord) :
    Nat → Nat → VirtIODevice → Loaded
  | 0, _, vdev => .ok vdev
  | n + 1, i, vdev =>
    if i ≥ virtioPciQueueMax then .overrun
    else
      match loadQueue bus guest (vdev.vq i) (queue i) with
      | .error ret => .error ret
      | .ok vq => loadQueues bus guest queue n (i + 1) { vdev with vq := update vdev.vq i vq }

/-- `qemu_get_buffer` into the configuration: the length is an `int`. -/
def getConfig (config : List UInt8) (len : UInt32) (bytes : Nat → UInt8) : Option (List UInt8) :=
  let size := (toInt len).toNat
  if size > config.length then none
  else some ((List.range size).map bytes ++ config.drop size)

def virtioLoad (bus : Bus) (guest : Nat → UInt16) (vdev : VirtIODevice) (s : Stream) : Loaded :=
  if bus.hasLoadConfig ∧ s.loadConfig ≠ 0 then .error s.loadConfig
  else
    let vdev := { vdev with status := s.status, isr := s.isr, queueSel := s.queueSel,
                            guestFeatures := s.features &&& bus.supportedFeatures }
    if s.features &&& ~~~bus.supportedFeatures ≠ 0 then .error (-1)
    else
      match getConfig vdev.config s.configLen s.config with
      | none => .overrun
      | some config =>
        loadQueues bus guest s.queue (toInt s.num).toNat 0
          { vdev with configLen := s.configLen.toNat, config := config }

def HeadsOk (guest : Nat → UInt16) (vq : VirtQueue) : Prop :=
  vq.pa ≠ 0 → sub16 (loadAvailIdx guest vq) vq.lastAvailIdx ≤ vq.vring.num

/-- A queue for which `virtio_load` returns an error. -/
def RefusedQueue (bus : Bus) (guest : Nat → UInt16) (r : QueueRecord) : Prop :=
  (if r.pa.toNat ≠ 0 then
    sub16 (guest (((r.pa.toNat + r.num.toNat * vringDescSize) % 2 ^ 64 + 2) % 2 ^ 64)).toNat
      r.lastAvailIdx.toNat > r.num.toNat
  else r.lastAvailIdx.toNat ≠ 0) ∨ (bus.hasLoadQueue ∧ r.loadQueue ≠ 0)

variable {bus : Bus} {config : List UInt8} {s : Stream}

lemma loadQueue_refused {guest : Nat → UInt16} {r : QueueRecord} (h : RefusedQueue bus guest r)
    (vq : VirtQueue) : ∃ ret, loadQueue bus guest vq r = .error ret := by
  unfold loadQueue
  by_cases hpa : r.pa.toNat = 0
  · by_cases hlast : r.lastAvailIdx.toNat = 0
    · have hqueue : bus.hasLoadQueue = true ∧ r.loadQueue ≠ 0 := by
        simpa [RefusedQueue, hpa, hlast] using h
      exact ⟨r.loadQueue, by simp [readQueue, hpa, hlast, hqueue]⟩
    · exact ⟨-1, by simp [readQueue, hpa, hlast]⟩
  by_cases hheads : sub16 (guest (((r.pa.toNat + r.num.toNat * vringDescSize) % 2 ^ 64 + 2) %
      2 ^ 64)).toNat r.lastAvailIdx.toNat > r.num.toNat
  · refine ⟨-1, ?_⟩
    simp only [readQueue, virtqueueInit, loadAvailIdx, ne_eq, hpa, not_false_eq_true, if_true, hheads]
  have hqueue : bus.hasLoadQueue = true ∧ r.loadQueue ≠ 0 := by
    simpa only [RefusedQueue, ne_eq, hpa, not_false_eq_true, if_true, hheads, false_or] using h
  refine ⟨r.loadQueue, ?_⟩
  simp only [readQueue, virtqueueInit, loadAvailIdx, ne_eq, hpa, not_false_eq_true, if_true, hheads,
    if_false]
  rw [if_pos hqueue]

lemma loadQueue_accepted {guest : Nat → UInt16} {r : QueueRecord} (h : ¬ RefusedQueue bus guest r)
    (vq : VirtQueue) :
    ∃ vq', loadQueue bus guest vq r = .ok vq' ∧ vq'.vring.num = r.num.toNat ∧ HeadsOk guest vq' := by
  have hqueue : ¬ (bus.hasLoadQueue = true ∧ r.loadQueue ≠ 0) := fun hq => h (.inr hq)
  unfold loadQueue
  by_cases hpa : r.pa.toNat = 0
  · have hlast : r.lastAvailIdx.toNat = 0 := by
      by_contra hlast
      exact h (.inl (by simpa [hpa] using hlast))
    refine ⟨readQueue bus vq r, ?_, rfl, fun hne => absurd hpa hne⟩
    simp only [readQueue, ne_eq, hpa, hlast, not_true_eq_false, if_false]
    rw [if_neg hqueue]
  have hheads : ¬ sub16 (guest (((r.pa.toNat + r.num.toNat * vringDescSize) % 2 ^ 64 + 2) %
      2 ^ 64)).toNat r.lastAvailIdx.toNat > r.num.toNat := by
    intro hheads
    refine h (.inl ?_)
    rwa [if_pos hpa]
  refine ⟨virtqueueInit (readQueue bus vq r), ?_, rfl, fun _ => not_lt.mp hheads⟩
  simp only [readQueue, virtqueueInit, loadAvailIdx, ne_eq, hpa, not_false_eq_true, if_true, hheads,
    if_false]
  rw [if_neg hqueue]

structure QueuesFrom (guest : Nat → UInt16) (queue : Nat → QueueRecord) (i n : Nat)
    (vdev vdev' : VirtIODevice) : Prop where
  configLen : vdev'.configLen = vdev.configLen
  config : vdev'.config = vdev.config
  loaded : ∀ j, i ≤ j → j < i + n →
    (vdev'.vq j).vring.num = (queue j).num.toNat ∧ HeadsOk guest (vdev'.vq j)
  kept : ∀ j, j < i ∨ i + n ≤ j → vdev'.vq j = vdev.vq j

/-- The loop over the queues: the first one that is refused ends it, and so does the first one behind
the array. -/
lemma loadQueues_spec (bus : Bus) (guest : Nat → UInt16) (queue : Nat → QueueRecord) (n : Nat) :
    ∀ (i : Nat) (vdev : VirtIODevice), i ≤ virtioPciQueueMax →
      match loadQueues bus guest queue n i vdev with
      | .error _ => ∃ j, i ≤ j ∧ j < i + n ∧ j < virtioPciQueueMax ∧ RefusedQueue bus guest (queue j)
      | .overrun => virtioPciQueueMax < i + n ∧
          ∀ j, i ≤ j → j < virtioPciQueueMax → ¬ RefusedQueue bus guest (queue j)
      | .ok vdev' => i + n ≤ virtioPciQueueMax ∧
          (∀ j, i ≤ j → j < i + n → ¬ RefusedQueue bus guest (queue j)) ∧
          QueuesFrom guest queue i n vdev vdev' := by
  induction n with
  | zero =>
    intro i vdev hi
    exact ⟨hi, fun j _ _ => by omega, rfl, rfl, fun j _ _ => by omega, fun _ _ => rfl⟩
  | succ n ih =>
    intro i vdev hi
    rw [loadQueues]
    by_cases hmax : i ≥ virtioPciQueueMax
    · rw [if_pos hmax]
      exact ⟨by omega, fun j _ _ => by omega⟩
    rw [if_neg hmax]
    by_cases hrefused : RefusedQueue bus guest (queue i)
    · obtain ⟨ret, hret⟩ := loadQueue_refused hrefused (vdev.vq i)
      rw [hret]
      exact ⟨i, le_refl i, by omega, by omega, hrefused⟩
    obtain ⟨vq, hvq, hnum, hheads⟩ := loadQueue_accepted hrefused (vdev.vq i)
    rw [hvq]
    have hrest := ih (i + 1) { vdev with vq := update vdev.vq i vq } (by omega)
    -- what the rest of the loop says of the queues after this one
    have hfrom : ∀ j, i ≤ j → j = i ∨ i + 1 ≤ j := fun j hj => by omega
    dsimp only
    split at hrest
    · obtain ⟨j, hij, hjn, hjmax, hj⟩ := hrest
      exact ⟨j, by omega, by omega, hjmax, hj⟩
    · refine ⟨by omega, fun j hij hjmax => ?_⟩
      rcases hfrom j hij with rfl | hj
      · exact hrefused
      · exact hrest.2 j hj hjmax
    obtain ⟨hle, haccepted, hqueues⟩ := hrest
    refine ⟨by omega, fun j hij hjn => ?_, hqueues.configLen, hqueues.config,
      fun j hij hjn => ?_, fun j hj => ?_⟩
    · rcases hfrom j hij with rfl | hj
      · exact hrefused
      · exact haccepted j hj (by omega)
    · rcases hfrom j hij with rfl | hj
      · rw [hqueues.kept j (.inl (Nat.lt_succ_self j))]
        simp only [update_self]
        exact ⟨hnum, hheads⟩
      · exact hqueues.loaded j hj (by omega)
    · rw [hqueues.kept j (by omega)]
      exact update_of_ne (by omega) _ _

/-- A device with a configuration of `size` bytes. -/
structure Safe (guest : Nat → UInt16) (size : Nat) (vdev : VirtIODevice) : Prop where
  nums : ∀ i < virtioPciQueueMax, (vdev.vq i).vring.num ≤ virtqueueMaxSize
  configLen : vdev.configLen = size
  config : vdev.config.length = size
  heads : ∀ i < virtioPciQueueMax, HeadsOk guest (vdev.vq i)

def AccessesInBounds (vdev : VirtIODevice) : Prop :=
  ∀ addr, (∀ width, virtioConfigRead width vdev addr ≠ .overrun) ∧
    ∀ bytes, virtioConfigWrite vdev addr bytes ≠ .overrun

lemma config_access_in_bounds {vdev : VirtIODevice} (h : vdev.configLen = vdev.config.length) :
    AccessesInBounds vdev := by
  intro addr
  refine ⟨fun width => ?_, fun bytes => ?_⟩
  · unfold virtioConfigRead
    split
    · nofun
    · rw [if_neg (by omega)]
      nofun
  unfold virtioConfigWrite
  split
  · nofun
  · rw [if_neg (by omega)]
    nofun

def Fresh (vdev : VirtIODevice) : Prop :=
  ∀ i < virtioPciQueueMax, (vdev.vq i).vring.num ≤ virtqueueMaxSize ∧ (vdev.vq i).pa = 0

def RefusedHeader (bus : Bus) (s : Stream) : Prop :=
  (bus.hasLoadConfig ∧ s.loadConfig ≠ 0) ∨ s.features &&& ~~~bus.supportedFeatures ≠ 0

structure SizesOk (size : Nat) (s : Stream) : Prop where
  configLen : s.configLen.toNat = size
  num : (toInt s.num).toNat ≤ virtioPciQueueMax
  nums : ∀ i < (toInt s.num).toNat, (s.queue i).num.toNat ≤ virtqueueMaxSize

lemma toInt_toNat_le (a : UInt32) : (toInt a).toNat ≤ a.toNat := by
  have hlt := a.toNat_lt
  unfold toInt
  split <;> omega

lemma getConfig_length {config' : List UInt8} {len : UInt32} {bytes : Nat → UInt8}
    (h : getConfig config len bytes = some config') :
    (toInt len).toNat ≤ config.length ∧ config'.length = config.length := by
  unfold getConfig at h
  dsimp only at h
  split at h
  · cases h
  · cases h
    simp only [List.length_append, List.length_map, List.length_range, List.length_drop]
    omega

lemma getConfig_of_le {len : UInt32} (h : (toInt len).toNat ≤ config.length) (bytes : Nat → UInt8) :
    ∃ config', getConfig config len bytes = some config' := by
  unfold getConfig
  rw [if_neg (not_lt.mpr h)]
  exact ⟨_, rfl⟩

section
variable (guest : Nat → UInt16) (vdev : VirtIODevice)

lemma virtioLoad_accepted (h : ¬ RefusedHeader bus s)
    (hconfig : getConfig vdev.config s.configLen s.config = some config) :
    ∃ vdev₁ : VirtIODevice, vdev₁.vq = vdev.vq ∧ vdev₁.configLen = s.configLen.toNat ∧
      vdev₁.config = config ∧
      virtioLoad bus guest vdev s = loadQueues bus guest s.queue (toInt s.num).toNat 0 vdev₁ := by
  refine ⟨⟨s.status, s.isr, s.queueSel, s.features &&& bus.supportedFeatures, s.configLen.toNat, config,
    vdev.vq⟩, rfl, rfl, rfl, ?_⟩
  rw [virtioLoad, if_neg fun hload => h (.inl hload)]
  rw [if_neg fun hfeatures => h (.inr hfeatures), hconfig]

lemma virtioLoad_header (h : RefusedHeader bus s) :
    ∃ ret, virtioLoad bus guest vdev s = .error ret := by
  unfold virtioLoad
  split
  · exact ⟨_, rfl⟩
  next hload =>
    rw [if_pos (h.resolve_left hload)]
    exact ⟨_, rfl⟩

lemma virtioLoad_overrun (h : ¬ RefusedHeader bus s)
    (hconfig : getConfig vdev.config s.configLen s.config = none) :
    virtioLoad bus guest vdev s = .overrun := by
  rw [virtioLoad, if_neg fun hload => h (.inl hload)]
  rw [if_neg fun hfeatures => h (.inr hfeatures), hconfig]
end

/-- `virtio_load` returns an error or leaves a device that the rest of the code can rely on exactly
for the streams that are refused for something else before a store out of bounds, and for those whose
length of the configuration, number of queues and sizes of queues are in range. -/
theorem virtio_load_safe_iff (bus : Bus) (guest : Nat → UInt16) (vdev : VirtIODevice) (s : Stream)
    (hfresh : Fresh vdev) :
    ((∃ ret, virtioLoad bus guest vdev s = .error ret) ∨
      ∃ vdev', virtioLoad bus guest vdev s = .ok vdev' ∧
        (toInt s.num).toNat ≤ virtioPciQueueMax ∧ Safe guest vdev.config.length vdev' ∧
        AccessesInBounds vdev') ↔
    RefusedHeader bus s ∨ ((toInt s.configLen).toNat ≤ vdev.config.length ∧
        ∃ i < (toInt s.num).toNat, i < virtioPciQueueMax ∧ RefusedQueue bus guest (s.queue i)) ∨
      SizesOk vdev.config.length s := by
  by_cases hheader : RefusedHeader bus s
  · exact ⟨fun _ => .inl hheader, fun _ => .inl (virtioLoad_header guest vdev hheader)⟩
  cases hconfig : getConfig vdev.config s.configLen s.config with
  | none =>
    -- neither side holds: the buffer is overrun
    have hoverrun := virtioLoad_overrun guest vdev hheader hconfig
    have hlong : ¬ (toInt s.configLen).toNat ≤ vdev.config.length := by
      intro hle
      obtain ⟨config, hsome⟩ := getConfig_of_le hle s.config
      rw [hsome] at hconfig
      cases hconfig
    constructor
    · rintro (⟨ret, hret⟩ | ⟨vdev', hok, _⟩)
      · rw [hoverrun] at hret
        cases hret
      · rw [hoverrun] at hok
        cases hok
    · rintro (h | h | h)
      · exact absurd h hheader
      · exact absurd h.1 hlong
      · exact absurd (h.configLen ▸ toInt_toNat_le s.configLen) hlong
  | some config =>
    obtain ⟨vdev₁, hvq, hlen, hbuf, hload⟩ := virtioLoad_accepted guest vdev hheader hconfig
    obtain ⟨hfits, hlength⟩ := getConfig_length hconfig
    have hspec := loadQueues_spec bus guest s.queue (toInt s.num).toNat 0 vdev₁ (by decide)
    rw [hload]
    split at hspec
    next ret herror =>
      obtain ⟨i, _, hin, himax, hi⟩ := hspec
      rw [herror]
      exact ⟨fun _ => .inr (.inl ⟨hfits, i, by omega, himax, hi⟩), fun _ => .inl ⟨ret, rfl⟩⟩
    next hoverrun =>
      rw [hoverrun]
      constructor
      · rintro (⟨ret, hret⟩ | ⟨vdev', hok, _⟩)
        · cases hret
        · cases hok
      rintro (h | ⟨_, i, _, himax, hi⟩ | h)
      · exact absurd h hheader
      · exact absurd hi (hspec.2 i (Nat.zero_le i) himax)
      · have := h.num
        omega
    next vdev' hok =>
      obtain ⟨hnum, haccepted, hqueues⟩ := hspec
      rw [zero_add] at hnum
      rw [hok]
      constructor
      · rintro (⟨ret, hret⟩ | ⟨vdev'', hok', _, hsafe, _⟩)
        · cases hret
        · cases hok'
          refine .inr (.inr ⟨?_, hnum, fun i hi => ?_⟩)
          · rw [← hlen, ← hqueues.configLen, hsafe.configLen]
          · rw [← (hqueues.loaded i (Nat.zero_le i) (by omega)).1]
            exact hsafe.nums i (by omega)
      · rintro (h | ⟨_, i, hi, _, hrefused⟩ | h)
        · exact absurd h hheader
        · exact absurd hrefused (haccepted i (Nat.zero_le i) (by omega))
        · have hsize : vdev'.configLen = vdev.config.length := by
            rw [hqueues.configLen, hlen, h.configLen]
          have hbuffer : vdev'.config.length = vdev.config.length := by
            rw [hqueues.config, hbuf, hlength]
          refine .inr ⟨vdev', rfl, hnum, ⟨fun i hi => ?_, hsize, hbuffer, fun i hi => ?_⟩,
            config_access_in_bounds (hsize.trans hbuffer.symm)⟩
          · by_cases hin : i < (toInt s.num).toNat
            · rw [(hqueues.loaded i (Nat.zero_le i) (by omega)).1]
              exact h.nums i hin
            · rw [hqueues.kept i (.inr (by omega)), hvq]
              exact (hfresh i hi).1
          by_cases hin : i < (toInt s.num).toNat
          · exact (hqueues.loaded i (Nat.zero_le i) (by omega)).2
          · intro hpa
            rw [hqueues.kept i (.inr (by omega)), hvq] at hpa
            exact absurd (hfresh i hi).2 hpa

def sampleDevice : VirtIODevice :=
  { virtioInit 8 with
    vq := fun i => ⟨⟨if i = 0 then 256 else 0, 4096, 0, 0, 0⟩, 0, 0, 0, false, true, 0, 0xffff⟩ }

lemma fresh_sampleDevice : Fresh sampleDevice := by
  intro i _
  refine ⟨?_, rfl⟩
  simp only [sampleDevice]
  split <;> decide

def sampleBus : Bus := ⟨false, false, false, 0xff⟩

def sampleStream (configLen num queueNum : UInt32) : Stream :=
  ⟨0, 0, 0, 0, 0, configLen, fun _ => 0, num, fun _ => ⟨queueNum, 0, 0, 0, 0⟩⟩

theorem virtio_load_sample :
    (∃ ret, virtioLoad sampleBus (fun _ => 0) sampleDevice (sampleStream 8 1 256) = .error ret) ∨
      ∃ vdev', virtioLoad sampleBus (fun _ => 0) sampleDevice (sampleStream 8 1 256) = .ok vdev' ∧
        (toInt 1).toNat ≤ virtioPciQueueMax ∧ Safe (fun _ => 0) 8 vdev' ∧ AccessesInBounds vdev' :=
  (virtio_load_safe_iff sampleBus (fun _ => 0) sampleDevice (sampleStream 8 1 256)
    fresh_sampleDevice).mpr
      (.inr (.inr ⟨by decide, by decide, fun _ _ => (by decide : (256 : UInt32).toNat ≤ 1024)⟩))

/-- A stream with a length of the configuration and a size of a queue that the device has no room
for: the load succeeds, and a read behind the buffer passes the check of `virtio_config_readl`. With
65 queues the load stores behind the array of queues. -/
theorem virtio_load_takes_sizes :
    (∃ vdev', virtioLoad sampleBus (fun _ => 0) sampleDevice (sampleStream 0xffffffff 1 2000) =
        .ok vdev' ∧ (vdev'.vq 0).vring.num = 2000 ∧ virtioConfigReadl vdev' 8 = .overrun) ∧
      virtioLoad sampleBus (fun _ => 0) sampleDevice (sampleStream 8 65 256) = .overrun :=
  ⟨⟨_, rfl, rfl, rfl⟩, rfl⟩

end QemuVmi.Virtio
