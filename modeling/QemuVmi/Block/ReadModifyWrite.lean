import QemuVmi.Block.TrackedRequests
import QemuVmi.Lib.OptionFold

/-!
# Read-modify-write cycles

A write that is not aligned stores whole blocks. What it stores outside its own range is what it has
read there, and no other request is in the driver for these bytes from the read to the write. This
does not hold for a write of zeroes: `BDRV_REQ_ZERO_WRITE` is passed on with the padded range, so that
zeroes are stored in the whole blocks.

Results:
1. `Ok.congr`: what a request has read stays in the image while other requests write.
2. `step_spec`: a step keeps the invariant and changes only bytes of the write it belongs to, to the
   data of that write.
3. `writes_stay_in_range`: what the image holds after any run of requests.
-/

namespace QemuVmi.Block

open List Option Nat

/-! ## What the requests are for -/

def Write.Covers (w : Write) (x : Nat) : Prop := w.offset ≤ x ∧ x < w.offset + w.bytes

instance Write.decidableCovers (w : Write) (x : Nat) : Decidable (w.Covers x) :=
  inferInstanceAs (Decidable (_ ∧ _))

/-- The byte that the write is for at `x`. -/
def Write.byte (w : Write) (x : Nat) : UInt8 :=
  if w.zero then 0 else (w.qiov.getD []).getD (x - w.offset) 0

def Write.ZeroAligned (align : Nat) (w : Write) : Prop :=
  w.zero = true → misalignment align w.offset = 0 ∧ misalignment align (w.offset + w.bytes) = 0

instance (align : Nat) (w : Write) : Decidable (w.ZeroAligned align) :=
  inferInstanceAs (Decidable (_ → _))

def Matches (image : Nat → UInt8) (w : Write) (offset : Nat) (data : List UInt8) : Prop :=
  ∀ i < data.length,
    data.getD i 0 = if w.Covers (offset + i) then w.byte (offset + i) else image (offset + i)

/-! ## The invariant -/

structure Tracks (t : Tracked) (w : Write) : Prop where
  req : t.req = .write w
  offset : t.trackedOffset = w.offset
  bytes : t.trackedBytes = w.bytes

/-- The variables of `bdrv_co_do_pwritev` before the padding. -/
structure Unpadded (t : Tracked) (w : Write) : Prop where
  tracks : Tracks t w
  offset : t.offset = w.offset
  bytes : t.bytes = w.bytes
  localQiov : t.localQiov = none

structure Padded (align : Nat) (t : Tracked) (w : Write) : Prop where
  serialising : t.serialising = true
  offset : t.overlapOffset = alignDown align w.offset
  last : t.overlapOffset + t.overlapBytes = roundUp align (w.offset + w.bytes)

inductive First (align : Nat) (t : Tracked) : Point → Prop
  | read {offset bytes : Nat} (hreq : t.req = .read offset bytes) (hserial : t.serialising = false) :
      First align t (.preadv .all)
  | head {w : Write} (hw : Unpadded t w) (hpad : Padded align t w) (hzero : w.zero = false)
      (hhead : misalignment align w.offset ≠ 0) : First align t .head
  | tail {w : Write} (hw : Unpadded t w) (hpad : Padded align t w) (hzero : w.zero = false)
      (hhead : misalignment align w.offset = 0)
      (htail : misalignment align (w.offset + w.bytes) ≠ 0) : First align t .tail
  | aligned {w : Write} (hw : Unpadded t w) (hserial : t.serialising = false)
      (hoffset : t.overlapOffset = w.offset) (hbytes : t.overlapBytes = w.bytes) :
      First align t .pwritev

/-- A write that starts with a whole block, after the head was read or where there is none. -/
structure Body (align : Nat) (image : Nat → UInt8) (t : Tracked) (w : Write) : Prop where
  tracks : Tracks t w
  padded : Padded align t w
  zero : w.zero = false
  offset : t.offset = alignDown align w.offset
  last : t.offset + t.bytes = w.offset + w.bytes
  data : ∀ data, t.localQiov.or w.qiov = some data →
    data.length = t.bytes ∧ Matches image w t.offset data

inductive Ok (align : Nat) (image : Nat → UInt8) (t : Tracked) : Prop
  | waiting {point : Point} {id : Nat} {woken : Bool} (hfirst : First align t point)
      (hphase : t.phase = .waiting point id woken)
  | read {offset bytes : Nat} {buf : Nat → Option UInt8} (hreq : t.req = .read offset bytes)
      (hserial : t.serialising = false) (hphase : t.phase = .reading .all buf)
  | head {w : Write} {buf : Nat → Option UInt8} (hw : Unpadded t w) (hpad : Padded align t w)
      (hzero : w.zero = false) (hhead : misalignment align w.offset ≠ 0)
      (hphase : t.phase = .reading .head buf)
      (hbuf : ∀ i < misalignment align w.offset, ∀ v, buf i = some v →
        v = image (alignDown align w.offset + i))
  | tail {w : Write} {buf : Nat → Option UInt8} (hbody : Body align image t w)
      (htail : misalignment align (w.offset + w.bytes) ≠ 0) (hphase : t.phase = .reading .tail buf)
      (hbuf : ∀ i < align, misalignment align (w.offset + w.bytes) ≤ i → ∀ v, buf i = some v →
        v = image (alignDown align (w.offset + w.bytes) + i))
  | writing {w : Write} {stored : Nat → Bool} (hreq : t.req = .write w)
      (hphase : t.phase = .writing stored) (hrange : t.InOverlap)
      (hlength : (t.writeData w).length ≤ t.bytes)
      (hdata : Matches image w t.offset (t.writeData w))
      (hown : t.serialising = false → ∀ i < t.bytes, w.Covers (t.offset + i))

structure Inv (align : Nat) (s : BDS) : Prop where
  serialised : Serialised s
  ok : ∀ t ∈ s.tracked, Ok align s.image t

/-- `x` is in the range that other requests wait for. -/
def Tracked.InRange (t : Tracked) (x : Nat) : Prop :=
  t.overlapOffset ≤ x ∧ x < t.overlapOffset + t.overlapBytes

def Tracked.Covers (t : Tracked) (x : Nat) : Prop := ∃ w, t.req = .write w ∧ w.Covers x

variable {buf : Nat → Option UInt8}

lemma Tracked.not_waiting_of_reading {t : Tracked} {part : Part}
    (h : t.phase = .reading part buf) : t.isWaiting = false := by
  rw [Tracked.isWaiting, h]

lemma Tracked.not_waiting_of_writing {t : Tracked} {stored : Nat → Bool}
    (h : t.phase = .writing stored) : t.isWaiting = false := by
  rw [Tracked.isWaiting, h]

variable {x id offset : Nat}

section
variable {align : Nat} {image image' : Nat → UInt8} {t : Tracked} {w : Write}

def SameOutside (image image' : Nat → UInt8) (t : Tracked) : Prop :=
  t.serialising = true → t.isWaiting = false → ∀ x, t.InRange x → ¬ t.Covers x → image' x = image x

lemma Matches.congr {data : List UInt8} (h : Matches image w offset data)
    (heq : ∀ i < data.length, ¬ w.Covers (offset + i) → image' (offset + i) = image (offset + i)) :
    Matches image' w offset data := by
  intro i hi
  rw [h i hi]
  by_cases hcovers : w.Covers (offset + i)
  · rw [if_pos hcovers, if_pos hcovers]
  · rw [if_neg hcovers, if_neg hcovers, heq i hi hcovers]

lemma Tracks.not_covers (htracks : t.req = .write w) (hx : ¬ w.Covers x) : ¬ t.Covers x := by
  rintro ⟨w', hreq, hcovers⟩
  rw [htracks] at hreq
  cases hreq
  exact hx hcovers

lemma Body.congr (halign : ∃ k, align = 2 ^ k) (h : Body align image t w)
    (hgo : t.isWaiting = false) (heq : SameOutside image image' t) : Body align image' t w := by
  refine { h with data := fun data hdata => ?_ }
  obtain ⟨hlength, hmatches⟩ := h.data data hdata
  refine ⟨hlength, hmatches.congr fun i hi hcovers => ?_⟩
  refine heq h.padded.serialising hgo _ ?_ (Tracks.not_covers h.tracks.req hcovers)
  have hlast := le_roundUp halign (w.offset + w.bytes)
  have hlast' := h.padded.last
  have hoffset := h.padded.offset
  have hstart := h.offset
  have hend := h.last
  constructor <;> omega

lemma Ok.congr (halign : ∃ k, align = 2 ^ k) (h : Ok align image t)
    (heq : SameOutside image image' t) : Ok align image' t := by
  cases h with
  | waiting hfirst hphase => exact .waiting hfirst hphase
  | read hreq hserial hphase => exact .read hreq hserial hphase
  | @head w buf hw hpad hzero hhead hphase hbuf =>
    refine .head hw hpad hzero hhead hphase fun i hi v hv => ?_
    rw [hbuf i hi v hv]
    have hsplit := alignDown_add align w.offset
    have hlast := le_roundUp halign (w.offset + w.bytes)
    have hlast' := hpad.last
    have hoffset := hpad.offset
    refine (heq hpad.serialising (Tracked.not_waiting_of_reading hphase) _ ?_
      (Tracks.not_covers hw.tracks.req ?_)).symm
    · constructor <;> omega
    · rintro ⟨hle, -⟩
      omega
  | @tail w buf hbody htail hphase hbuf =>
    have hgo := Tracked.not_waiting_of_reading hphase
    refine .tail (hbody.congr halign hgo heq) htail hphase fun i hi hle v hv => ?_
    rw [hbuf i hi hle v hv]
    have hsplit := alignDown_add align (w.offset + w.bytes)
    have hsplit' := alignDown_add align w.offset
    have hround := roundUp_of_ne_zero halign htail
    have hlast := hbody.padded.last
    have hoffset := hbody.padded.offset
    refine (heq hbody.padded.serialising hgo _ ?_ (Tracks.not_covers hbody.tracks.req ?_)).symm
    · constructor <;> omega
    · rintro ⟨-, hlt⟩
      omega
  | @writing w stored hreq hphase hrange hlength hdata hown =>
    refine .writing hreq hphase hrange hlength (hdata.congr fun i hi hcovers => ?_) hown
    cases hserial : t.serialising with
    | false => exact absurd (hown hserial i (by omega)) hcovers
    | true =>
      refine heq hserial (Tracked.not_waiting_of_writing hphase) _ ?_
        (Tracks.not_covers hreq hcovers)
      obtain ⟨hlow, hhigh⟩ := hrange
      constructor <;> omega
end

variable {image : Nat → UInt8} {s₁ : BDS} {req : Request}

section
variable {align : Nat} {s s' : BDS} {t t' : Tracked} {w : Write}

lemma Write.getD_qiov (hzero : w.zero = false) {data : List UInt8} (hqiov : w.qiov = some data)
    (i : Nat) : data.getD i 0 = w.byte (w.offset + i) := by
  rw [Write.byte, if_neg (by simp [hzero]), hqiov, Nat.add_sub_cancel_left]
  rfl

lemma Unpadded.data (hw : Unpadded t w) (hzero : w.zero = false) (image : Nat → UInt8)
    (data : List UInt8) (hdata : t.localQiov.or w.qiov = some data) :
    data.length = t.bytes ∧ Matches image w t.offset data := by
  rw [hw.localQiov, none_or] at hdata
  have hlength := w.qiov_length data hdata
  refine ⟨by rw [hlength, hw.bytes], fun i hi => ?_⟩
  rw [hw.offset, if_pos ⟨le_add_right _ _, by omega⟩]
  exact Write.getD_qiov hzero hdata i

lemma Body.of_unpadded (hw : Unpadded t w) (hpad : Padded align t w) (hzero : w.zero = false)
    (hhead : misalignment align w.offset = 0) (image : Nat → UInt8) : Body align image t w where
  tracks := hw.tracks
  padded := hpad
  zero := hzero
  offset := by rw [hw.offset, alignDown, hhead, Nat.sub_zero]
  last := by rw [hw.offset, hw.bytes]
  data := hw.data hzero image

lemma matches_of_data (hzero : w.zero = false) (h : ∀ data, t.localQiov.or w.qiov = some data →
      data.length = t.bytes ∧ Matches image w t.offset data) :
    (t.writeData w).length ≤ t.bytes ∧ Matches image w t.offset (t.writeData w) := by
  rw [Tracked.writeData, if_neg (by simp [hzero])]
  cases hdata : t.localQiov.or w.qiov with
  | none => exact ⟨zero_le _, fun i hi => absurd hi (not_lt_zero i)⟩
  | some data => exact (h data hdata).imp_left le_of_eq

lemma Unpadded.matches_writeData (hw : Unpadded t w) (image : Nat → UInt8) :
    (t.writeData w).length ≤ t.bytes ∧ Matches image w t.offset (t.writeData w) := by
  cases hzero : w.zero with
  | true =>
    rw [Tracked.writeData, if_pos hzero]
    refine ⟨length_replicate.le, fun i hi => ?_⟩
    rw [length_replicate, hw.bytes] at hi
    have hbyte : w.byte (w.offset + i) = 0 := by rw [Write.byte, if_pos hzero]
    rw [hw.offset, if_pos ⟨le_add_right _ _, by omega⟩, hbyte]
    simp [hw.bytes, hi]
  | false => exact matches_of_data hzero (hw.data hzero image)

lemma Unpadded.setPhase (hw : Unpadded t w) (phase : Phase) :
    Unpadded { t with phase := phase } w :=
  ⟨⟨hw.tracks.req, hw.tracks.offset, hw.tracks.bytes⟩, hw.offset, hw.bytes, hw.localQiov⟩

lemma Padded.setPhase (hpad : Padded align t w) (phase : Phase) :
    Padded align { t with phase := phase } w :=
  ⟨hpad.serialising, hpad.offset, hpad.last⟩

lemma Body.setPhase (h : Body align image t w) (phase : Phase) :
    Body align image { t with phase := phase } w :=
  ⟨⟨h.tracks.req, h.tracks.offset, h.tracks.bytes⟩, h.padded.setPhase phase, h.zero, h.offset,
    h.last, h.data⟩

variable {point : Point} {id : Nat}

lemma First.setPhase (h : First align t point) (phase : Phase) :
    First align { t with phase := phase } point := by
  cases h with
  | read hreq hserial => exact .read hreq hserial
  | head hw hpad hzero hhead => exact .head (hw.setPhase phase) (hpad.setPhase phase) hzero hhead
  | tail hw hpad hzero hhead htail =>
    exact .tail (hw.setPhase phase) (hpad.setPhase phase) hzero hhead htail
  | aligned hw hserial hoffset hbytes => exact .aligned (hw.setPhase phase) hserial hoffset hbytes

lemma Ok.first {woken : Bool} (h : Ok align image t)
    (hphase : t.phase = .waiting point id woken) : First align t point := by
  cases h with
  | waiting hfirst hphase' =>
    rw [hphase] at hphase'
    cases hphase'
    exact hfirst
  | read _ _ hphase' | head _ _ _ _ hphase' | tail _ _ hphase' | writing _ hphase' =>
    rw [hphase] at hphase'
    cases hphase'

lemma Ok.of_waits (hfirst : First align t point) (hwaits : Waits s point t t')
    (image : Nat → UInt8) : Ok align image t' := by
  cases hwaits with
  | blocked id => exact .waiting (hfirst.setPhase _) rfl
  | entered hfree hrange =>
    cases hfirst with
    | read hreq hserial => exact .read hreq hserial rfl
    | head hw hpad hzero hhead =>
      exact .head (hw.setPhase _) (hpad.setPhase _) hzero hhead rfl nofun
    | tail hw hpad hzero hhead htail =>
      exact .tail ((Body.of_unpadded hw hpad hzero hhead image).setPhase _) htail rfl nofun
    | aligned hw hserial hoffset hbytes =>
      obtain ⟨hlength, hmatches⟩ := hw.matches_writeData image
      refine .writing hw.tracks.req rfl (hrange rfl) hlength hmatches fun _ i hi => ?_
      have hoff := hw.offset
      have hb := hw.bytes
      constructor <;> dsimp only at hi ⊢ <;> omega

lemma Padded.mark (halign : ∃ k, align = 2 ^ k) (htracks : Tracks t w)
    (hoffset : alignDown align w.offset ≤ t.overlapOffset)
    (hbytes : t.overlapBytes ≤ roundUp align (w.offset + w.bytes) - alignDown align w.offset) :
    Padded align (markRequestSerialising align s t).2 w := by
  have hsplit := alignDown_add align w.offset
  have hround := le_roundUp halign (w.offset + w.bytes)
  refine ⟨rfl, ?_, ?_⟩
  · simp only [markRequestSerialising, htracks.offset]
    omega
  · simp only [markRequestSerialising, htracks.offset, htracks.bytes]
    omega

lemma markRequestSerialising_of_padded (htracks : Tracks t w) (hpad : Padded align t w) :
    markRequestSerialising align s t = (s, t) := by
  have hoffset := hpad.offset
  have hlast := hpad.last
  have hserial := hpad.serialising
  have hmin : min t.overlapOffset (alignDown align w.offset) = t.overlapOffset := by omega
  have hmax : max t.overlapBytes
      (roundUp align (w.offset + w.bytes) - alignDown align w.offset) = t.overlapBytes := by omega
  rw [markRequestSerialising, htracks.offset, htracks.bytes, hmin, hmax, if_pos hserial, ← hserial,
    ← htracks.offset, ← htracks.bytes]

/-- What the start of a request does: nothing to the other requests, and the first wait. -/
structure Started (align : Nat) (s : BDS) (id : Nat) (req : Request) (s' : BDS) (t' : Tracked) :
    Prop where
  state : s' = { s with serialisingInFlight :=
    s.serialisingInFlight + if t'.serialising then 1 else 0 }
  id_eq : t'.id = id
  req : ∀ w, t'.req = .write w → req = .write w
  excl : t'.isWaiting = true ∨ Free s t'
  ok : ∀ image, Ok align image t'

lemma Started.of_waitAt (hs : Serialised s)
    (hfirst : First align t point) (hid : t.id = id) (hreq : ∀ w, t.req = .write w → req = .write w)
    (hs₁ : s₁ = { s with serialisingInFlight := s.serialisingInFlight + if t.serialising then 1 else 0 })
    (h : waitAt point s₁ t = some (s', t')) : Started align s id req s' t' := by
  subst hs₁
  have hcounts : Counts { s with serialisingInFlight :=
      s.serialisingInFlight + if t.serialising then 1 else 0 } t := by
    intro hzero
    dsimp only at hzero
    have hnone : ∀ u ∈ s.tracked, u.serialising = false := by
      have hcount := hs.count
      have hzero' : s.tracked.countP Tracked.serialising = 0 := by omega
      simpa using countP_eq_zero.mp hzero'
    refine ⟨?_, hnone⟩
    cases hserial : t.serialising with
    | false => rfl
    | true =>
      rw [hserial, if_pos rfl] at hzero
      omega
  obtain ⟨rfl, hwaits⟩ := waitAt_spec hcounts h
  refine ⟨?_, ?_, ?_, ?_, Ok.of_waits hfirst hwaits⟩
  · rw [hwaits.sameRange.serialising]
  · rw [← hwaits.sameRange.id, hid]
  · rwa [← hwaits.sameRange.req]
  · exact hwaits.waiting_or_free.imp_right fun hfree => hfree.congr rfl (SameRange.rfl' t')

lemma start_spec (halign : ∃ k, align = 2 ^ k) (hs : Serialised s)
    (hzero : ∀ w, req = .write w → w.ZeroAligned align) (h : start align s id req = some (s', t')) :
    Started align s id req s' t' := by
  cases req with
  | read offset bytes =>
    rw [start] at h
    refine Started.of_waitAt hs ?_ ?_ ?_ ?_ h
    · exact .read rfl rfl
    · rfl
    · exact nofun
    · rfl
  | write w =>
    have hz := hzero w rfl
    have htracks : Tracks (trackedRequestBegin id (.write w) w.offset w.bytes) w := ⟨rfl, rfl, rfl⟩
    have hw : Unpadded (trackedRequestBegin id (.write w) w.offset w.bytes) w :=
      ⟨htracks, rfl, rfl, rfl⟩
    have hpad : Padded align (markRequestSerialising align s
        (trackedRequestBegin id (.write w) w.offset w.bytes)).2 w := by
      have hsplit := alignDown_add align w.offset
      have hround := le_roundUp halign (w.offset + w.bytes)
      refine Padded.mark halign htracks ?_ ?_
      · show alignDown align w.offset ≤ w.offset
        omega
      · show w.bytes ≤ _
        omega
    have hw' : Unpadded (markRequestSerialising align s
        (trackedRequestBegin id (.write w) w.offset w.bytes)).2 w :=
      ⟨⟨rfl, rfl, rfl⟩, rfl, rfl, rfl⟩
    have hnonzero : (misalignment align w.offset ≠ 0 ∨
        misalignment align (w.offset + w.bytes) ≠ 0) → w.zero = false := by
      intro hne
      cases hw : w.zero with
      | false => rfl
      | true =>
        obtain ⟨hhead, htail⟩ := hz hw
        rcases hne with hne | hne
        · exact absurd hhead hne
        · exact absurd htail hne
    rw [start, pwritevTail] at h
    change (if misalignment align w.offset ≠ 0 then waitAt .head _ _
      else if misalignment align (w.offset + w.bytes) ≠ 0 then waitAt .tail _ _
      else waitAt .pwritev _ _) = _ at h
    by_cases hhead : misalignment align w.offset ≠ 0
    · rw [if_pos hhead] at h
      exact Started.of_waitAt hs (.head hw' hpad (hnonzero (.inl hhead)) hhead) rfl (fun _ heq => heq) rfl h
    rw [if_neg hhead] at h
    by_cases htail : misalignment align (w.offset + w.bytes) ≠ 0
    · rw [if_pos htail] at h
      exact Started.of_waitAt hs
        (.tail hw' hpad (hnonzero (.inr htail)) (not_not.mp hhead) htail) rfl (fun _ heq => heq) rfl h
    · rw [if_neg htail] at h
      exact Started.of_waitAt hs (.aligned hw rfl rfl rfl) rfl (fun _ heq => heq) rfl h
end

section
variable {align : Nat} {image : Nat → UInt8} {s s' : BDS} {t t' : Tracked} {w : Write}
  {buf : Nat → Option UInt8} {bytes : List UInt8}

lemma getD_of_mapM_range {n : Nat} (h : (range n).mapM buf = some bytes) :
    bytes.length = n ∧ ∀ i < n, buf i = some (bytes.getD i 0) := by
  have hmap := OptionFold.mapM_eq_some h
  have hlength : n = bytes.length := by simpa using congrArg length hmap
  refine ⟨hlength.symm, fun i hi => ?_⟩
  have hget := congrArg (·[i]?) hmap
  simpa [hi, hlength ▸ hi] using hget

lemma Body.of_padHead (halign : ∃ k, align = 2 ^ k) (hw : Unpadded t w) (hpad : Padded align t w)
    (hzero : w.zero = false) (hbuf : ∀ i < misalignment align w.offset, ∀ v, buf i = some v →
      v = image (alignDown align w.offset + i))
    (hread : (range align).mapM buf = some bytes) (h : padHead align w t bytes = some t') :
    Body align image t' w ∧ SameRange t t' := by
  obtain ⟨data, hqiov, rfl⟩ := map_eq_some_iff.mp h
  obtain ⟨hlength, hbytes⟩ := getD_of_mapM_range hread
  have hlt := misalignment_lt halign w.offset
  have hsplit := alignDown_add align w.offset
  have hdata := w.qiov_length data hqiov
  have htake : (bytes.take (misalignment align w.offset)).length = misalignment align w.offset := by
    rw [length_take, hlength]
    omega
  refine ⟨⟨⟨hw.tracks.req, hw.tracks.offset, hw.tracks.bytes⟩,
    ⟨hpad.serialising, hpad.offset, hpad.last⟩, hzero, ?_, ?_, ?_⟩, ⟨rfl, rfl, rfl, rfl, rfl⟩⟩
  · rw [hw.offset]
  · dsimp only
    rw [hw.offset, hw.bytes]
    omega
  intro data' hdata'
  cases hdata'
  rw [hw.offset, hw.bytes]
  refine ⟨by rw [length_append, htake, hdata, add_comm], fun i hi => ?_⟩
  rw [length_append, htake, hdata] at hi
  rcases lt_or_ge i (misalignment align w.offset) with hlow | hhigh
  · have hnot : ¬ w.Covers (alignDown align w.offset + i) := by
      rintro ⟨hle, -⟩
      omega
    rw [if_neg hnot, getD_append _ _ _ _ (by omega), ← hbuf i hlow _ (hbytes i (by omega))]
    simp only [getD_eq_getElem?_getD, List.getElem?_take_of_lt hlow]
  have hcovers : w.Covers (alignDown align w.offset + i) := by constructor <;> omega
  have hx : alignDown align w.offset + i = w.offset + (i - misalignment align w.offset) := by omega
  rw [if_pos hcovers, getD_append_right _ _ _ _ (by omega), htake, hx]
  exact Write.getD_qiov hzero hqiov _

lemma matches_of_padTail (halign : ∃ k, align = 2 ^ k) (hbody : Body align image t w)
    (htail : misalignment align (w.offset + w.bytes) ≠ 0)
    (hbuf : ∀ i < align, misalignment align (w.offset + w.bytes) ≤ i → ∀ v, buf i = some v →
      v = image (alignDown align (w.offset + w.bytes) + i))
    (hread : (range align).mapM buf = some bytes) (h : padTail align w t bytes = some t') :
    SameRange t t' ∧ t'.req = .write w ∧ (t'.writeData w).length ≤ t'.bytes ∧
      Matches image w t'.offset (t'.writeData w) := by
  obtain ⟨data, hqiov, rfl⟩ := map_eq_some_iff.mp h
  obtain ⟨hlength, hbytes⟩ := getD_of_mapM_range hread
  obtain ⟨hdata, hmatches⟩ := hbody.data data hqiov
  have hlt := misalignment_lt halign (w.offset + w.bytes)
  have hsplit := alignDown_add align (w.offset + w.bytes)
  have hlast := hbody.last
  -- the end of the write is as far into its block as the number of bytes
  have hmis : misalignment align t.bytes = misalignment align (w.offset + w.bytes) := by
    have hstart : misalignment align t.offset = 0 := by
      rw [hbody.offset]
      exact misalignment_alignDown halign _
    rw [← hlast, misalignment_add halign hstart]
  have hround : roundUp align t.bytes =
      t.bytes + (align - misalignment align (w.offset + w.bytes)) := by
    have hsplit' := alignDown_add align t.bytes
    rw [roundUp_of_ne_zero halign (by rw [hmis]; exact htail)]
    omega
  refine ⟨⟨rfl, rfl, rfl, rfl, rfl⟩, hbody.tracks.req, ?_⟩
  rw [Tracked.writeData, if_neg (by simp [hbody.zero])]
  simp only [some_or, getD_some, hlast]
  have hsize : (data ++ bytes.drop (misalignment align (w.offset + w.bytes))).length =
      t.bytes + (align - misalignment align (w.offset + w.bytes)) := by
    rw [length_append, length_drop, hlength, hdata]
  refine ⟨by rw [hsize, hround], fun i hi => ?_⟩
  rw [hsize] at hi
  rcases lt_or_ge i t.bytes with hlow | hhigh
  · rw [getD_append _ _ _ _ (by omega)]
    exact hmatches i (by omega)
  have hnot : ¬ w.Covers (t.offset + i) := by
    rintro ⟨-, hlt⟩
    omega
  have hx : t.offset + i = alignDown align (w.offset + w.bytes) +
      (misalignment align (w.offset + w.bytes) + (i - t.bytes)) := by omega
  rw [if_neg hnot, getD_append_right _ _ _ _ (by omega), hdata, hx,
    ← hbuf (misalignment align (w.offset + w.bytes) + (i - t.bytes)) (by omega) (by omega) _
      (hbytes _ (by omega))]
  simp only [getD_eq_getElem?_getD, List.getElem?_drop]

lemma Ok.of_waitAt_pwritev (hfree : Free s t) (hreq : t.req = .write w)
    (hserial : t.serialising = true) (hlength : (t.writeData w).length ≤ t.bytes)
    (hdata : Matches image w t.offset (t.writeData w)) (h : waitAt .pwritev s t = some (s', t')) :
    s' = s ∧ SameRange t t' ∧ Ok align image t' := by
  obtain ⟨hs', rfl, hrange⟩ := waitAt_of_free hfree h
  refine ⟨hs', ⟨rfl, rfl, rfl, rfl, rfl⟩, .writing hreq rfl (hrange rfl) hlength hdata ?_⟩
  intro hno
  rw [hserial] at hno
  cases hno

lemma Ok.of_pwritevTail (hfree : Free s t) (hbody : Body align image t w)
    (h : pwritevTail align s t = some (s', t')) : s' = s ∧ SameRange t t' ∧ Ok align image t' := by
  rw [pwritevTail, hbody.last, markRequestSerialising_of_padded hbody.tracks hbody.padded] at h
  split at h
  next htail =>
    obtain ⟨hs', rfl, -⟩ := waitAt_of_free hfree h
    exact ⟨hs', ⟨rfl, rfl, rfl, rfl, rfl⟩, .tail (hbody.setPhase _) htail rfl nofun⟩
  · obtain ⟨hlength, hdata⟩ := matches_of_data hbody.zero hbody.data
    exact Ok.of_waitAt_pwritev hfree hbody.tracks.req hbody.padded.serialising hlength hdata h
end

variable {w : Write}

section
variable {align : Nat} {s s' : BDS} {t t' : Tracked}

def ReqsFrom (s s' : BDS) : Prop :=
  ∀ t' ∈ s'.tracked, ∃ t ∈ s.tracked, t.id = t'.id ∧ t.req = t'.req

lemma reqsFrom_put (ht : t ∈ s.tracked) (hsame : SameRange t t') (image : Nat → UInt8) :
    ReqsFrom s ({ s with image := image }.put t') := by
  intro u hu
  rcases KeyedList.mem_put hu with rfl | ⟨hu, -⟩
  · exact ⟨t, ht, hsame.id, hsame.req⟩
  · exact ⟨u, hu, rfl, rfl⟩

lemma reqsFrom_end (t : Tracked) : ReqsFrom s (trackedRequestEnd s t) := by
  intro u' hu'
  obtain ⟨u, hu, rfl⟩ := mem_map.mp hu'
  obtain ⟨hsame, -⟩ := Tracked.wake_spec t.id u
  exact ⟨u, (KeyedList.mem_remove.mp hu).1, hsame.id, hsame.req⟩

variable (h : Inv align s) (ht : t ∈ s.tracked) (hsame : SameRange t t')
  (hexcl : t'.isWaiting = true ∨ Free s t') (hok : Ok align s.image t')

include h ht hsame hexcl hok in
lemma Inv.put : Inv align (s.put t') := by
  refine ⟨h.serialised.put ht hsame hexcl, fun u hu => ?_⟩
  rcases KeyedList.mem_put hu with rfl | ⟨hu, -⟩
  · exact hok
  · exact h.ok u hu

lemma Ok.wake (h : Ok align image t) (id : Nat) : Ok align image (t.wake id) := by
  cases hphase : t.phase with
  | waiting point waitingFor woken =>
    rw [Tracked.wake, hphase]
    dsimp only
    split
    · exact .waiting ((h.first hphase).setPhase _) rfl
    · exact h
  | reading _ _ | writing _ =>
    rwa [Tracked.wake, hphase]

variable (h : Inv align s) (ht : t ∈ s.tracked)

include h ht in
lemma Inv.end : Inv align (trackedRequestEnd s t) := by
  refine ⟨h.serialised.end ht, fun u' hu' => ?_⟩
  obtain ⟨u, hu, rfl⟩ := mem_map.mp hu'
  exact (h.ok u (KeyedList.mem_remove.mp hu).1).wake t.id

structure StepSpec (align : Nat) (s : BDS) (act : Act) (s' : BDS) : Prop where
  inv : Inv align s'
  /-- A byte changes only when it is stored by a write that covers it, and to the data of that
  write. -/
  image : ∀ x, s'.image x ≠ s.image x → ∃ t ∈ s.tracked, ∃ w lo hi,
    act = .store t.id lo hi ∧ t.req = .write w ∧ w.Covers x ∧ s'.image x = w.byte x
  reqs : ∀ t' ∈ s'.tracked, (∃ t ∈ s.tracked, t.id = t'.id ∧ t.req = t'.req) ∨
    ∀ w, t'.req = .write w → act = .begin t'.id (.write w)

variable {act : Act} {lo hi : Nat}

include h ht hsame hexcl hok in
lemma StepSpec.of_put : StepSpec align s act (s.put t') :=
  ⟨h.put ht hsame hexcl hok, fun _ hx => absurd rfl hx,
    fun u hu => .inl (reqsFrom_put ht hsame s.image u hu)⟩

include h ht in
lemma StepSpec.of_end : StepSpec align s act (trackedRequestEnd s t) :=
  ⟨h.end ht, fun _ hx => absurd rfl hx, fun u hu => .inl (reqsFrom_end t u hu)⟩

lemma begin_spec (halign : ∃ k, align = 2 ^ k) (h : Inv align s)
    (hzero : ∀ w, req = .write w → w.ZeroAligned align)
    (hstep : step align s (.begin id req) = some s') : StepSpec align s (.begin id req) s' := by
  rw [step] at hstep
  split at hstep
  · cases hstep
  rename_i hid
  obtain ⟨⟨s₁, t'⟩, hstart, hsome⟩ := bind_eq_some_iff.mp hstep
  cases hsome
  obtain ⟨rfl, rfl, hreq, hexcl, hok⟩ := start_spec halign h.serialised hzero hstart
  refine ⟨⟨h.serialised.cons hid rfl hexcl, fun u hu => ?_⟩, fun _ hx => absurd rfl hx,
    fun u hu => ?_⟩
  · rcases mem_cons.mp hu with rfl | hu
    · exact hok _
    · exact h.ok u hu
  rcases mem_cons.mp hu with rfl | hu
  · refine .inr fun w hw => ?_
    rw [hreq w hw]
  · exact .inl ⟨u, hu, rfl, rfl⟩

include h ht in
lemma resume_ok {point : Point} {waitingFor : Nat} {woken : Bool}
    (hphase : t.phase = .waiting point waitingFor woken)
    (hround : waitRound s t point (goOn point true s t) = some (s₁, t')) :
    StepSpec align s act (s₁.put t') := by
  obtain ⟨rfl, hwaits⟩ := resume_spec hround
  exact .of_put h ht hwaits.sameRange hwaits.waiting_or_free
    (Ok.of_waits ((h.ok t ht).first hphase) hwaits _)

include h ht in
lemma fetch_ok (hfetch : fetch align s t lo hi = some s') : StepSpec align s act s' := by
  rw [fetch] at hfetch
  split at hfetch
  next part buf hphase =>
    cases hfetch
    have hgo := Tracked.not_waiting_of_reading hphase
    have hsame : ∀ phase, SameRange t { t with phase := phase } :=
      fun phase => ⟨rfl, rfl, rfl, rfl, rfl⟩
    refine .of_put h ht (hsame _) (.inr ((h.serialised.free ht hgo).congr rfl (hsame _))) ?_
    cases h.ok t ht with
    | waiting _ hphase' | writing _ hphase' =>
      rw [hphase] at hphase'
      cases hphase'
    | read hreq hserial hphase' =>
      rw [hphase] at hphase'
      cases hphase'
      exact .read hreq hserial rfl
    | head hw hpad hzero hhead hphase' hbuf =>
      rw [hphase] at hphase'
      cases hphase'
      refine .head (hw.setPhase _) (hpad.setPhase _) hzero hhead rfl fun i hi v hv => ?_
      dsimp only [Tracked.readRange] at hv
      split at hv
      · rw [← Option.some.inj hv, hw.offset]
      · exact hbuf i hi v hv
    | tail hbody htail hphase' hbuf =>
      rw [hphase] at hphase'
      cases hphase'
      refine .tail (hbody.setPhase _) htail rfl fun i hi hle v hv => ?_
      dsimp only [Tracked.readRange] at hv
      split at hv
      · rw [← Option.some.inj hv, hbody.last]
      · exact hbuf i hi hle v hv
  · cases hfetch

lemma storeBytes_of_not_mem {data : List UInt8} (hx : ¬ (offset ≤ x ∧ x < offset + data.length)) :
    storeBytes image data offset lo hi x = image x := by
  rw [storeBytes, if_neg (by omega)]

lemma Matches.storeBytes {data : List UInt8} (h : Matches image w offset data) (lo hi x : Nat) :
    storeBytes image data offset lo hi x = image x ∨
      (w.Covers x ∧ storeBytes image data offset lo hi x = w.byte x) := by
  rw [Block.storeBytes]
  split
  next hx =>
    have hi : x - offset < data.length := by omega
    have hdata := h (x - offset) hi
    rw [Nat.add_sub_cancel' (by omega)] at hdata
    rw [hdata]
    by_cases hcovers : w.Covers x
    · rw [if_pos hcovers]
      exact .inr ⟨hcovers, rfl⟩
    · rw [if_neg hcovers]
      exact .inl rfl
  · exact .inl rfl

section
variable (halign : ∃ k, align = 2 ^ k)
include halign

include h ht in
lemma store_ok
    (hstore : store s t lo hi = some s') : StepSpec align s (.store t.id lo hi) s' := by
  rw [store] at hstore
  split at hstore
  next stored w hphase hreq =>
    cases hstore
    have hgo := Tracked.not_waiting_of_writing hphase
    have hsame : ∀ phase, SameRange t { t with phase := phase } :=
      fun phase => ⟨rfl, rfl, rfl, rfl, rfl⟩
    cases h.ok t ht with
    | waiting _ hphase' | read _ _ hphase' | head _ _ _ _ hphase' | tail _ _ hphase' =>
      rw [hphase] at hphase'
      cases hphase'
    | @writing w' _ hreq' hphase' hrange hlength hdata hown =>
      rw [hreq] at hreq'
      cases hreq'
      have himage := hdata.storeBytes lo hi
      have hs := (h.serialised.image (storeBytes s.image (t.writeData w) t.offset lo hi)).put ht
        (hsame (.writing fun i => stored i || (decide (lo ≤ i) && decide (i < hi))))
        (.inr ((h.serialised.free ht hgo).congr rfl (hsame _)))
      refine ⟨⟨hs, fun u hu => ?_⟩, fun x hx => ?_, fun u hu => .inl (reqsFrom_put ht (hsame _) _ u hu)⟩
      · rcases KeyedList.mem_put hu with rfl | ⟨hu, hid⟩
        · refine .writing hreq rfl hrange hlength (hdata.congr fun i _ hcovers => ?_) hown
          exact (himage (t.offset + i)).resolve_right fun hx => hcovers hx.1
        -- another request in the driver that is serialising has none of the bytes in its range
        refine (h.ok u hu).congr halign fun hserial hugo x hx _ => ?_
        refine storeBytes_of_not_mem fun hmem => ?_
        refine h.serialised.not_conflict ht hu hid hgo hugo ⟨.inr hserial, ?_⟩
        obtain ⟨hlow, hhigh⟩ := hx
        obtain ⟨hlow', hhigh'⟩ := hrange
        constructor <;> omega
      · obtain hsame' | ⟨hcovers, hbyte⟩ := himage x
        · exact absurd hsame' hx
        · exact ⟨t, ht, w, lo, hi, rfl, hreq, hcovers, hbyte⟩
  · cases hstore

include h ht in
lemma afterRead_ok {part : Part} {bytes : List UInt8} (hphase : t.phase = .reading part buf)
    (hread : (range (t.readRange align part).2).mapM buf = some bytes)
    (hafter : afterRead align s t part bytes = some s') : StepSpec align s act s' := by
  have hfree := h.serialised.free ht (Tracked.not_waiting_of_reading hphase)
  cases h.ok t ht with
  | waiting _ hphase' | writing _ hphase' =>
    rw [hphase] at hphase'
    cases hphase'
  | read _ _ hphase' =>
    rw [hphase] at hphase'
    cases hphase'
    rw [afterRead] at hafter
    cases hafter
    exact .of_end h ht
  | head hw hpad hzero hhead hphase' hbuf =>
    rw [hphase] at hphase'
    cases hphase'
    unfold afterRead at hafter
    rw [hw.tracks.req] at hafter
    obtain ⟨t₁, hpadded, hafter⟩ := bind_eq_some_iff.mp hafter
    obtain ⟨⟨s₂, t₂⟩, htail, hafter⟩ := bind_eq_some_iff.mp hafter
    cases hafter
    obtain ⟨hbody, hsame⟩ := Body.of_padHead halign hw hpad hzero hbuf hread hpadded
    have hfree' := hfree.congr rfl hsame
    obtain ⟨rfl, hsame', hok⟩ := Ok.of_pwritevTail hfree' hbody htail
    exact .of_put h ht (hsame.trans hsame') (.inr (hfree'.congr rfl hsame')) hok
  | tail hbody htail hphase' hbuf =>
    rw [hphase] at hphase'
    cases hphase'
    unfold afterRead at hafter
    rw [hbody.tracks.req] at hafter
    obtain ⟨t₁, hpadded, hafter⟩ := bind_eq_some_iff.mp hafter
    obtain ⟨⟨s₂, t₂⟩, hwait, hafter⟩ := bind_eq_some_iff.mp hafter
    cases hafter
    obtain ⟨hsame, hreq, hlength, hdata⟩ :=
      matches_of_padTail halign hbody htail hbuf hread hpadded
    have hfree' := hfree.congr rfl hsame
    have hserial : t₁.serialising = true := hsame.serialising ▸ hbody.padded.serialising
    obtain ⟨rfl, hsame', hok⟩ := Ok.of_waitAt_pwritev hfree' hreq hserial hlength hdata hwait
    exact .of_put h ht (hsame.trans hsame') (.inr (hfree'.congr rfl hsame')) hok

include h ht in
lemma complete_ok {ok : Bool}
    (hcomplete : complete align s t ok = some s') : StepSpec align s act s' := by
  rw [complete] at hcomplete
  split at hcomplete
  · split at hcomplete
    · cases hcomplete
    · cases hcomplete
      exact .of_end h ht
  split at hcomplete
  · cases hcomplete
  next part buf hphase =>
    obtain ⟨bytes, hread, hafter⟩ := bind_eq_some_iff.mp hcomplete
    exact afterRead_ok h ht halign hphase hread hafter
  · split at hcomplete
    · cases hcomplete
      exact .of_end h ht
    · cases hcomplete

lemma step_spec (h : Inv align s)
    (hzero : ∀ id w, act = .begin id (.write w) → w.ZeroAligned align)
    (hstep : step align s act = some s') : StepSpec align s act s' := by
  cases act with
  | begin id req => exact begin_spec halign h (fun w hw => hzero id w (hw ▸ rfl)) hstep
  | resume id =>
    obtain ⟨t, hget, hstep⟩ := bind_eq_some_iff.mp hstep
    obtain ⟨ht, -⟩ := KeyedList.get_eq_some hget
    split at hstep
    next hphase =>
      obtain ⟨⟨s₁, t'⟩, hround, hsome⟩ := bind_eq_some_iff.mp hstep
      cases hsome
      exact resume_ok h ht hphase hround
    · cases hstep
  | fetch id lo hi =>
    obtain ⟨t, hget, hstep⟩ := bind_eq_some_iff.mp hstep
    exact fetch_ok h (KeyedList.get_eq_some hget).1 hstep
  | store id lo hi =>
    obtain ⟨t, hget, hstore⟩ := bind_eq_some_iff.mp hstep
    obtain ⟨ht, rfl⟩ := KeyedList.get_eq_some hget
    exact store_ok h ht halign hstore
  | complete id ok =>
    obtain ⟨t, hget, hstep⟩ := bind_eq_some_iff.mp hstep
    exact complete_ok h (KeyedList.get_eq_some hget).1 halign hstep
end

end

section
variable {align : Nat} {s s' : BDS}

lemma Inv.fresh (image : Nat → UInt8) : Inv align (fresh image) :=
  ⟨Serialised.fresh image, by simp [Block.fresh]⟩

def Known (s : BDS) (acts : List Act) (id : Nat) (w : Write) : Prop :=
  (∃ t ∈ s.tracked, t.id = id ∧ t.req = .write w) ∨ .begin id (.write w) ∈ acts

structure RunSpec (align : Nat) (s : BDS) (acts : List Act) (s' : BDS) : Prop where
  inv : Inv align s'
  reqs : ∀ t ∈ s'.tracked, ∀ w, t.req = .write w → Known s acts t.id w
  image : ∀ x, s'.image x = s.image x ∨
    ∃ id w, Known s acts id w ∧ w.Covers x ∧ s'.image x = w.byte x

variable {acts : List Act}

lemma StepSpec.known {act : Act} (h : StepSpec align s act s₁)
    (hw : Known s₁ acts id w) : Known s (act :: acts) id w := by
  rcases hw with ⟨t, ht, rfl, hreq⟩ | hmem
  · rcases h.reqs t ht with ⟨t₀, ht₀, hid, hreq₀⟩ | hbegin
    · exact .inl ⟨t₀, ht₀, hid, hreq₀.trans hreq⟩
    · exact .inr (by rw [hbegin w hreq]; exact mem_cons_self)
  · exact .inr (mem_cons_of_mem act hmem)

lemma run_spec (halign : ∃ k, align = 2 ^ k) (h : Inv align s)
    (hzero : ∀ id w, .begin id (.write w) ∈ acts → w.ZeroAligned align)
    (hrun : run align s acts = some s') : RunSpec align s acts s' := by
  induction acts generalizing s with
  | nil =>
    cases hrun
    exact ⟨h, fun t ht w hreq => .inl ⟨t, ht, rfl, hreq⟩, fun x => .inl rfl⟩
  | cons act acts ih =>
    obtain ⟨s₁, hstep, hrest⟩ := OptionFold.foldlM_cons_eq_some.mp hrun
    have hspec := step_spec halign h (fun id w hact => hzero id w (hact ▸ mem_cons_self)) hstep
    have hrest' := ih hspec.inv (fun id w hmem => hzero id w (mem_cons_of_mem act hmem)) hrest
    refine ⟨hrest'.inv, fun t ht w hreq => hspec.known (hrest'.reqs t ht w hreq), fun x => ?_⟩
    rcases hrest'.image x with hsame | ⟨id, w, hknown, hcovers, hbyte⟩
    · by_cases hx : s₁.image x = s.image x
      · exact .inl (hsame.trans hx)
      · obtain ⟨t, ht, w, _, _, -, hreq, hcovers, hbyte⟩ := hspec.image x hx
        exact .inr ⟨t.id, w, .inl ⟨t, ht, rfl, hreq⟩, hcovers, hsame.trans hbyte⟩
    · exact .inr ⟨id, w, hspec.known hknown, hcovers, hbyte⟩

lemma known_fresh (h : Known (fresh image) acts id w) : .begin id (.write w) ∈ acts := by
  rcases h with ⟨t, ht, -⟩ | hmem
  · cases ht
  · exact hmem

lemma run_append {acts' : List Act} :
    run align s (acts ++ acts') = (run align s acts).bind fun s₁ => run align s₁ acts' := by
  rw [run, foldlM_append]
  rfl
end

/-- `MAX(BDRV_SECTOR_SIZE, bs->request_alignment)` -/
def blockAlign (requestAlignment : Nat) : Nat := max 512 requestAlignment

lemma blockAlign_pow (k : Nat) : ∃ j, blockAlign (2 ^ k) = 2 ^ j := by
  rcases le_total (2 ^ k) 512 with h | h
  · exact ⟨9, max_eq_left h⟩
  · exact ⟨k, max_eq_right h⟩

/-- Reads and writes that are interleaved in any way, when no write of zeroes needs padding: every
byte is that of the first image or of a write that covers it; a step that changes a byte is one of a
write that covers it, and stores its data; and a byte keeps its value while no request that covers it
is in flight or started. -/
theorem writes_stay_in_range (k : Nat) (image : Nat → UInt8) (acts : List Act) (s : BDS)
    (hrun : run (blockAlign (2 ^ k)) (fresh image) acts = some s)
    (hzero : ∀ id w, .begin id (.write w) ∈ acts → w.ZeroAligned (blockAlign (2 ^ k))) :
    (∀ x, s.image x = image x ∨
      ∃ id w, .begin id (.write w) ∈ acts ∧ w.Covers x ∧ s.image x = w.byte x) ∧
    (∀ before act after s₁ s₂, acts = before ++ act :: after →
      run (blockAlign (2 ^ k)) (fresh image) before = some s₁ →
      step (blockAlign (2 ^ k)) s₁ act = some s₂ → ∀ x, s₂.image x ≠ s₁.image x →
        ∃ id w lo hi, act = .store id lo hi ∧ .begin id (.write w) ∈ before ∧ w.Covers x ∧
          s₂.image x = w.byte x) ∧
    (∀ before after s₁, acts = before ++ after →
      run (blockAlign (2 ^ k)) (fresh image) before = some s₁ →
      ∀ x, (∀ t ∈ s₁.tracked, ¬ t.Covers x) →
        (∀ id w, .begin id (.write w) ∈ after → ¬ w.Covers x) → s.image x = s₁.image x) := by
  have halign := blockAlign_pow k
  have hspec := run_spec halign (Inv.fresh image) hzero hrun
  refine ⟨fun x => ?_, ?_, ?_⟩
  · refine (hspec.image x).imp_right ?_
    rintro ⟨id, w, hknown, hcovers, hbyte⟩
    exact ⟨id, w, known_fresh hknown, hcovers, hbyte⟩
  · rintro before act after s₁ s₂ rfl hbefore hstep x hx
    have hspec₁ := run_spec halign (Inv.fresh image)
      (fun id w hmem => hzero id w (mem_append_left _ hmem)) hbefore
    have hspec₂ := step_spec halign hspec₁.inv (fun id w hact => hzero id w (by simp [hact])) hstep
    obtain ⟨t, ht, w, lo, hi, hact, hreq, hcovers, hbyte⟩ := hspec₂.image x hx
    exact ⟨t.id, w, lo, hi, hact, known_fresh (hspec₁.reqs t ht w hreq), hcovers, hbyte⟩
  rintro before after s₁ rfl hbefore x hflight hstarted
  have hspec₁ := run_spec halign (Inv.fresh image)
    (fun id w hmem => hzero id w (mem_append_left _ hmem)) hbefore
  rw [run_append, hbefore] at hrun
  have hspec₂ := run_spec halign hspec₁.inv
    (fun id w hmem => hzero id w (mem_append_right _ hmem)) hrun
  rcases hspec₂.image x with hsame | ⟨id, w, hknown, hcovers, -⟩
  · exact hsame
  · rcases hknown with ⟨t, ht, -, hreq⟩ | hmem
    · exact absurd ⟨w, hreq, hcovers⟩ (hflight t ht)
    · exact absurd hcovers (hstarted id w hmem)

def paddedSteps (id n : Nat) : List Act :=
  [.fetch id 0 n, .complete id true, .fetch id 0 n, .complete id true, .store id 0 n,
    .complete id true]

/-- A write of the byte `v` at `offset`. -/
def writeByte (offset : Nat) (v : UInt8) : Write where
  offset := offset
  bytes := 1
  zero := false
  qiov := some [v]
  qiov_length := by simp

def twoWrites : List Act :=
  [.begin 1 (.write (writeByte 10 1)), .begin 2 (.write (writeByte 20 2))] ++
    paddedSteps 1 512 ++ [.resume 2] ++ paddedSteps 2 512

theorem writes_stay_in_range_same_block : ∃ s,
    run (blockAlign (2 ^ 0)) (fresh fun _ => 7) twoWrites = some s ∧ s.tracked = [] ∧
      s.image 10 = 1 ∧ s.image 20 = 2 ∧
      ∀ x, s.image x = 7 ∨
        ∃ id w, .begin id (.write w) ∈ twoWrites ∧ w.Covers x ∧ s.image x = w.byte x := by
  obtain ⟨s, hrun, hend⟩ := Option.map_eq_some_iff.mp
    (show (run (blockAlign (2 ^ 0)) (fresh fun _ => 7) twoWrites).map (fun s =>
        (s.tracked.isEmpty, s.image 10, s.image 20)) = some (true, 1, 2) by decide +kernel)
  simp only [Prod.mk.injEq, List.isEmpty_iff] at hend
  obtain ⟨hdone, hfirst, hsecond⟩ := hend
  have hzero : ∀ id w, Act.begin id (.write w) ∈ twoWrites →
      w.ZeroAligned (blockAlign (2 ^ 0)) := by
    intro id w hmem hw
    have hcases : (id = 1 ∧ w = writeByte 10 1) ∨ (id = 2 ∧ w = writeByte 20 2) := by
      simpa [twoWrites, paddedSteps] using hmem
    rcases hcases with ⟨-, rfl⟩ | ⟨-, rfl⟩
    · cases hw
    · cases hw
  exact ⟨s, hrun, hdone, hfirst, hsecond,
    (writes_stay_in_range 0 (fun _ => 7) twoWrites s hrun hzero).1⟩

/-- `bdrv_write_zeroes` for the second sector of a device with blocks of 2048 bytes. -/
def zeroSector : Write where
  offset := 512
  bytes := 512
  zero := true
  qiov := some (replicate 512 0)
  qiov_length data h := by
    cases h
    exact length_replicate

/-- The first sector is overwritten with zeroes. -/
theorem zero_write_leaves_range : ∃ s,
    run (blockAlign (2 ^ 11)) (fresh fun _ => 7)
      (.begin 1 (.write zeroSector) :: paddedSteps 1 2048) = some s ∧ s.tracked = [] ∧
      ¬ zeroSector.Covers 0 ∧ s.image 0 = 0 := by
  obtain ⟨s, hrun, hend⟩ := map_eq_some_iff.mp
    (show (run (blockAlign (2 ^ 11)) (fresh fun _ => 7)
        (.begin 1 (.write zeroSector) :: paddedSteps 1 2048)).map (fun s =>
        (s.tracked.isEmpty, s.image 0)) = some (true, 0) by decide +kernel)
  simp only [Prod.mk.injEq, List.isEmpty_iff] at hend
  exact ⟨s, hrun, hend.1, by decide, hend.2⟩

end QemuVmi.Block
