import Mathlib

/-!
# Reading from a `QEMUFile`

The input side of `qemu-file.c`. The backend returns some of the bytes that it is asked for, and
none at the end of the stream. `qemu_fill_buffer` asks once, for the room that is left in `buf`.
If there is no room, it sets an error. `qemu_peek_byte` returns 0 for a byte that has not come.

Results:
1. `fileCall_spec`: what each call returns, and when it sets the error.
2. `reads_right_iff`: the runs in which all calls return the bytes of the stream without an error.
-/

namespace QemuVmi.Migration

open List

/-- `IO_BUF_SIZE` -/
def ioBufSize : Nat := 32768

/-- A `QEMUFile` that is read. `buf` has `buf_size` bytes. -/
structure QemuFile where
  buf : List UInt8
  bufIndex : Nat
  /-- What the backend has not returned yet. -/
  stream : List UInt8
  lastError : Bool
  index_le : bufIndex ≤ buf.length

namespace QemuFile

variable (f : QemuFile)

/-- The bytes of the buffer that have not been read. -/
def pending : List UInt8 := f.buf.drop f.bufIndex

/-- All bytes from the read position on. -/
def ahead : List UInt8 := f.pending ++ f.stream

/-- `qemu_fill_buffer`. The backend returns `chunk` bytes if it has them and is asked for them. -/
def fillBuffer (chunk : Nat) : QemuFile :=
  let len := min (max 1 chunk) (min (ioBufSize - f.pending.length) f.stream.length)
  { buf := f.pending ++ f.stream.take len
    bufIndex := 0
    stream := f.stream.drop len
    lastError := f.lastError || len == 0
    index_le := Nat.zero_le _ }

/-- `qemu_file_skip` -/
def skip (size : Nat) : QemuFile :=
  if h : f.bufIndex + size ≤ f.buf.length then
    { f with bufIndex := f.bufIndex + size, index_le := h }
  else f

/-- The start of `qemu_peek_buffer`, and of `qemu_peek_byte`, which needs one byte. -/
def refill (stop chunk : Nat) : QemuFile :=
  if f.buf.length < f.bufIndex + stop then f.fillBuffer chunk else f

/-- `qemu_peek_buffer` -/
def peekBuffer (size offset chunk : Nat) : List UInt8 × QemuFile :=
  let f := f.refill (offset + size) chunk
  ((f.buf.drop (f.bufIndex + offset)).take size, f)

/-- The loop of `qemu_get_buffer`. -/
def getLoop : Nat → QemuFile → Nat → (Nat → Nat) → List UInt8 × QemuFile
  | 0, f, _, _ => ([], f)
  | fuel + 1, f, pending, chunks =>
    if pending > 0 then
      let (res, f) := f.peekBuffer pending 0 (chunks 0)
      if res = [] then ([], f)
      else
        let (bytes, f) := getLoop fuel (f.skip res.length) (pending - res.length)
          fun i => chunks (i + 1)
        (res ++ bytes, f)
    else ([], f)

/-- `qemu_get_buffer`. Each turn of the loop but the last gets a byte. -/
def getBuffer (size : Nat) (chunks : Nat → Nat) : List UInt8 × QemuFile :=
  getLoop size f size chunks

/-- `qemu_peek_byte` -/
def peekByte (offset chunk : Nat) : UInt8 × QemuFile :=
  let f := f.refill (offset + 1) chunk
  (f.buf.getD (f.bufIndex + offset) 0, f)

/-- `qemu_get_byte` -/
def getByte (chunk : Nat) : UInt8 × QemuFile :=
  let (result, f) := f.peekByte 0 chunk
  (result, f.skip 1)

end QemuFile

/-- The offsets for which `buf_index + offset` is an `int`. -/
abbrev Offset := Fin (0x80000000 - 32768)

/-- A call, with the answers of the backend. -/
inductive FileCall
  | peekByte (offset : Offset) (chunk : Nat)
  | peekBuffer (size : Nat) (offset : Offset) (chunk : Nat)
  | getByte (chunk : Nat)
  | getBuffer (size : Nat) (chunks : Nat → Nat)

def fileCall (f : QemuFile) : FileCall → List UInt8 × QemuFile
  | .peekByte offset chunk => ([(f.peekByte offset chunk).1], (f.peekByte offset chunk).2)
  | .peekBuffer size offset chunk => f.peekBuffer size offset chunk
  | .getByte chunk => ([(f.getByte chunk).1], (f.getByte chunk).2)
  | .getBuffer size chunks => f.getBuffer size chunks

/-- The bytes that the call asks for end here. -/
def FileCall.stop : FileCall → Nat
  | .peekByte offset _ => offset + 1
  | .peekBuffer size offset _ => offset + size
  | .getByte _ => 1
  | .getBuffer size _ => size

/-- How far the read position moves. -/
def FileCall.taken : FileCall → Nat
  | .peekByte _ _ | .peekBuffer _ _ _ => 0
  | .getByte _ => 1
  | .getBuffer size _ => size

/-- The call returns bytes of what is left of the stream. The byte behind its end is 0. -/
def FileCall.Returns (left bytes : List UInt8) : FileCall → Prop
  | .peekByte offset _ => bytes = [left.getD offset 0]
  | .peekBuffer size offset _ => bytes <+: (left.drop offset).take size
  | .getByte _ => bytes = [left.getD 0 0]
  | .getBuffer size _ => bytes = left.take size

/-- The buffer is full of bytes that have not been read, and these are not enough. -/
def QemuFile.Full (f : QemuFile) (stop : Nat) : Prop :=
  ioBufSize ≤ f.pending.length ∧ f.pending.length < stop

/-- The byte that is peeked at comes with the next bytes of the backend. -/
def FileCall.Comes (f : QemuFile) : FileCall → Prop
  | .peekByte offset chunk =>
    offset < f.pending.length + min (max 1 chunk) (ioBufSize - f.pending.length) ∨
      f.ahead.getD offset 0 = 0
  | _ => True

namespace QemuFile

variable {f : QemuFile} {stop chunk : Nat}

lemma length_pending : f.pending.length = f.buf.length - f.bufIndex := length_drop

lemma refill_eq : f.refill stop chunk =
    if f.pending.length < stop then f.fillBuffer chunk else f := by
  have hle := f.index_le
  refine if_congr ?_ rfl rfl
  rw [length_pending]
  omega

lemma peekBuffer_eq (size offset : Nat) : f.peekBuffer size offset chunk =
    (((f.refill (offset + size) chunk).pending.drop offset).take size,
      f.refill (offset + size) chunk) := by
  rw [peekBuffer, pending, drop_drop]

lemma peekByte_eq (offset : Nat) : f.peekByte offset chunk =
    ((f.refill (offset + 1) chunk).pending.getD offset 0, f.refill (offset + 1) chunk) := by
  simp only [peekByte, pending, getD_eq_getElem?_getD, List.getElem?_drop]

lemma ahead_refill : (f.refill stop chunk).ahead = f.ahead := by
  rw [refill_eq]
  split
  · simp [ahead, fillBuffer, pending]
  · rfl

lemma length_pending_refill : (f.refill stop chunk).pending.length =
    if f.pending.length < stop then
      f.pending.length + min (max 1 chunk) (min (ioBufSize - f.pending.length) f.stream.length)
    else f.pending.length := by
  rw [refill_eq]
  split
  · simp only [fillBuffer, pending, drop_zero, length_append, length_take]
    omega
  · rfl

lemma refill_lastError : (f.refill stop chunk).lastError = true ↔
    f.lastError = true ∨ f.pending.length < stop ∧
      (ioBufSize ≤ f.pending.length ∨ f.ahead.length = f.pending.length) := by
  rw [refill_eq]
  split
  next hlt =>
    simp only [fillBuffer, ahead, Bool.or_eq_true, beq_iff_eq, length_append, hlt, true_and]
    refine or_congr Iff.rfl ?_
    omega
  next hlt => simp [hlt]

lemma skip_spec {size : Nat} (h : size ≤ f.pending.length) :
    (f.skip size).pending = f.pending.drop size ∧ (f.skip size).ahead = f.ahead.drop size ∧
      (f.skip size).lastError = f.lastError := by
  have hlength := @length_pending f
  have hle := f.index_le
  have hskip : f.bufIndex + size ≤ f.buf.length := by omega
  have hpending : (f.skip size).pending = f.pending.drop size := by
    simp [skip, hskip, pending, drop_drop]
  refine ⟨hpending, ?_, by simp [skip, hskip]⟩
  rw [ahead, hpending, ahead, drop_append_of_le_length h]
  simp [skip, hskip]

/-- After the first turn nothing is left in the buffer, or nothing more is asked for. -/
lemma getLoop_spec (fuel : Nat) (f : QemuFile) (size : Nat) (chunks : Nat → Nat)
    (hsize : size ≤ fuel) : (getLoop fuel f size chunks).1 = f.ahead.take size ∧
    (getLoop fuel f size chunks).2.ahead = f.ahead.drop size ∧
    ((getLoop fuel f size chunks).2.lastError = true ↔
      f.lastError = true ∨ f.Full size ∨ f.ahead.length < size) := by
  induction fuel generalizing f size chunks with
  | zero => simp [getLoop, Full, Nat.le_zero.mp hsize]
  | succ fuel ih =>
    rw [getLoop]
    rcases Nat.eq_zero_or_pos size with rfl | hpos
    · simp [Full]
    rw [if_pos hpos, peekBuffer_eq]
    have hahead := @ahead_refill f (0 + size) (chunks 0)
    have hlength := @length_pending_refill f (0 + size) (chunks 0)
    have herror := @refill_lastError f (0 + size) (chunks 0)
    generalize f.refill (0 + size) (chunks 0) = f₁ at hahead hlength herror
    have hf : f.ahead.length = f.pending.length + f.stream.length := length_append
    have hf₁ : f.ahead.length = f₁.pending.length + f₁.stream.length :=
      hahead ▸ length_append
    rw [Nat.zero_add] at hlength herror
    simp only [drop_zero, take_eq_nil_iff, hpos.ne', false_or]
    split
    next hnil =>
      -- the backend was asked for all of the buffer, and had nothing
      have hend : f.ahead.length = 0 ∧ f.pending.length = 0 := by
        simp only [hnil, length_nil, ioBufSize] at hlength
        split at hlength <;> omega
      have hempty := eq_nil_of_length_eq_zero hend.1
      refine ⟨by simp [hempty], by simp [hahead, hempty], ?_⟩
      exact iff_of_true (herror.mpr (.inr (by omega))) (.inr (.inr (by omega)))
    next hnil =>
      have hsome := length_pos_iff.mpr hnil
      have htaken : (f₁.pending.take size).length = min size f₁.pending.length := length_take
      have hbytes : f₁.pending.take size = f.ahead.take (f₁.pending.take size).length := by
        rw [← hahead, ahead, take_append_of_le_length (by omega), htaken, ← take_take, take_length]
      generalize hn : (f₁.pending.take size).length = n at hbytes htaken
      obtain ⟨hpending, hskip, hsame⟩ := @skip_spec f₁ n (by omega)
      obtain ⟨hres, hrest, hlast⟩ := ih (f₁.skip n) (size - n) (fun i => chunks (i + 1)) (by omega)
      rw [hskip, hahead] at hres hrest
      refine ⟨?_, ?_, ?_⟩
      · rw [hres, hbytes, ← take_add, Nat.add_sub_cancel' (by omega)]
      · rw [hrest, drop_drop, Nat.add_sub_cancel' (by omega)]
      have hfull : ¬ (f₁.skip n).Full (size - n) := by
        rw [Full, hpending, length_drop]
        unfold ioBufSize
        omega
      rw [hlast, hsame, herror, hskip, hahead, length_drop, or_assoc]
      refine or_congr Iff.rfl ?_
      rw [or_iff_right hfull]
      unfold Full
      omega

lemma peekByte_eq_iff (offset : Offset) : (f.peekByte offset chunk).1 = f.ahead.getD offset 0 ↔
      (FileCall.peekByte offset chunk).Comes f := by
  have hlength := @length_pending_refill f (offset + 1) chunk
  have hahead := @ahead_refill f (offset + 1) chunk
  have hf : f.ahead.length = f.pending.length + f.stream.length := length_append
  rw [peekByte_eq, FileCall.Comes, ← hahead]
  dsimp only
  by_cases hlt : offset < (f.refill (offset + 1) chunk).pending.length
  · refine iff_of_true (getD_append _ _ _ _ hlt).symm (.inl ?_)
    split at hlength <;> omega
  rw [List.getD_eq_default _ _ (not_lt.mp hlt), eq_comm, or_iff_right_of_imp]
  intro hcomes
  refine getD_eq_default _ _ ?_
  rw [hahead]
  split at hlength <;> omega

lemma refill_error : ((f.refill stop chunk).lastError = true →
    f.lastError = true ∨ f.ahead.length < stop) ↔
      (f.Full stop → f.lastError = true ∨ f.ahead.length < stop) := by
  rw [refill_lastError]
  constructor
  · exact fun h hfull => h (.inr ⟨hfull.2, .inl hfull.1⟩)
  rintro h (herror | ⟨hlt, hfull | hend⟩)
  · exact .inl herror
  · exact h ⟨hfull, hlt⟩
  · exact .inr (hend ▸ hlt)

lemma getByte_spec : (f.getByte chunk).2.ahead = f.ahead.drop 1 ∧
    (f.getByte chunk).1 = f.ahead.getD 0 0 ∧
      (f.getByte chunk).2.lastError = (f.refill 1 chunk).lastError := by
  have hlength := @length_pending_refill f 1 chunk
  have hahead := @ahead_refill f 1 chunk
  have hf : f.ahead.length = f.pending.length + f.stream.length := length_append
  have hbuf := @length_pending (f.refill 1 chunk)
  simp only [getByte, peekByte_eq, Nat.zero_add]
  generalize f.refill 1 chunk = f₁ at hlength hahead hbuf
  rcases Nat.eq_zero_or_pos f₁.pending.length with hzero | hpos
  · have hend : f.ahead.length = 0 := by
      unfold ioBufSize at hlength
      split at hlength <;> omega
    have hskip : ¬ f₁.bufIndex + 1 ≤ f₁.buf.length := by omega
    simp [skip, hskip, hahead, eq_nil_of_length_eq_zero hend, eq_nil_of_length_eq_zero hzero]
  · obtain ⟨-, hskip, hsame⟩ := skip_spec hpos
    exact ⟨hskip.trans (hahead ▸ rfl), hahead ▸ (getD_append _ _ _ _ hpos).symm, hsame⟩

end QemuFile

def fileRun (stream : List UInt8) (calls : List FileCall) : QemuFile :=
  calls.foldl (fun f call => (fileCall f call).2) ⟨[], 0, stream, false, le_refl _⟩

open QemuFile

lemma fileCall_spec (f : QemuFile) (call : FileCall) :
    (fileCall f call).2.ahead = f.ahead.drop call.taken ∧
    (call.Returns f.ahead (fileCall f call).1 ↔ call.Comes f) ∧
    (((fileCall f call).2.lastError = true → f.lastError = true ∨ f.ahead.length < call.stop) ↔
      (f.Full call.stop → f.lastError = true ∨ f.ahead.length < call.stop)) := by
  cases call with
  | peekByte offset chunk =>
    refine ⟨?_, ?_, ?_⟩
    · rw [fileCall, peekByte_eq, ahead_refill]
      rfl
    · rw [← f.peekByte_eq_iff]
      exact singleton_inj
    · rw [fileCall, peekByte_eq]
      exact refill_error
  | peekBuffer size offset chunk =>
    rw [fileCall, peekBuffer_eq]
    refine ⟨ahead_refill, iff_of_true ?_ trivial, refill_error⟩
    have hpre : (f.refill (offset + size) chunk).pending <+: f.ahead :=
      ahead_refill ▸ prefix_append _ _
    exact List.IsPrefix.take (List.IsPrefix.drop hpre offset) size
  | getByte chunk =>
    obtain ⟨hahead, hbyte, herror⟩ := @getByte_spec f chunk
    refine ⟨hahead, iff_of_true (congrArg ([·]) hbyte) trivial, ?_⟩
    rw [fileCall, herror]
    exact refill_error
  | getBuffer size chunks =>
    obtain ⟨hbytes, hahead, herror⟩ := getLoop_spec size f size chunks (le_refl _)
    refine ⟨hahead, iff_of_true hbytes trivial, ?_⟩
    rw [show (fileCall f (.getBuffer size chunks)).2.lastError = true ↔ _ from herror]
    constructor
    · exact fun h hfull => h (.inr (.inl hfull))
    rintro h (hbefore | hfull | hshort)
    · exact .inl hbefore
    · exact h hfull
    · exact .inr hshort

/-- What `qemu_peek_byte`, `qemu_peek_buffer`, `qemu_get_byte` and `qemu_get_buffer` are for, with
what is left of the stream. -/
def FileCall.Right (left : List UInt8) (f : QemuFile) (call : FileCall) : Prop :=
  call.Returns left (fileCall f call).1 ∧
    ((fileCall f call).2.lastError = true → f.lastError = true ∨ left.length < call.stop)

lemma ahead_fileRun (stream : List UInt8) (calls : List FileCall) :
    (fileRun stream calls).ahead = stream.drop (calls.map FileCall.taken).sum := by
  induction calls using List.reverseRecOn with
  | nil => rfl
  | append_singleton calls call ih =>
    rw [fileRun, foldl_append, map_append, sum_append, ← drop_drop, ← ih,
      map_singleton, sum_singleton]
    exact (fileCall_spec _ call).1

theorem reads_right_iff (stream : List UInt8) (calls : List FileCall) :
    (∀ done call, done ++ [call] <+: calls →
      call.Right (stream.drop (done.map FileCall.taken).sum) (fileRun stream done)) ↔
    ∀ done call, done ++ [call] <+: calls → call.Comes (fileRun stream done) ∧
      ((fileRun stream done).Full call.stop → (fileRun stream done).lastError = true ∨
        (fileRun stream done).ahead.length < call.stop) := by
  refine forall₃_congr fun done call _ => ?_
  obtain ⟨-, hreturns, herror⟩ := fileCall_spec (fileRun stream done) call
  rw [FileCall.Right, ← ahead_fileRun]
  exact and_congr hreturns herror

lemma full_of_peek {stream : List UInt8} (h : ioBufSize < stream.length) :
    (fileRun stream [.peekByte 0 ioBufSize]).Full (ioBufSize + 1) := by
  rw [fileRun, foldl_cons, foldl_nil, fileCall, peekByte_eq, Full, length_pending_refill]
  simp only [pending, drop_nil, length_nil, Nat.zero_lt_succ, if_true]
  unfold ioBufSize at h ⊢
  omega

/-- The buffer is filled by a peek, and then more is read than it holds. A peek at the second byte
returns 0 if the backend returns one byte. -/
theorem reads_wrong : (fileCall (fileRun (.replicate (ioBufSize + 1) 1) [.peekByte 0 ioBufSize])
      (.getBuffer (ioBufSize + 1) fun _ => 1)).2.lastError = true ∧
    (fileCall (fileRun [1, 2] []) (.peekByte 1 1)).1 = [0] := by
  refine ⟨?_, by decide⟩
  rw [fileCall, getBuffer, (getLoop_spec _ _ _ _ (le_refl _)).2.2]
  refine .inr (.inl (full_of_peek ?_))
  rw [length_replicate]
  exact Nat.lt_succ_self _

end QemuVmi.Migration
