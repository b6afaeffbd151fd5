import QemuVmi.KvmCrypto.Cipher
import QemuVmi.KvmCrypto.GuestMemory

/-!
# One crypto hypercall, with every byte it writes

`crypto_produce_job` of `x86/kvm_crypto.c` with the consumer's work on its job, run
for one hypercall on its own: the copy of the `vm_job`, the two buffers, the block
loop and the copy back. The model logs which bytes of which host buffer are
written, in the order of the source.

The guest chooses the length of the header copy and the length of the buffers, and
neither is checked:

1. `cryptoProduceJob_inBounds_iff`: for every argument pair and every guest, the
   exact condition for all writes to stay inside their buffers.
2. `hypercall_overflows_header`: a header of 32 bytes that is copied into 24.

An allocation that fails is a null pointer, which the source then writes through.
-/

namespace QemuVmi.KvmCrypto

open ByteRegion List

/-- `sizeof(struct crypto_job)`. -/
def sizeofCryptoJob : Nat := 56

inductive HostBuf
  | vjob
  | ibuf
  | obuf
  | job
deriving DecidableEq, Repr

/-- A write of `count` bytes into a buffer. -/
structure HostWrite where
  buf : HostBuf
  start : Nat
  count : Nat
deriving DecidableEq, Repr

/-- What the host's allocator does for one hypercall: which allocations it grants,
what it leaves in the memory of the `vm_job`, and what lies behind the input. -/
structure Host where
  vjobOk : Bool
  ibufOk : Bool
  obufOk : Bool
  jobOk : Bool
  fresh : Region
  beyond : Region

/-- `kmalloc`: how many bytes it returns, `none` for a null pointer. -/
def kmalloc (ok : Bool) (size : Nat) : Option Nat :=
  if size = 0 then some 0
  else if ok && decide (size ≤ kmallocMaxSize) then some size
  else none

/-- An `int` passed for a `size_t` or an `unsigned long`. -/
def sizeT (x : BitVec 32) : Nat := (x.signExtend 64).toNat

/-- The fields of the `vm_job` at a pointer. -/
def vmJobAt (m : Region) : VmJob :=
  { inputGpa := word64 m 0, outputGpa := word64 m 8, len := word32 m 16, operation := word32 m 20 }

/-- The sizes of the buffers for a job of `len` bytes. -/
def Host.bufferSize (host : Host) (len : Nat) : HostBuf → Nat
  | .vjob => sizeofVmJob
  | .ibuf => (kmalloc host.ibufOk len).getD 0
  | .obuf => (kmalloc host.obufOk len).getD 0
  | .job => if host.jobOk then sizeofCryptoJob else 0

/-- What a hypercall leaves: its result (`none` when it never returns to the guest),
the guest, what it wrote, and the sizes of its buffers. -/
structure Outcome where
  hcRet : Option Nat
  guest : Guest
  writes : List HostWrite
  size : HostBuf → Nat

def copyWrites (buf : HostBuf) (g : Guest) (gpa len : Nat) : List HostWrite :=
  (segmentsAt g.readable gpa len).2.map fun s => ⟨buf, s.pos, s.count⟩

section
variable (cipher : BlockCipher) (host : Host)

/-- `crypto_produce_job` behind the copy of the header, with the consumer's work.
`memset`, the copy of the input, the fields of the job, the block loop. -/
def produceBody (g : Guest) (vjob : VmJob) : Outcome :=
  let len := sizeT vjob.len
  let ibuf := kmalloc host.ibufOk len
  let obuf := kmalloc host.obufOk len
  let size := host.bufferSize len
  if ibuf.isNone then { hcRet := none, guest := g, writes := [⟨.ibuf, 0, len⟩], size := size }
  else
  let clears : List HostWrite := [⟨.ibuf, 0, len⟩, ⟨.obuf, 0, len⟩]
  if obuf.isNone then { hcRet := none, guest := g, writes := clears, size := size }
  else
    let input := kvmReadGuest g vjob.inputGpa.toNat len (copy host.beyond 0 len fun _ => 0#8)
    let writes := clears ++ copyWrites .ibuf g vjob.inputGpa.toNat len
    if !input.1 then { hcRet := some 1, guest := g, writes := writes, size := size }
    else
      let writes := writes ++ [⟨.job, 0, sizeofCryptoJob⟩]
      if !host.jobOk then { hcRet := none, guest := g, writes := writes, size := size }
      else
        match processJob cipher vjob.operation vjob.len input.2 (fun _ => 0#8) (blocks len + 1) with
        | none => { hcRet := none, guest := g, writes := writes, size := size }
        | some s =>
            let back := kvmWriteGuest g vjob.outputGpa.toNat len s.dst
            { hcRet := some (if back.1 then 0 else 1), guest := back.2
              writes := writes ++ s.writes.map fun a => ⟨.obuf, a, 1⟩, size := size }

/-- `crypto_produce_job`. The length of the header is an `int` that becomes an
`unsigned long`. -/
def cryptoProduceJob (g : Guest) (vjobGpa : BitVec 64)
    (vjobLen : BitVec 32) : Outcome :=
  if !host.vjobOk then { hcRet := some 1, guest := g, writes := [], size := fun _ => 0 }
  else
    let header := kvmReadGuest g vjobGpa.toNat (sizeT vjobLen) host.fresh
    let writes := copyWrites .vjob g vjobGpa.toNat (sizeT vjobLen)
    if !header.1 then
      { hcRet := some 1, guest := g, writes := writes, size := fun
          | .vjob => sizeofVmJob
          | _ => 0 }
    else
      let body := produceBody cipher host g (vmJobAt header.2)
      { body with writes := writes ++ body.writes }

/-- The `KVM_HC_CRYPTO` case of `kvm_emulate_hypercall`, for a guest kernel in long
mode. The second argument is cut to an `int`. -/
def hcCrypto (g : Guest) (a0 a1 : BitVec 64) : Outcome :=
  cryptoProduceJob cipher host g a0 (a1.setWidth 32)

def HostWrite.InBounds (w : HostWrite) (size : HostBuf → Nat) : Prop :=
  w.count = 0 ∨ w.start + w.count ≤ size w.buf

def Outcome.InBounds (o : Outcome) : Prop := ∀ w ∈ o.writes, w.InBounds o.size

instance (w : HostWrite) (size : HostBuf → Nat) : Decidable (w.InBounds size) :=
  inferInstanceAs (Decidable (_ ∨ _))

instance (o : Outcome) : Decidable o.InBounds :=
  inferInstanceAs (Decidable (∀ w ∈ o.writes, w.InBounds o.size))

/-- The `vm_job` as the host sees it after the copy: the guest's bytes, and behind
them what the allocator had left. -/
def headerOf (g : Guest) (vjobGpa : BitVec 64) (vjobLen : BitVec 32) : VmJob :=
  vmJobAt (copy host.fresh 0 (sizeT vjobLen) fun i => g.bytes (vjobGpa.toNat + i))

def KnownOperation (operation : BitVec 32) : Prop :=
  operation = kvmEncryption ∨ operation = kvmDecryption

def BlockCipher.one (operation : BitVec 32) : Block → Block :=
  if operation = kvmEncryption then cipher.encryptOne else cipher.decryptOne
end

/-- When the work on a header stays inside of its buffers: both are allocated, and
if the input can be read then so is the job, and a known operation is over whole
blocks. -/
def BodyFits (host : Host) (g : Guest) (vjob : VmJob) : Prop :=
  kmalloc host.ibufOk (sizeT vjob.len) ≠ none ∧ kmalloc host.obufOk (sizeT vjob.len) ≠ none ∧
    (Mapped g.readable vjob.inputGpa.toNat (sizeT vjob.len) →
      host.jobOk = true ∧ (KnownOperation vjob.operation → aesBlockSize ∣ sizeT vjob.len))

def HypercallFits (host : Host) (g : Guest) (vjobGpa : BitVec 64) (vjobLen : BitVec 32) : Prop :=
  host.vjobOk = true → StaysWithin g.readable vjobGpa.toNat (sizeT vjobLen) sizeofVmJob ∧
    (Mapped g.readable vjobGpa.toNat (sizeT vjobLen) →
      BodyFits host g (headerOf host g vjobGpa vjobLen))

variable {ok : Bool} {size : HostBuf → Nat} {g : Guest} {gpa len : Nat}

lemma kmalloc_eq {size : Nat} (h : kmalloc ok size ≠ none) : kmalloc ok size = some size := by
  unfold kmalloc at *
  split
  · next hzero => rw [hzero]
  next hpos =>
  rw [if_neg hpos] at h
  split
  · rfl
  · next hfail => exact absurd (if_neg hfail) h

lemma small_of_kmalloc {size : Nat} (h : kmalloc ok size ≠ none) : size ≤ kmallocMaxSize := by
  unfold kmalloc at h
  split at h
  · next hzero =>
    rw [hzero]
    exact Nat.zero_le _
  · split at h
    · next hok => exact of_decide_eq_true (Bool.and_eq_true_iff.mp hok).2
    · exact absurd rfl h

lemma kmalloc_none {size : Nat} (h : kmalloc ok size = none) : size ≠ 0 := by
  rintro rfl
  cases h

lemma inBounds_copyWrites {buf : HostBuf} (h : len ≤ size buf) :
    ∀ w ∈ copyWrites buf g gpa len, w.InBounds size := by
  intro w hw
  obtain ⟨s, hs, rfl⟩ := mem_map.mp hw
  have hbound := (segments_bound hs).2
  rw [zero_add] at hbound
  exact .inr (hbound.trans h)

lemma toInt_of_small {x : BitVec 32} (h : sizeT x ≤ kmallocMaxSize) : x.toInt = sizeT x := by
  have hsmall : 2 * (x.signExtend 64).toNat < 2 ^ 64 := by
    unfold sizeT kmallocMaxSize at h
    omega
  rw [← BitVec.toInt_signExtend_of_le (show 32 ≤ 64 by decide), sizeT,
    BitVec.toInt_eq_toNat_of_lt hsmall]

section
variable (cipher : BlockCipher)

lemma processJob_known {operation len : BitVec 32}
    (hop : KnownOperation operation) (hlen : sizeT len ≤ kmallocMaxSize) (input output : Region) :
    processJob cipher operation len input output (blocks (sizeT len) + 1) =
      some ((cryptStep (cipher.one operation) input)^[blocks (sizeT len)] (cryptStart output)) := by
  have hloop : ∀ one, cryptLoop one input output len (blocks (sizeT len) + 1) =
      some ((cryptStep one input)^[blocks (sizeT len)] (cryptStart output)) := fun one =>
    cryptLoop_ends one input output (toInt_of_small hlen)
      (le_trans hlen (by decide)) (Nat.lt_succ_self _)
  rcases hop with rfl | rfl
  · exact hloop cipher.encryptOne
  · exact hloop cipher.decryptOne

lemma processJob_unknown {operation len : BitVec 32}
    (hop : ¬ KnownOperation operation) (input output : Region) (fuel : Nat) :
    processJob cipher operation len input output fuel = some (cryptStart output) := by
  obtain ⟨henc, hdec⟩ := not_or.mp hop
  rw [processJob, if_neg henc, if_neg hdec]

lemma blocks_fit_iff : aesBlockSize * blocks len ≤ len ↔ aesBlockSize ∣ len := by
  unfold blocks aesBlockSize
  omega

lemma inBounds_append {ws ws' : List HostWrite} (h : ∀ w ∈ ws, w.InBounds size) :
    (∀ w ∈ ws ++ ws', w.InBounds size) ↔ ∀ w ∈ ws', w.InBounds size := by
  rw [forall_mem_append]
  exact and_iff_right h

lemma inBounds_bytes {k : Nat} {buf : HostBuf} :
    (∀ w ∈ (range k).map fun a => (⟨buf, a, 1⟩ : HostWrite), w.InBounds size) ↔ k ≤ size buf := by
  rw [forall_mem_map]
  refine ⟨fun h => ?_, fun h a ha => .inr (le_trans (mem_range.mp ha) h)⟩
  cases k with
  | zero => exact Nat.zero_le _
  | succ k => exact (h k self_mem_range_succ).resolve_left one_ne_zero

lemma not_inBounds_null {ws : List HostWrite} {w : HostWrite} (hw : w ∈ ws) (hcount : w.count ≠ 0)
    (hnull : size w.buf = 0) : ¬ ∀ w ∈ ws, w.InBounds size := by
  intro h
  rcases h w hw with hzero | hle
  · exact hcount hzero
  · omega

lemma bufferSize_some (h : kmalloc ok len = some len) : (kmalloc ok len).getD 0 = len :=
  congrArg (Option.getD · 0) h

lemma bufferSize_none (h : kmalloc ok len = none) : (kmalloc ok len).getD 0 = 0 :=
  congrArg (Option.getD · 0) h

lemma inBounds_input (hibuf : size .ibuf = len) (hobuf : size .obuf = len) :
    ∀ w ∈ [⟨.ibuf, 0, len⟩, ⟨.obuf, 0, len⟩] ++ copyWrites .ibuf g gpa len, w.InBounds size := by
  refine forall_mem_append.mpr ⟨?_, inBounds_copyWrites hibuf.symm.le⟩
  refine forall_mem_cons.mpr ⟨.inr ?_, forall_mem_singleton.mpr (.inr ?_)⟩
  · exact (zero_add len).trans_le hibuf.symm.le
  · exact (zero_add len).trans_le hobuf.symm.le

/-- Once both buffers are allocated, the work on a readable input stays inside exactly
when the job is allocated and a known operation is over whole blocks. -/
lemma produceBody_readable {host : Host} {vjob : VmJob}
    (hibuf : kmalloc host.ibufOk (sizeT vjob.len) = some (sizeT vjob.len))
    (hobuf : kmalloc host.obufOk (sizeT vjob.len) = some (sizeT vjob.len))
    (hsmall : sizeT vjob.len ≤ kmallocMaxSize)
    (hmapped : Mapped g.readable vjob.inputGpa.toNat (sizeT vjob.len)) :
    (produceBody cipher host g vjob).InBounds ↔
      host.jobOk = true ∧ (KnownOperation vjob.operation → aesBlockSize ∣ sizeT vjob.len) := by
  have hisize := bufferSize_some hibuf
  have hosize : host.bufferSize (sizeT vjob.len) .obuf = sizeT vjob.len := bufferSize_some hobuf
  unfold produceBody Outcome.InBounds
  simp only [hibuf, hobuf, kvmReadGuest_mapped hmapped, Option.isNone_some,
    Bool.false_eq_true, if_false, Bool.not_true]
  cases hjob : host.jobOk with
  | false =>
    have hnull : host.bufferSize (sizeT vjob.len) .job = 0 :=
      if_neg (Bool.eq_false_iff.mp hjob)
    refine iff_of_false ?_ (fun h => Bool.false_ne_true h.1)
    exact not_inBounds_null (mem_append_right _ mem_cons_self) (by decide) hnull
  | true =>
    have hfirst : ∀ w ∈ [⟨.ibuf, 0, sizeT vjob.len⟩, ⟨.obuf, 0, sizeT vjob.len⟩] ++
        copyWrites .ibuf g vjob.inputGpa.toNat (sizeT vjob.len) ++ [⟨.job, 0, sizeofCryptoJob⟩],
        w.InBounds (host.bufferSize (sizeT vjob.len)) := by
      refine forall_mem_append.mpr ⟨inBounds_input hisize hosize, ?_⟩
      exact forall_mem_singleton.mpr (.inr (if_pos hjob).symm.le)
    by_cases hop : KnownOperation vjob.operation
    · simp only [processJob_known cipher hop hsmall, cryptStep_iterate, Bool.not_true,
        Bool.false_eq_true, if_false, true_and]
      rw [inBounds_append hfirst, inBounds_bytes, hosize, blocks_fit_iff]
      exact ⟨fun h _ => h, fun h => h hop⟩
    simp only [processJob_unknown cipher hop, Bool.not_true, Bool.false_eq_true, if_false, true_and]
    rw [inBounds_append hfirst]
    exact iff_of_true (fun w hw => nomatch hw) fun h => absurd h hop

lemma produceBody_inBounds_iff (host : Host) (g : Guest) (vjob : VmJob) :
    (produceBody cipher host g vjob).InBounds ↔ BodyFits host g vjob := by
  unfold BodyFits
  by_cases hibuf : kmalloc host.ibufOk (sizeT vjob.len) = none
  · refine iff_of_false ?_ fun h => h.1 hibuf
    unfold produceBody Outcome.InBounds
    simp only [hibuf, Option.isNone_none, if_true]
    exact not_inBounds_null mem_cons_self (kmalloc_none hibuf) (bufferSize_none hibuf)
  by_cases hobuf : kmalloc host.obufOk (sizeT vjob.len) = none
  · refine iff_of_false ?_ fun h => h.2.1 hobuf
    unfold produceBody Outcome.InBounds
    simp only [kmalloc_eq hibuf, hobuf, Option.isNone_none, Option.isNone_some, if_true,
      Bool.false_eq_true, if_false]
    exact not_inBounds_null (mem_cons_of_mem _ mem_cons_self) (kmalloc_none hobuf)
      (bufferSize_none hobuf)
  rw [and_iff_right hibuf, and_iff_right hobuf]
  by_cases hmapped : Mapped g.readable vjob.inputGpa.toNat (sizeT vjob.len)
  · rw [produceBody_readable cipher (kmalloc_eq hibuf) (kmalloc_eq hobuf) (small_of_kmalloc hibuf)
      hmapped]
    exact ⟨fun h _ => h, fun h => h hmapped⟩
  -- the copy of the input fails, and nothing is written behind it
  refine iff_of_true ?_ fun h => absurd h hmapped
  have hfail : (kvmReadGuest g vjob.inputGpa.toNat (sizeT vjob.len)
      (copy host.beyond 0 (sizeT vjob.len) fun _ => 0#8)).1 = false :=
    Bool.eq_false_iff.mpr (mt kvmReadGuest_ok_iff.mp hmapped)
  unfold produceBody Outcome.InBounds
  simp only [kmalloc_eq hibuf, kmalloc_eq hobuf, hfail, Option.isNone_some,
    Bool.false_eq_true, if_false, Bool.not_false, if_true]
  exact inBounds_input (bufferSize_some (kmalloc_eq hibuf)) (bufferSize_some (kmalloc_eq hobuf))

lemma header_inBounds_iff (hsize : size .vjob = sizeofVmJob) :
    (∀ w ∈ copyWrites .vjob g gpa len, w.InBounds size) ↔
      StaysWithin g.readable gpa len sizeofVmJob := by
  rw [← segments_le_iff (by decide), copyWrites, forall_mem_map]
  refine forall₂_congr fun s hs => ?_
  rw [HostWrite.InBounds, hsize]
  exact or_iff_right (segments_bound hs).1

lemma produceBody_size (host : Host) (g : Guest) (vjob : VmJob) :
    (produceBody cipher host g vjob).size = host.bufferSize (sizeT vjob.len) := by
  unfold produceBody
  dsimp only
  repeat' (first | rfl | split)
end

theorem cryptoProduceJob_inBounds_iff (cipher : BlockCipher) (host : Host) (g : Guest)
    (vjobGpa : BitVec 64) (vjobLen : BitVec 32) :
    (cryptoProduceJob cipher host g vjobGpa vjobLen).InBounds ↔
      HypercallFits host g vjobGpa vjobLen := by
  unfold HypercallFits cryptoProduceJob
  cases hvjob : host.vjobOk with
  | false => exact iff_of_true (fun w hw => nomatch hw) (fun h => nomatch h)
  | true =>
    simp only [Bool.not_true, Bool.false_eq_true, if_false, true_imp_iff]
    by_cases hmapped : Mapped g.readable vjobGpa.toNat (sizeT vjobLen)
    · simp only [kvmReadGuest_mapped hmapped, Bool.not_true, Bool.false_eq_true, if_false]
      unfold Outcome.InBounds
      rw [forall_mem_append, header_inBounds_iff (congrFun (produceBody_size ..) .vjob)]
      refine and_congr_right fun _ => ?_
      refine Iff.trans ?_ (forall_prop_of_true hmapped).symm
      exact produceBody_inBounds_iff cipher host g (headerOf host g vjobGpa vjobLen)
    · have hfail : (kvmReadGuest g vjobGpa.toNat (sizeT vjobLen) host.fresh).1 = false :=
        Bool.eq_false_iff.mpr (mt kvmReadGuest_ok_iff.mp hmapped)
      simp only [hfail, Bool.not_false, if_true]
      rw [and_iff_left fun h => absurd h hmapped]
      exact header_inBounds_iff rfl

def uniformGuest (byte : Byte) : Guest :=
  { bytes := fun _ => byte, readable := fun _ => .mapped, writable := fun _ => .mapped }

def grantingHost : Host :=
  { vjobOk := true, ibufOk := true, obufOk := true, jobOk := true
    fresh := fun _ => 0#8, beyond := fun _ => 0#8 }

/-- The guest asks for a header of 32 bytes, and the copy goes 8 bytes beyond the
24 that are allocated. -/
theorem hypercall_overflows_header :
    ¬ (hcCrypto ⟨id, id⟩ grantingHost (uniformGuest 0#8) 0#64 32#64).InBounds := by
  decide +kernel

end QemuVmi.KvmCrypto
