import QemuVmi.KvmCrypto.Hypercall

/-!
# Encryption and decryption, as the guest sees them

`submit_job` of the guest's driver (`programs/kvm_crypto_mod/crypto.c`): a message is
copied into the guest kernel, a `vm_job` is filled in, the hypercall runs, and the
output is copied to the caller.

Results:
1. `submitJob_granted`: what one submission returns, for every length that can be
   allocated. The host encrypts whole blocks: the last one is filled up with what
   lies behind the input.
2. `roundTrips_iff`: encryption followed by decryption gives back the message, for
   every cipher that inverts, exactly when the length is a whole number of blocks
   and not beyond what `kmalloc` allocates.

Of the ciphertext of a last partial block only the first bytes are returned, and
nothing can restore the others.
-/

namespace QemuVmi.KvmCrypto

open ByteRegion

/-- What the guest's allocator does for one submission, and the upper half of the
register that carries `vjob_len`: `mov` loads 8 bytes from an `int`. -/
structure Buffers where
  vjobOk : Bool
  inputOk : Bool
  outputOk : Bool
  vjobGpa : BitVec 64
  inputGpa : BitVec 64
  outputGpa : BitVec 64
  high : BitVec 32

/-- The bytes of a `vm_job`. -/
def vmJobBytes (vjob : VmJob) : Region := fun k =>
  if k < 8 then byteOf vjob.inputGpa k
  else if k < 16 then byteOf vjob.outputGpa (k - 8)
  else if k < 20 then byteOf vjob.len (k - 16)
  else byteOf vjob.operation (k - 20)

/-- The guest's memory when the hypercall is made: both buffers are cleared, the
message is copied from the user, and the `vm_job` is filled in. -/
def prepare (bytes : Region) (d : Buffers) (vjob : VmJob) (input : Region) : Region :=
  let len := sizeT vjob.len
  let cleared := copy (copy bytes d.inputGpa.toNat len fun _ => 0#8) d.outputGpa.toNat len
    fun _ => 0#8
  copy (copy cleared d.inputGpa.toNat len input) d.vjobGpa.toNat sizeofVmJob (vmJobBytes vjob)

/-- `submit_job`: the guest and the caller's output. `none` when an allocation of the
driver fails or the hypercall never returns; the driver ignores its result. -/
def submitJob (cipher : BlockCipher) (host : Host) (g : Guest) (d : Buffers)
    (input output : Region) (len operation : BitVec 32) : Option (Guest × Region) :=
  let vjob : VmJob := ⟨d.inputGpa, d.outputGpa, len, operation⟩
  if !d.vjobOk || (kmalloc d.inputOk (sizeT len)).isNone || (kmalloc d.outputOk (sizeT len)).isNone
  then none
  else
    let o := hcCrypto cipher host { g with bytes := prepare g.bytes d vjob input } d.vjobGpa
      (d.high ++ BitVec.ofNat 32 sizeofVmJob)
    match o.hcRet with
    | none => none
    | some _ => some (o.guest, copy output 0 (sizeT len) fun i =>
        o.guest.bytes (d.outputGpa.toNat + i))

/-- `decrypt_one` inverts `encrypt_one`. -/
def BlockCipher.Inverts (cipher : BlockCipher) : Prop :=
  ∀ b, cipher.decryptOne (cipher.encryptOne b) = b

def Host.Grants (host : Host) : Prop :=
  host.vjobOk = true ∧ host.ibufOk = true ∧ host.obufOk = true ∧ host.jobOk = true

def Apart (a m b n : Nat) : Prop := ∀ i, i < m → ∀ j, j < n → a + i ≠ b + j

/-- What the guest's allocator promises about buffers for `len` bytes: they are
memory of the guest, and the `vm_job` and the input share no byte. -/
structure Buffers.Placed (d : Buffers) (g : Guest) (len : Nat) : Prop where
  ok : d.vjobOk = true ∧ d.inputOk = true ∧ d.outputOk = true
  vjob : Mapped g.readable d.vjobGpa.toNat sizeofVmJob
  input : Mapped g.readable d.inputGpa.toNat len
  output : Mapped g.writable d.outputGpa.toNat len
  vjobInput : Apart d.vjobGpa.toNat sizeofVmJob d.inputGpa.toNat len

/-- Encryption and then decryption of the output gives back every message of this
length, whatever the cipher, the hosts, the guest and its buffers. -/
def RoundTrips (len : BitVec 32) : Prop :=
  ∀ cipher : BlockCipher, cipher.Inverts →
  ∀ host host' : Host, host.Grants → host'.Grants →
  ∀ (g : Guest) (d d' : Buffers),
    (sizeT len ≤ kmallocMaxSize → d.Placed g (sizeT len) ∧ d'.Placed g (sizeT len)) →
  ∀ message output output' : Region,
    ∃ r r', submitJob cipher host g d message output len kvmEncryption = some r ∧
      submitJob cipher host' r.1 d' r.2 output' len kvmDecryption = some r' ∧
      ∀ i, i < sizeT len → r'.2 i = message i

lemma kmalloc_granted {size : Nat} (h : size ≤ kmallocMaxSize) : kmalloc true size = some size := by
  unfold kmalloc
  split
  · next hzero => rw [hzero]
  · exact if_pos (decide_eq_true h)

lemma vmJobAt_vmJobBytes {m : Region} {vjob : VmJob}
    (h : ∀ k, k < sizeofVmJob → m k = vmJobBytes vjob k) : vmJobAt m = vjob := by
  have hinput : word64 m 0 = vjob.inputGpa := word64_eq fun k hk => by
    rw [Nat.zero_add, h k (hk.trans (by decide)), vmJobBytes, if_pos hk]
  have houtput : word64 m 8 = vjob.outputGpa := word64_eq fun k hk => by
    rw [h _ (by unfold sizeofVmJob; omega), vmJobBytes, if_neg (by omega), if_pos (by omega),
      Nat.add_sub_cancel_left]
  have hlen : word32 m 16 = vjob.len := word32_eq fun k hk => by
    rw [h _ (by unfold sizeofVmJob; omega), vmJobBytes, if_neg (by omega), if_neg (by omega),
      if_pos (by omega), Nat.add_sub_cancel_left]
  have hoperation : word32 m 20 = vjob.operation := word32_eq fun k hk => by
    rw [h _ (by unfold sizeofVmJob; omega), vmJobBytes, if_neg (by omega), if_neg (by omega),
      if_neg (by omega), Nat.add_sub_cancel_left]
  rw [vmJobAt, hinput, houtput, hlen, hoperation]

lemma vjobLen_eq (high : BitVec 32) :
    (high ++ BitVec.ofNat 32 sizeofVmJob).setWidth 32 = BitVec.ofNat 32 sizeofVmJob := by
  rw [BitVec.setWidth_append]
  simp

lemma copy_apart {bytes src : Region} {a m b n i : Nat} (h : Apart a m b n) (hi : i < m) :
    copy bytes b n src (a + i) = bytes (a + i) := by
  refine copy_of_ge ?_
  by_contra hin
  exact h i hi (a + i - b) (by omega) (by omega)

/-- What the host computes: all blocks that start below `len`, from a buffer with
`beyond` behind the input. -/
def hostOutput (one : Block → Block) (beyond : Region) (len : Nat) (input : Region) : Region :=
  cryptDst one (copy beyond 0 len input) (fun _ => 0#8) (blocks len)

section
variable (cipher : BlockCipher)
include cipher

/-- The host's part of a granted submission: the output is written back, and it is
the blocks of the input, the last one filled up with what lies behind the buffer. -/
lemma produceBody_granted {host : Host} (hhost : host.Grants) {g : Guest}
    {vjob : VmJob} (hop : KnownOperation vjob.operation) (hlen : sizeT vjob.len ≤ kmallocMaxSize)
    (hinput : Mapped g.readable vjob.inputGpa.toNat (sizeT vjob.len))
    (houtput : Mapped g.writable vjob.outputGpa.toNat (sizeT vjob.len)) :
    let o := produceBody cipher host g vjob
    o.hcRet = some 0 ∧ o.guest.readable = g.readable ∧ o.guest.writable = g.writable ∧
      o.guest.bytes = copy g.bytes vjob.outputGpa.toNat (sizeT vjob.len)
        (hostOutput (cipher.one vjob.operation) host.beyond (sizeT vjob.len) fun i =>
          g.bytes (vjob.inputGpa.toNat + i)) := by
  obtain ⟨_, hibuf, hobuf, hjob⟩ := hhost
  unfold produceBody
  simp only [hibuf, hobuf, hjob, kmalloc_granted hlen, kvmReadGuest_mapped hinput,
    processJob_known cipher hop hlen, cryptStep_iterate, kvmWriteGuest_mapped houtput,
    Option.isNone_some, Bool.not_true, Bool.false_eq_true, if_false, if_true, copy_again, and_self, hostOutput]

lemma hcCrypto_of_header {host : Host} (hhost : host.Grants) {g : Guest}
    {vjobGpa : BitVec 64} {vjob : VmJob} (high : BitVec 32)
    (hmapped : Mapped g.readable vjobGpa.toNat sizeofVmJob)
    (hbytes : ∀ k, k < sizeofVmJob → g.bytes (vjobGpa.toNat + k) = vmJobBytes vjob k) :
    let o := hcCrypto cipher host g vjobGpa (high ++ BitVec.ofNat 32 sizeofVmJob)
    o.hcRet = (produceBody cipher host g vjob).hcRet ∧
      o.guest = (produceBody cipher host g vjob).guest := by
  have hsize : sizeT (BitVec.ofNat 32 sizeofVmJob) = sizeofVmJob := by decide
  have hheader : vmJobAt (copy host.fresh 0 sizeofVmJob fun i => g.bytes (vjobGpa.toNat + i)) =
      vjob := vmJobAt_vmJobBytes fun k hk => (copy_start_of_lt hk).trans (hbytes k hk)
  unfold hcCrypto cryptoProduceJob
  simp only [vjobLen_eq, hsize, hhost.1, kvmReadGuest_mapped hmapped, hheader, Bool.not_true,
    Bool.false_eq_true, if_false, and_self]

lemma submitJob_granted {host : Host} (hhost : host.Grants) {g : Guest}
    {d : Buffers} {len operation : BitVec 32} (hop : KnownOperation operation)
    (hlen : sizeT len ≤ kmallocMaxSize) (hd : d.Placed g (sizeT len)) (input output : Region) :
    ∃ g' : Guest, g'.readable = g.readable ∧ g'.writable = g.writable ∧
      submitJob cipher host g d input output len operation = some (g', copy output 0 (sizeT len)
          (hostOutput (cipher.one operation) host.beyond (sizeT len) input)) := by
  obtain ⟨hvjobOk, hinputOk, houtputOk⟩ := hd.ok
  let vjob : VmJob := ⟨d.inputGpa, d.outputGpa, len, operation⟩
  let before : Guest := { g with bytes := prepare g.bytes d vjob input }
  have hheader : ∀ k, k < sizeofVmJob → before.bytes (d.vjobGpa.toNat + k) = vmJobBytes vjob k :=
    fun k hk => copy_of_lt hk
  have hinput : ∀ i, i < sizeT len → before.bytes (d.inputGpa.toNat + i) = input i := by
    intro i hi
    exact (copy_apart (fun j hj k hk => (hd.vjobInput k hk j hj).symm) hi).trans (copy_of_lt hi)
  obtain ⟨hret, hguest⟩ := hcCrypto_of_header (g := before) cipher hhost d.high hd.vjob hheader
  obtain ⟨hok, hreadable, hwritable, hbytes⟩ :=
    @produceBody_granted cipher host hhost before vjob hop hlen hd.input hd.output
  refine ⟨_, hreadable, hwritable, ?_⟩
  unfold submitJob
  simp only [hvjobOk, hinputOk, houtputOk, kmalloc_granted hlen, Option.isNone_some, Bool.not_true,
    Bool.or_self, Bool.false_eq_true, if_false]
  rw [hret, hguest, hok]
  refine congrArg (fun r => some (_, r)) (copy_congr fun i hi => ?_)
  rw [hbytes, copy_of_lt hi, hostOutput, hostOutput, copy_congr hinput]

lemma submit_twice {host host' : Host} (hhost : host.Grants)
    (hhost' : host'.Grants) {g : Guest} {d d' : Buffers} {len : BitVec 32}
    (hlen : sizeT len ≤ kmallocMaxSize) (hd : d.Placed g (sizeT len))
    (hd' : d'.Placed g (sizeT len)) (message output output' : Region) :
    ∃ r r', submitJob cipher host g d message output len kvmEncryption = some r ∧
      submitJob cipher host' r.1 d' r.2 output' len kvmDecryption = some r' ∧
      r'.2 = copy output' 0 (sizeT len) (hostOutput cipher.decryptOne host'.beyond (sizeT len)
        (copy output 0 (sizeT len) (hostOutput cipher.encryptOne host.beyond (sizeT len)
          message))) := by
  obtain ⟨g', hreadable, hwritable, henc⟩ :=
    submitJob_granted cipher hhost (.inl rfl) hlen hd message output
  -- the first submission changes bytes of the guest, but none of its pages
  have hplaced : d'.Placed g' (sizeT len) :=
    { ok := hd'.ok, vjob := hreadable ▸ hd'.vjob, input := hreadable ▸ hd'.input
      output := hwritable ▸ hd'.output, vjobInput := hd'.vjobInput }
  obtain ⟨g'', _, _, hdec⟩ := submitJob_granted cipher hhost' (.inr rfl) hlen hplaced
    (copy output 0 (sizeT len) (hostOutput cipher.encryptOne host.beyond (sizeT len) message))
    output'
  exact ⟨_, _, henc, hdec, rfl⟩
end

section
variable {one : Block → Block} {beyond src : Region} {len i : Nat}

lemma lt_blocks_mul (hi : i < len) : i < aesBlockSize * blocks len := by
  unfold blocks aesBlockSize
  omega

lemma hostOutput_of_lt (hi : i < len) : hostOutput one beyond len src i =
    (one (readBlock (copy beyond 0 len src) (aesBlockSize * (i / aesBlockSize)))).get
      ⟨i % aesBlockSize, Nat.mod_lt i (by decide)⟩ :=
  if_pos (lt_blocks_mul hi)

lemma get_readBlock (mem : Region) (off : Nat) {k : Nat} (hk : k < 16) :
    (readBlock mem off).get ⟨k, hk⟩ = mem (off + k) := by
  exact Vector.getElem_ofFn hk

lemma readBlock_congr {mem mem' : Region} {off : Nat}
    (h : ∀ k, k < aesBlockSize → mem (off + k) = mem' (off + k)) :
    readBlock mem off = readBlock mem' off := by
  exact congrArg Vector.ofFn (funext fun k => h k k.isLt)

lemma readBlock_copy {dst : Region} {off : Nat} (h : off + aesBlockSize ≤ len) :
    readBlock (copy dst 0 len src) off = readBlock src off :=
  readBlock_congr fun k hk => copy_start_of_lt (by omega)

lemma readBlock_hostOutput {q : Nat} (h : aesBlockSize * q + aesBlockSize ≤ len) :
    readBlock (hostOutput one beyond len src) (aesBlockSize * q) =
      one (readBlock src (aesBlockSize * q)) := by
  apply Vector.ext
  intro k hk
  have hdiv : (aesBlockSize * q + k) / aesBlockSize = q := by
    unfold aesBlockSize at *
    omega
  have hmod : (aesBlockSize * q + k) % aesBlockSize = k := by
    unfold aesBlockSize at *
    omega
  have hget := get_readBlock (hostOutput one beyond len src) (aesBlockSize * q) hk
  rw [hostOutput_of_lt (by unfold aesBlockSize at *; omega)] at hget
  simp only [hdiv, hmod, readBlock_copy h] at hget
  exact hget

lemma hostOutput_inverts {one' : Block → Block} (hinv : ∀ b, one' (one b) = b)
    (hblocks : aesBlockSize ∣ len) (hi : i < len) (beyond' output : Region) :
    hostOutput one' beyond' len (copy output 0 len (hostOutput one beyond len src)) i = src i := by
  have hwhole : aesBlockSize * (i / aesBlockSize) + aesBlockSize ≤ len := by
    unfold aesBlockSize at *
    omega
  rw [hostOutput_of_lt hi, readBlock_copy hwhole, readBlock_copy hwhole,
    readBlock_hostOutput hwhole, hinv]
  exact (get_readBlock src _ _).trans (congrArg src (Nat.div_add_mod i aesBlockSize))
end

def reverseCipher : BlockCipher := ⟨Vector.reverse, Vector.reverse⟩

def onesHost : Host := { grantingHost with beyond := fun _ => 1#8 }

/-- The `vm_job` at 0, the input behind it and the output at 128 MiB. -/
def lowBuffers : Buffers :=
  { vjobOk := true, inputOk := true, outputOk := true
    vjobGpa := 0#64, inputGpa := 24#64, outputGpa := 0x8000000#64, high := 0#32 }

lemma lowBuffers_placed (len : Nat) : lowBuffers.Placed (uniformGuest 0#8) len where
  ok := ⟨rfl, rfl, rfl⟩
  vjob := fun _ _ => rfl
  input := fun _ _ => rfl
  output := fun _ _ => rfl
  vjobInput := by
    intro i hi j _ heq
    have hstart : (0#64).toNat + i = (24#64).toNat + j := heq
    rw [show (24#64).toNat = 24 from rfl, show (0#64).toNat = 0 from rfl] at hstart
    unfold sizeofVmJob at hi
    omega

lemma reverseCipher_inverts : reverseCipher.Inverts := fun b => Vector.reverse_reverse b

lemma hostOutput_reverse_last {beyond src : Region} {len : Nat} (h : ¬ aesBlockSize ∣ len) :
    hostOutput Vector.reverse beyond len src (aesBlockSize * (len / aesBlockSize)) =
      beyond (aesBlockSize * (len / aesBlockSize) + 15) := by
  have hlast : aesBlockSize * (len / aesBlockSize) < len ∧
      len ≤ aesBlockSize * (len / aesBlockSize) + 15 := by
    unfold aesBlockSize at *
    omega
  have hdiv : aesBlockSize * (len / aesBlockSize) / aesBlockSize = len / aesBlockSize :=
    Nat.mul_div_cancel_left _ (by decide)
  have hmod : aesBlockSize * (len / aesBlockSize) % aesBlockSize = 0 := Nat.mul_mod_right _ _
  rw [hostOutput_of_lt hlast.1]
  simp only [hdiv, hmod]
  have hrev : ∀ b : Block, b.reverse.get ⟨0, by decide⟩ = b.get ⟨15, by decide⟩ := fun b =>
    Vector.getElem_reverse (by decide)
  refine (hrev _).trans ((get_readBlock _ _ _).trans (copy_of_ge ?_))
  exact .inr ((Nat.zero_add len).trans_le hlast.2)

lemma submitJob_too_large (cipher : BlockCipher) (host : Host) (g : Guest) (d : Buffers)
    (input output : Region) {len : BitVec 32} (operation : BitVec 32)
    (hlen : kmallocMaxSize < sizeT len) :
    submitJob cipher host g d input output len operation = none := by
  have hnull : kmalloc d.inputOk (sizeT len) = none := by
    by_contra h
    exact absurd (small_of_kmalloc h) (Nat.not_le_of_lt hlen)
  unfold submitJob
  simp [hnull]

/-- Encryption works on whole blocks of memory, but only `len` bytes are returned. -/
theorem roundTrips_iff (len : BitVec 32) :
    RoundTrips len ↔ aesBlockSize ∣ sizeT len ∧ sizeT len ≤ kmallocMaxSize := by
  have hgrants : onesHost.Grants := ⟨rfl, rfl, rfl, rfl⟩
  refine ⟨fun h => ?_, fun ⟨hblocks, hlen⟩ => ?_⟩
  · obtain ⟨r, r', henc, hdec, hsame⟩ := h reverseCipher reverseCipher_inverts onesHost onesHost
      hgrants hgrants (uniformGuest 0#8) lowBuffers lowBuffers
      (fun _ => ⟨lowBuffers_placed _, lowBuffers_placed _⟩) (fun _ => 0#8) (fun _ => 0#8)
      (fun _ => 0#8)
    have hlen : sizeT len ≤ kmallocMaxSize := by
      by_contra hlarge
      rw [submitJob_too_large _ _ _ _ _ _ _ (not_le.mp hlarge)] at henc
      cases henc
    refine ⟨?_, hlen⟩
    by_contra hblocks
    -- the first byte of the last block comes from behind the host's buffer
    obtain ⟨s, s', henc', hdec', hout⟩ := submit_twice reverseCipher hgrants hgrants hlen
      (lowBuffers_placed _) (lowBuffers_placed _) (fun _ => 0#8) (fun _ => 0#8) (fun _ => 0#8)
    obtain rfl := Option.some.inj (henc.symm.trans henc')
    obtain rfl := Option.some.inj (hdec.symm.trans hdec')
    have hlast : aesBlockSize * (sizeT len / aesBlockSize) < sizeT len := by
      unfold aesBlockSize at *
      omega
    have hzero := hsame _ hlast
    rw [hout, copy_start_of_lt hlast] at hzero
    have hone : 1#8 = 0#8 := (hostOutput_reverse_last hblocks).symm.trans hzero
    exact absurd hone (by decide)
  · intro cipher hinv host host' hhost hhost' g d d' hplaced message output output'
    obtain ⟨hd, hd'⟩ := hplaced hlen
    obtain ⟨r, r', henc, hdec, hout⟩ :=
      submit_twice cipher hhost hhost' hlen hd hd' message output output'
    refine ⟨r, r', henc, hdec, fun i hi => ?_⟩
    rw [hout, copy_start_of_lt hi]
    exact hostOutput_inverts hinv hblocks hi _ _

/-- A message of one zero byte comes back as a one, although the cipher inverts. -/
theorem roundTrip_loses_byte : reverseCipher.Inverts ∧
    ((submitJob reverseCipher onesHost (uniformGuest 0#8) lowBuffers (fun _ => 0#8) (fun _ => 0#8)
        1#32 kvmEncryption).bind fun r =>
      submitJob reverseCipher onesHost r.1 lowBuffers r.2 (fun _ => 0#8) 1#32 kvmDecryption).map
        (fun r => r.2 0) = some 1#8 :=
  ⟨reverseCipher_inverts, by decide +kernel⟩

end QemuVmi.KvmCrypto
