import QemuVmi.Lib.WhileLoop

/-!
# The block loops of the crypto threads

`aes_encrypt` and `aes_decrypt` of `x86/kvm_crypto.c`, and the dispatch on the
operation in `crypto_consume_job`. The block cipher is a parameter: the kernel's
`crypto_cipher_encrypt_one` and `crypto_cipher_decrypt_one`.

The memory behind a pointer is a function of the offset from it, so a byte that
the loops read or write outside of a buffer has an offset like any other. The
loops step by whole blocks, and `writes` records where they write.

Results:
1. `cryptStep_iterate`: the state after any number of iterations.
2. `cryptLoop_ends`: for `0 ≤ len ≤ 2^31 - 16` the loop ends, after every block
   that starts below `len`. Beyond that the `int` counter wraps.
-/

namespace QemuVmi.KvmCrypto

open WhileLoop

abbrev Byte := BitVec 8

/-- The largest `KMALLOC_MAX_SIZE` of any configuration of the kernel. With pages of 4 KiB it is
4 MiB; an allocation between the two is then one that fails. -/
def kmallocMaxSize : Nat := 2 ^ 25

def aesBlockSize : Nat := 16

abbrev Block := Vector Byte 16

/-- What `crypto_alloc_cipher` returns, as far as the loops use it. -/
structure BlockCipher where
  encryptOne : Block → Block
  decryptOne : Block → Block

def readBlock (mem : Nat → Byte) (off : Nat) : Block := Vector.ofFn fun k => mem (off + k)

def writeBlock (mem : Nat → Byte) (off : Nat) (b : Block) : Nat → Byte := fun a =>
  if h : off ≤ a ∧ a < off + 16 then b.get ⟨a - off, by omega⟩ else mem a

/-- The locals of a block loop, the memory at its destination and the offsets it
has written. `ptmp` and `ctmp` are always at the same offset. -/
structure CryptState where
  i : BitVec 32
  off : Nat
  dst : Nat → Byte
  writes : List Nat

section
variable (one : Block → Block)

/-- The body of the loop: one block through the cipher. -/
def cryptStep (src : Nat → Byte) (s : CryptState) : CryptState :=
  { i := s.i + BitVec.ofNat 32 aesBlockSize
    off := s.off + aesBlockSize
    dst := writeBlock s.dst s.off (one (readBlock src s.off))
    writes := s.writes ++ (List.range aesBlockSize).map (s.off + ·) }

def cryptStart (dst : Nat → Byte) : CryptState :=
  { i := 0#32, off := 0, dst := dst, writes := [] }

section
variable (src dst : Nat → Byte)

/-- The loop of `aes_encrypt` and `aes_decrypt`. -/
def cryptLoop (len : BitVec 32) (fuel : Nat) :
    Option CryptState :=
  whileLoop (fun s => s.i.slt len) (cryptStep one src) fuel (cryptStart dst)

section
variable (cipher : BlockCipher)

/-- `aes_encrypt`. The key is not used: no `setkey` is called. -/
def aesEncrypt (pdata cdata : Nat → Byte) (len : BitVec 32) (fuel : Nat) :
    Option CryptState :=
  cryptLoop cipher.encryptOne pdata cdata len fuel

def aesDecrypt (cdata pdata : Nat → Byte) (len : BitVec 32) (fuel : Nat) :
    Option CryptState :=
  cryptLoop cipher.decryptOne cdata pdata len fuel

def kvmEncryption : BitVec 32 := 0#32

def kvmDecryption : BitVec 32 := 1#32

/-- `struct vm_job`: what the guest asks for. `len` and `operation` are `int`s. -/
structure VmJob where
  inputGpa : BitVec 64
  outputGpa : BitVec 64
  len : BitVec 32
  operation : BitVec 32
deriving DecidableEq, Repr

/-- `sizeof(struct vm_job)`. -/
def sizeofVmJob : Nat := 24

/-- The dispatch of `crypto_consume_job` on the operation of a job. An unknown
operation is printed and leaves the output as it is. -/
def processJob (operation len : BitVec 32) (input output : Nat → Byte)
    (fuel : Nat) : Option CryptState :=
  if operation = kvmEncryption then aesEncrypt cipher input output len fuel
  else if operation = kvmDecryption then aesDecrypt cipher input output len fuel
  else some (cryptStart output)
end

/-- The destination after `k` blocks. -/
def cryptDst (k : Nat) : Nat → Byte := fun a =>
  if a < aesBlockSize * k then
    (one (readBlock src (aesBlockSize * (a / aesBlockSize)))).get
      ⟨a % aesBlockSize, Nat.mod_lt a (by decide)⟩
  else dst a

lemma writeBlock_cryptDst (k : Nat) : writeBlock (cryptDst one src dst k) (aesBlockSize * k)
      (one (readBlock src (aesBlockSize * k))) = cryptDst one src dst (k + 1) := by
  funext a
  unfold writeBlock cryptDst aesBlockSize
  by_cases hblock : 16 * k ≤ a ∧ a < 16 * k + 16
  · have hdiv : a / 16 = k := by omega
    have hmod : a % 16 = a - 16 * k := by omega
    rw [dif_pos hblock, if_pos (by omega)]
    simp only [hdiv, hmod]
  rw [dif_neg hblock]
  by_cases hlow : a < 16 * k
  · rw [if_pos hlow, if_pos (by omega)]
  · rw [if_neg hlow, if_neg (by omega)]

lemma cryptStep_iterate (k : Nat) : (cryptStep one src)^[k] (cryptStart dst) =
      { i := BitVec.ofNat 32 (aesBlockSize * k), off := aesBlockSize * k,
        dst := cryptDst one src dst k, writes := List.range (aesBlockSize * k) } := by
  induction k with
  | zero =>
    have hdst : cryptDst one src dst 0 = dst := by
      funext a
      exact if_neg (Nat.not_lt_zero a)
    rw [hdst]
    rfl
  | succ k ih =>
    rw [Function.iterate_succ_apply', ih, cryptStep, CryptState.mk.injEq]
    refine ⟨?_, rfl, writeBlock_cryptDst one src dst k, ?_⟩
    · rw [← BitVec.ofNat_add]
      rfl
    · exact (List.range_add ..).symm

lemma toInt_ofNat_of_lt {m : Nat} (h : m < 2 ^ 31) : (BitVec.ofNat 32 m).toInt = m := by
  rw [BitVec.toInt_eq_toNat_of_lt (by rw [BitVec.toNat_ofNat]; omega), BitVec.toNat_ofNat]
  omega

/-- The number of blocks that start below `len`. -/
def blocks (len : Nat) : Nat := (len + (aesBlockSize - 1)) / aesBlockSize

lemma lt_blocks_iff {len k : Nat} : k < blocks len ↔ aesBlockSize * k < len := by
  unfold blocks aesBlockSize
  omega

lemma slt_iff {len : BitVec 32} {k : Nat} (hk : aesBlockSize * k < 2 ^ 31) :
    (BitVec.ofNat 32 (aesBlockSize * k)).slt len = true ↔ (aesBlockSize * k : Int) < len.toInt := by
  rw [BitVec.slt_iff_toInt_lt, toInt_ofNat_of_lt hk]
  rfl

lemma cryptLoop_ends {len : BitVec 32} {n : Nat}
    (hlen : len.toInt = n) (hn : n ≤ 2 ^ 31 - aesBlockSize) {fuel : Nat} (hfuel : blocks n < fuel) :
    cryptLoop one src dst len fuel = some ((cryptStep one src)^[blocks n] (cryptStart dst)) := by
  have hlast : aesBlockSize * blocks n < 2 ^ 31 := by
    unfold blocks aesBlockSize at *
    omega
  refine whileLoop_eq_some_iff.mpr ⟨blocks n, hfuel, fun k hk => ?_, ?_, rfl⟩
  · have hlow : aesBlockSize * k < n := lt_blocks_iff.mp hk
    rw [cryptStep_iterate]
    refine (slt_iff (by unfold aesBlockSize at *; omega)).mpr ?_
    rw [hlen]
    exact_mod_cast hlow
  · have hhigh : ¬ aesBlockSize * blocks n < n := fun h =>
      Nat.lt_irrefl _ (lt_blocks_iff.mpr h)
    rw [cryptStep_iterate, Bool.eq_false_iff, ne_eq, slt_iff hlast, hlen]
    exact_mod_cast hhigh
end

end

end QemuVmi.KvmCrypto
