import Mathlib

/-!
# Byte-addressed memory

A memory of bytes with 64-bit addresses and its little-endian words. Addresses
wrap at `2^64`, as pointers do, so two words overlap when the distance between
their addresses, taken either way round, is less than a word.

Results:
1. `load64_store64_self`: a word that was stored is read back.
2. `load64_store64_of_disjoint`: a store leaves every disjoint word alone.
-/

namespace ByteMemory

abbrev Mem := BitVec 64 → BitVec 8

/-- The little-endian 64-bit word at `a`. -/
def load64 (m : Mem) (a : BitVec 64) : BitVec 64 :=
  m (a + 7) ++ m (a + 6) ++ m (a + 5) ++ m (a + 4) ++ m (a + 3) ++ m (a + 2) ++ m (a + 1) ++ m a

/-- The little-endian 32-bit word at `a`. -/
def load32 (m : Mem) (a : BitVec 64) : BitVec 32 :=
  m (a + 3) ++ m (a + 2) ++ m (a + 1) ++ m a

/-- The memory with the 64-bit word `v` stored at `a`. -/
def store64 (m : Mem) (a v : BitVec 64) : Mem := fun b =>
  if (b - a).toNat < 8 then v.extractLsb' (8 * (b - a).toNat) 8 else m b

/-- The words at `a` and `b` do not overlap. -/
def Disjoint64 (a b : BitVec 64) : Prop :=
  8 ≤ (b - a).toNat ∧ 8 ≤ (a - b).toNat

lemma store64_of_disjoint {m : Mem} {a b v : BitVec 64} (h : Disjoint64 a b) {k : BitVec 64}
    (hk : k.toNat < 8) : store64 m a v (b + k) = m (b + k) := by
  obtain ⟨hab, hba⟩ := h
  have hfar : ¬ (b + k - a).toNat < 8 := by
    have := b.isLt
    have := a.isLt
    simp only [BitVec.toNat_sub, BitVec.toNat_add] at *
    omega
  rw [store64, if_neg hfar]

@[simp] lemma load64_store64_self (m : Mem) (a v : BitVec 64) : load64 (store64 m a v) a = v := by
  have hsub : ∀ k : BitVec 64, a + k - a = k := by
    intro k
    rw [BitVec.add_comm, BitVec.add_sub_cancel]
  have hzero : a - a = 0 := BitVec.sub_self a
  simp only [load64, store64, hsub, hzero]
  apply BitVec.eq_of_getLsbD_eq
  intro i hi
  simp only [BitVec.getLsbD_append]
  simp
  grind

lemma load64_store64_of_disjoint (m : Mem) {a b : BitVec 64} (v : BitVec 64)
    (h : Disjoint64 a b) : load64 (store64 m a v) b = load64 m b := by
  have hb : store64 m a v b = m b := by
    have := store64_of_disjoint (m := m) (v := v) h (k := 0) (by decide)
    simpa using this
  simp only [load64, hb]
  rw [store64_of_disjoint h (by decide), store64_of_disjoint h (by decide),
    store64_of_disjoint h (by decide), store64_of_disjoint h (by decide),
    store64_of_disjoint h (by decide), store64_of_disjoint h (by decide),
    store64_of_disjoint h (by decide)]

end ByteMemory
