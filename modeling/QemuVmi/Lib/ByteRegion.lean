import Mathlib

/-!
# Byte regions

Memory behind one pointer, as a function of the offset: copies into it, and the
little-endian words in it.

Results:
1. `copy_of_lt`, `copy_of_ge`: what a copy changes and what it leaves alone.
2. `copy_copy`: two adjacent copies from one source are one copy.
3. `word64_eq`, `word32_eq`: the word whose bytes are stored at an offset.
-/

namespace ByteRegion

abbrev Region := Nat → BitVec 8

/-- `memcpy(dst + pos, src, count)`. -/
def copy (dst : Region) (pos count : Nat) (src : Region) : Region := fun a =>
  if pos ≤ a ∧ a < pos + count then src (a - pos) else dst a

variable {dst src : Region} {pos count : Nat}

lemma copy_of_lt {i : Nat} (h : i < count) : copy dst pos count src (pos + i) = src i := by
  rw [copy, if_pos ⟨Nat.le_add_right _ _, Nat.add_lt_add_left h _⟩, Nat.add_sub_cancel_left]

lemma copy_of_ge {a : Nat} (h : a < pos ∨ pos + count ≤ a) :
    copy dst pos count src a = dst a := by
  rw [copy, if_neg (by omega)]

lemma copy_start_of_lt {i : Nat} (h : i < count) : copy dst 0 count src i = src i := by
  rw [copy, if_pos ⟨Nat.zero_le _, by rwa [Nat.zero_add]⟩, Nat.sub_zero]

lemma copy_congr {src' : Region} (h : ∀ i, i < count → src i = src' i) :
    copy dst pos count src = copy dst pos count src' := by
  funext a
  unfold copy
  split
  · exact h _ (by omega)
  · rfl

lemma copy_zero (dst src : Region) (pos : Nat) : copy dst pos 0 src = dst := by
  funext a
  exact copy_of_ge (by omega)

lemma copy_again (dst src src' : Region) (pos count : Nat) :
    copy (copy dst pos count src) pos count src' = copy dst pos count src' := by
  funext a
  unfold copy
  split <;> rfl

lemma copy_copy (dst src : Region) (pos m n : Nat) :
    copy (copy dst pos m src) (pos + m) n (fun i => src (m + i)) = copy dst pos (m + n) src := by
  funext a
  unfold copy
  by_cases hlow : pos ≤ a ∧ a < pos + m
  · rw [if_neg (by omega), if_pos hlow, if_pos (by omega)]
  by_cases hhigh : pos + m ≤ a ∧ a < pos + m + n
  · have hoff : m + (a - (pos + m)) = a - pos := by omega
    rw [if_pos hhigh, if_pos (by omega)]
    exact congrArg src hoff
  · rw [if_neg hhigh, if_neg hlow, if_neg (by omega)]

/-- The byte `k` of a word, the least significant first. -/
def byteOf {w : Nat} (x : BitVec w) (k : Nat) : BitVec 8 := x.extractLsb' (8 * k) 8

def word64 (m : Region) (off : Nat) : BitVec 64 :=
  m (off + 7) ++ m (off + 6) ++ m (off + 5) ++ m (off + 4) ++ m (off + 3) ++ m (off + 2) ++
    m (off + 1) ++ m off

def word32 (m : Region) (off : Nat) : BitVec 32 :=
  m (off + 3) ++ m (off + 2) ++ m (off + 1) ++ m off

lemma word64_eq {m : Region} {off : Nat} {x : BitVec 64}
    (h : ∀ k, k < 8 → m (off + k) = byteOf x k) : word64 m off = x := by
  have h0 := h 0 (by decide)
  rw [Nat.add_zero] at h0
  simp only [word64, h0, h 1 (by decide), h 2 (by decide), h 3 (by decide), h 4 (by decide),
    h 5 (by decide), h 6 (by decide), h 7 (by decide), byteOf]
  apply BitVec.eq_of_getLsbD_eq
  intro i hi
  simp only [BitVec.getLsbD_append]
  simp
  grind

lemma word32_eq {m : Region} {off : Nat} {x : BitVec 32}
    (h : ∀ k, k < 4 → m (off + k) = byteOf x k) : word32 m off = x := by
  have h0 := h 0 (by decide)
  rw [Nat.add_zero] at h0
  simp only [word32, h0, h 1 (by decide), h 2 (by decide), h 3 (by decide), byteOf]
  apply BitVec.eq_of_getLsbD_eq
  intro i hi
  simp only [BitVec.getLsbD_append]
  simp
  grind

end ByteRegion
