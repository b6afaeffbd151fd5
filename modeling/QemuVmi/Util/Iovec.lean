import Mathlib

/-!
# I/O vectors

`QEMUIOVector` of `util/iov.c`: a list of pieces of memory. `qemu_iovec_concat` appends a range of
one vector to another. It copies pointers and not the data, so that the data of the result is the
memory behind the pieces. What the loops over such lists do is said with `iovAddrs`, the addresses
of all bytes in their order.
-/

namespace QemuVmi.Util

open List

/-- `struct iovec` -/
structure IoVec where
  base : Nat
  len : Nat
deriving DecidableEq, Repr

/-- `size` is the sum of the lengths in every vector that `qemu_iovec_init`, `qemu_iovec_add` and
`qemu_iovec_init_external` build. -/
structure QEMUIOVector where
  iov : List IoVec
  size : Nat
  size_eq : size = (iov.map IoVec.len).sum
deriving DecidableEq, Repr

namespace QEMUIOVector

def niov (qiov : QEMUIOVector) : Nat := qiov.iov.length

/-- `qemu_iovec_init` -/
def init : QEMUIOVector := ⟨[], 0, rfl⟩

/-- `qemu_iovec_init_external` -/
def initExternal (iov : List IoVec) : QEMUIOVector := ⟨iov, (iov.map IoVec.len).sum, rfl⟩

/-- `qemu_iovec_add` -/
def add (qiov : QEMUIOVector) (base len : Nat) : QEMUIOVector where
  iov := qiov.iov ++ [⟨base, len⟩]
  size := qiov.size + len
  size_eq := by simp [qiov.size_eq]

/-- The loop of `qemu_iovec_concat_iov`, with the offset that is left after it. -/
def concatLoop (sbytes : Nat) : List IoVec → QEMUIOVector → Nat → Nat → QEMUIOVector × Nat
  | [], dst, soffset, _ => (dst, soffset)
  | v :: src, dst, soffset, done =>
    if done < sbytes then
      if soffset < v.len then
        let len := min (v.len - soffset) (sbytes - done)
        concatLoop sbytes src (dst.add (v.base + soffset) len) 0 (done + len)
      else concatLoop sbytes src dst (soffset - v.len) done
    else (dst, soffset)

/-- `qemu_iovec_concat_iov`, `none` where its assertion fails. -/
def concatIov (dst : QEMUIOVector) (srcIov : List IoVec) (soffset sbytes : Nat) :
    Option QEMUIOVector :=
  if sbytes = 0 then some dst
  else
    let (dst, soffset) := concatLoop sbytes srcIov dst soffset 0
    if soffset = 0 then some dst else none

/-- `qemu_iovec_concat`. -/
def concat (dst src : QEMUIOVector) (soffset sbytes : Nat) : Option QEMUIOVector :=
  dst.concatIov src.iov soffset sbytes

end QEMUIOVector

def iovBytes (mem : Nat → UInt8) (iov : List IoVec) : List UInt8 :=
  iov.flatMap fun v => (List.range v.len).map fun i => mem (v.base + i)

def QEMUIOVector.bytes (mem : Nat → UInt8) (qiov : QEMUIOVector) : List UInt8 :=
  iovBytes mem qiov.iov

def iovAddrs (iov : List IoVec) : List Nat := iov.flatMap fun v => List.range' v.base v.len

section
variable {v : IoVec} {iov : List IoVec} {offset n : Nat}

lemma iovBytes_eq (mem : Nat → UInt8) (iov : List IoVec) :
    iovBytes mem iov = (iovAddrs iov).map mem := by
  simp [iovBytes, iovAddrs, map_flatMap, range'_eq_map_range, Function.comp_def]

lemma iovAddrs_cons (v : IoVec) (iov : List IoVec) :
    iovAddrs (v :: iov) = List.range' v.base v.len ++ iovAddrs iov := by
  simp [iovAddrs]

lemma iovAddrs_length (iov : List IoVec) : (iovAddrs iov).length = (iov.map IoVec.len).sum := by
  simp [iovAddrs, length_flatMap]

lemma drop_iovAddrs_of_le (h : v.len ≤ offset) :
    (iovAddrs (v :: iov)).drop offset = (iovAddrs iov).drop (offset - v.len) := by
  rw [iovAddrs_cons, drop_append, length_range', drop_of_length_le (by simpa using h), nil_append]

lemma drop_iovAddrs_of_lt (h : offset < v.len) : (iovAddrs (v :: iov)).drop offset =
      List.range' (v.base + offset) (v.len - offset) ++ iovAddrs iov := by
  rw [iovAddrs_cons, drop_append_of_le_length (by simpa using h.le), drop_range', mul_one]

/-- A range that starts in the first piece is the rest of this piece, or a part of it, and what is
left of the range behind it. -/
lemma slice_iovAddrs_of_lt (h : offset < v.len) : ((iovAddrs (v :: iov)).drop offset).take n =
      List.range' (v.base + offset) (min (v.len - offset) n) ++
        (iovAddrs iov).take (n - min (v.len - offset) n) := by
  rw [drop_iovAddrs_of_lt h, take_append, length_range']
  rcases Nat.le_total (v.len - offset) n with hle | hle
  · rw [take_range'_of_length_le hle, min_eq_left hle]
  · rw [List.take_range'_of_length_ge hle, Nat.min_eq_right hle, Nat.sub_eq_zero_of_le hle, Nat.sub_self]
end

namespace QEMUIOVector

@[simp] lemma bytes_init (mem : Nat → UInt8) : init.bytes mem = [] := rfl

@[simp] lemma bytes_length (mem : Nat → UInt8) (qiov : QEMUIOVector) :
    (qiov.bytes mem).length = qiov.size := by
  rw [bytes, iovBytes_eq, length_map, iovAddrs_length, qiov.size_eq]

lemma iovAddrs_add (qiov : QEMUIOVector) (base len : Nat) :
    iovAddrs (qiov.add base len).iov = iovAddrs qiov.iov ++ List.range' base len := by
  simp [add, iovAddrs]

/-- The loop appends the bytes after `soffset`, up to `sbytes` in all, and what is left of the offset
is what lies behind the end of the source. -/
lemma concatLoop_spec (sbytes : Nat) (src : List IoVec) :
    ∀ (dst : QEMUIOVector) (soffset done : Nat), done ≤ sbytes → soffset = 0 ∨ done < sbytes →
      iovAddrs (concatLoop sbytes src dst soffset done).1.iov =
        iovAddrs dst.iov ++ ((iovAddrs src).drop soffset).take (sbytes - done) ∧
      (concatLoop sbytes src dst soffset done).2 = soffset - (src.map IoVec.len).sum := by
  induction src with
  | nil => intro dst soffset done _ _; simp [concatLoop, iovAddrs]
  | cons v src ih =>
    intro dst soffset done hle hrun
    rw [concatLoop, map_cons, sum_cons]
    by_cases hdone : done < sbytes
    swap
    · -- the range is full, so that the loop ends before the next piece
      obtain rfl : soffset = 0 := hrun.resolve_right hdone
      rw [if_neg hdone, Nat.sub_eq_zero_of_le (not_lt.mp hdone)]
      simp
    rw [if_pos hdone]
    by_cases hoff : soffset < v.len
    · rw [if_pos hoff]
      obtain ⟨haddrs, hrest⟩ := ih (dst.add (v.base + soffset) (min (v.len - soffset) (sbytes - done)))
        0 (done + min (v.len - soffset) (sbytes - done)) (by omega) (.inl rfl)
      refine ⟨?_, by dsimp only; omega⟩
      rw [haddrs, iovAddrs_add, slice_iovAddrs_of_lt hoff, drop_zero, append_assoc, Nat.sub_add_eq]
    · rw [if_neg hoff]
      obtain ⟨haddrs, hrest⟩ := ih dst (soffset - v.len) done hle (.inr hdone)
      refine ⟨?_, by omega⟩
      rw [haddrs, drop_iovAddrs_of_le (not_lt.mp hoff)]

/-- `qemu_iovec_concat_iov` appends the range of the source, as far as the source has it, and its
assertion fails only for an offset behind the end of the source. -/
lemma concatIov_spec (dst : QEMUIOVector) (src : List IoVec) (soffset sbytes : Nat)
    (h : soffset ≤ (src.map IoVec.len).sum) : ∃ dst', dst.concatIov src soffset sbytes = some dst' ∧
      iovAddrs dst'.iov = iovAddrs dst.iov ++ ((iovAddrs src).drop soffset).take sbytes := by
  by_cases hzero : sbytes = 0
  · exact ⟨dst, by rw [concatIov, if_pos hzero], by simp [hzero]⟩
  obtain ⟨haddrs, hrest⟩ := concatLoop_spec sbytes src dst soffset 0 (Nat.zero_le _) (.inr (by omega))
  refine ⟨(concatLoop sbytes src dst soffset 0).1, ?_, haddrs⟩
  rw [concatIov, if_neg hzero]
  exact if_pos (by rw [hrest]; omega)

lemma concat_spec (dst src : QEMUIOVector) (soffset sbytes : Nat) (h : soffset ≤ src.size) :
    ∃ dst', dst.concat src soffset sbytes = some dst' ∧
      ∀ mem, dst'.bytes mem = dst.bytes mem ++ ((src.bytes mem).drop soffset).take sbytes := by
  obtain ⟨dst', hrun, haddrs⟩ := dst.concatIov_spec src.iov soffset sbytes (src.size_eq ▸ h)
  refine ⟨dst', hrun, fun mem => ?_⟩
  simp only [bytes, iovBytes_eq, haddrs, map_append, map_take, map_drop]

end QEMUIOVector

end QemuVmi.Util
