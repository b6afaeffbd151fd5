import QemuVmi.Lib.ByteRegion

/-!
# Copies from and to the guest

`kvm_read_guest` and `kvm_write_guest` of `x86/kvm_main.c` copy page by page: each
page of the guest is looked up on its own, and the first one that cannot be
accessed ends the copy. Both functions run the same loop, `segments`, which says
which bytes are copied where.

Results:
1. `segments_bound`: no segment is empty, and none reaches beyond the length that was
   asked for.
2. `segments_le_iff`: when a copy of any length stays within a bound of less than a
   page.
-/

namespace QemuVmi.KvmCrypto

open ByteRegion List Nat

def pageSize : Nat := 4096

/-- What the host finds behind a guest page: nothing (`kvm_is_error_hva`), a mapping
on which the copy faults after some bytes, or memory. -/
inductive PageKind
  | absent
  | faulting (through : Nat)
  | mapped
deriving DecidableEq, Repr

structure Guest where
  bytes : Region
  readable : Nat → PageKind
  writable : Nat → PageKind

def nextSegment (len offset : Nat) : Nat :=
  if len > pageSize - offset then pageSize - offset else len

/-- One access to one page: `count` bytes are to be copied between the guest
address `gpa` and the offset `pos` of the host's buffer, and `copied` are. -/
structure Segment where
  gpa : Nat
  pos : Nat
  count : Nat
  copied : Nat
deriving DecidableEq, Repr

/-- The loop of `kvm_read_guest` and `kvm_write_guest`: its result, and the pages it
accesses. Every iteration takes at least one byte, so fuel above `len` is enough. -/
def segments (page : Nat → PageKind) : Nat → Nat → Nat → Nat → Nat → Bool × List Segment
  | 0, _, _, _, _ => (true, [])
  | fuel + 1, gfn, offset, len, pos =>
      let seg := nextSegment len offset
      if seg = 0 then (true, [])
      else
        match page gfn with
        | .absent => (false, [])
        | .faulting through => (false, [⟨gfn * pageSize + offset, pos, seg, min through seg⟩])
        | .mapped =>
            let rest := segments page fuel (gfn + 1) 0 (len - seg) (pos + seg)
            (rest.1, ⟨gfn * pageSize + offset, pos, seg, seg⟩ :: rest.2)

/-- `__copy_from_user` clears what it could not copy. -/
def Segment.read (bytes : Region) (dst : Region) (s : Segment) : Region :=
  copy (copy dst s.pos s.count fun _ => 0#8) s.pos s.copied fun i => bytes (s.gpa + i)

def Segment.write (src : Region) (bytes : Region) (s : Segment) : Region :=
  copy bytes s.gpa s.copied fun i => src (s.pos + i)

/-- The accesses of a copy of `len` bytes at `gpa`. -/
def segmentsAt (page : Nat → PageKind) (gpa len : Nat) : Bool × List Segment :=
  segments page (len + 1) (gpa / pageSize) (gpa % pageSize) len 0

/-- `kvm_read_guest`: whether it returns 0, and the memory at `data`. -/
def kvmReadGuest (g : Guest) (gpa len : Nat) (data : Region) : Bool × Region :=
  let r := segmentsAt g.readable gpa len
  (r.1, r.2.foldl (Segment.read g.bytes) data)

/-- `kvm_write_guest`: whether it returns 0, and the guest. -/
def kvmWriteGuest (g : Guest) (gpa len : Nat) (data : Region) : Bool × Guest :=
  let r := segmentsAt g.writable gpa len
  (r.1, { g with bytes := r.2.foldl (Segment.write data) g.bytes })

lemma nextSegment_le (len offset : Nat) : nextSegment len offset ≤ len := by
  unfold nextSegment
  split <;> omega

variable {gfn len pos fuel bound offset : Nat}

lemma nextSegment_pos (hlen : 0 < len) (hoffset : offset < pageSize) :
    0 < nextSegment len offset := by
  unfold nextSegment
  split <;> omega

variable {page : Nat → PageKind}

lemma segments_of_zero (hseg : nextSegment len offset = 0) :
    segments page (fuel + 1) gfn offset len pos = (true, []) := by
  conv => lhs; unfold segments
  exact if_pos hseg

lemma segments_of_pos (hseg : nextSegment len offset ≠ 0) :
    segments page (fuel + 1) gfn offset len pos = match page gfn with
      | .absent => (false, [])
      | .faulting through => (false, [⟨gfn * pageSize + offset, pos, nextSegment len offset,
          min through (nextSegment len offset)⟩])
      | .mapped =>
          let rest := segments page fuel (gfn + 1) 0 (len - nextSegment len offset)
            (pos + nextSegment len offset)
          (rest.1, ⟨gfn * pageSize + offset, pos, nextSegment len offset,
            nextSegment len offset⟩ :: rest.2) := by
  conv => lhs; unfold segments
  exact if_neg hseg

lemma segments_bound {s : Segment} (h : s ∈ (segments page fuel gfn offset len pos).2) :
    s.count ≠ 0 ∧ s.pos + s.count ≤ pos + len := by
  induction fuel generalizing gfn offset len pos with
  | zero => cases h
  | succ fuel ih =>
    have hle := nextSegment_le len offset
    by_cases hseg : nextSegment len offset = 0
    · rw [segments_of_zero hseg] at h
      cases h
    rw [segments_of_pos hseg] at h
    cases hpage : page gfn with
    | absent =>
      rw [hpage] at h
      cases h
    | faulting through =>
      rw [hpage] at h
      obtain rfl := List.mem_singleton.mp h
      exact ⟨hseg, Nat.add_le_add_left hle pos⟩
    | mapped =>
      rw [hpage] at h
      rcases List.mem_cons.mp h with rfl | h
      · exact ⟨hseg, Nat.add_le_add_left hle pos⟩
      · obtain ⟨hcount, hbound⟩ := ih h
        exact ⟨hcount, by omega⟩

/-- When a copy of any length stays below `bound`: the length is not more, or the
first page is absent, or at most `bound` bytes are left of the first page and the
copy ends with it. -/
def StaysWithin (page : Nat → PageKind) (gpa len bound : Nat) : Prop :=
  len ≤ bound ∨ page (gpa / pageSize) = .absent ∨ (pageSize - gpa % pageSize ≤ bound ∧
      (page (gpa / pageSize) ≠ .mapped ∨ page (gpa / pageSize + 1) = .absent))

lemma second_segment (hlen : 0 < len) (hbound : bound < pageSize) (hpos : bound < pos + len) :
    (∀ s ∈ (segments page (fuel + 1) gfn 0 len pos).2, s.pos + s.count ≤ bound) ↔
      page gfn = .absent := by
  have hbeyond : bound < pos + nextSegment len 0 := by
    unfold nextSegment
    split <;> omega
  rw [segments_of_pos (ne_of_gt (nextSegment_pos hlen (by decide)))]
  cases page gfn with
  | absent => simp
  | faulting through | mapped =>
    refine iff_of_false (fun h => ?_) (by simp)
    exact absurd (h _ mem_cons_self) (Nat.not_le_of_lt hbeyond)

lemma segments_le_iff {gpa : Nat} (hbound : bound < pageSize) :
    (∀ s ∈ (segmentsAt page gpa len).2, s.pos + s.count ≤ bound) ↔
      StaysWithin page gpa len bound := by
  have hoffset : gpa % pageSize < pageSize := mod_lt _ (by decide)
  by_cases hlen : len ≤ bound
  · refine iff_of_true (fun s hs => ?_) (.inl hlen)
    have hbound := (segments_bound hs).2
    omega
  have hfirst : nextSegment len (gpa % pageSize) ≤ bound ↔ pageSize - gpa % pageSize ≤ bound := by
    unfold nextSegment
    split <;> omega
  rw [StaysWithin, or_iff_right hlen, segmentsAt,
    segments_of_pos (ne_of_gt (nextSegment_pos (by omega) hoffset))]
  cases hpage : page (gpa / pageSize) with
  | absent => simp
  | faulting through => simp [hfirst]
  | mapped =>
    simp only [mem_cons, forall_eq_or_imp, zero_add, hfirst, reduceCtorEq, ne_eq,
      not_true_eq_false, false_or]
    refine and_congr_right fun hle => ?_
    -- the first page ends below `bound`, so the copy goes on into the second
    have hseg : nextSegment len (gpa % pageSize) = pageSize - gpa % pageSize := if_pos (by omega)
    obtain ⟨fuel, rfl⟩ : ∃ fuel, len = fuel + 1 := ⟨len - 1, by omega⟩
    exact second_segment (by omega) hbound (by omega)

def Mapped (page : Nat → PageKind) (gpa len : Nat) : Prop :=
  ∀ i, i < len → page ((gpa + i) / pageSize) = .mapped

section
variable {page : Nat → PageKind} {fuel gfn offset len pos : Nat}

lemma next_base (gfn : Nat) (hoffset : offset < pageSize) (h : nextSegment len offset < len) :
    (gfn + 1) * pageSize = gfn * pageSize + offset + nextSegment len offset := by
  have hseg : nextSegment len offset = pageSize - offset := by
    unfold nextSegment at *
    split at h
    · next hlt => exact if_pos hlt
    · exact absurd h (lt_irrefl _)
  rw [hseg, add_mul, one_mul]
  omega

lemma copy_rest {dst src src' : Region} {a b : Nat} (hle : nextSegment len offset ≤ len)
    (hb : nextSegment len offset < len → b = a + nextSegment len offset)
    (hsrc : nextSegment len offset < len → ∀ i, src' i = src (nextSegment len offset + i)) :
    copy (copy dst a (nextSegment len offset) src) b (len - nextSegment len offset) src' =
      copy dst a len src := by
  rcases hle.lt_or_eq with hlt | heq
  · rw [hb hlt, show src' = _ from funext (hsrc hlt), copy_copy, Nat.add_sub_cancel' hle]
  · rw [heq, Nat.sub_self, copy_zero]

lemma segments_mapped (hfuel : len < fuel) (hoffset : offset < pageSize)
    (hmapped : Mapped page (gfn * pageSize + offset) len) :
    (segments page fuel gfn offset len pos).1 = true ∧
    (∀ bytes dst, (segments page fuel gfn offset len pos).2.foldl (Segment.read bytes) dst =
      copy dst pos len fun i => bytes (gfn * pageSize + offset + i)) ∧
    ∀ src bytes, (segments page fuel gfn offset len pos).2.foldl (Segment.write src) bytes =
      copy bytes (gfn * pageSize + offset) len fun i => src (pos + i) := by
  induction fuel generalizing gfn offset len pos with
  | zero => exact absurd hfuel (not_lt_zero _)
  | succ fuel ih =>
    have hle := nextSegment_le len offset
    rcases Nat.eq_zero_or_pos len with hzero | hlen
    · subst hzero
      rw [segments_of_zero (Nat.le_zero.mp hle)]
      exact ⟨rfl, fun _ _ => (copy_zero _ _ _).symm, fun _ _ => (copy_zero _ _ _).symm⟩
    have hpos := nextSegment_pos hlen hoffset
    have hpage : page gfn = .mapped := by
      have hdiv : (gfn * pageSize + offset + 0) / pageSize = gfn := by
        unfold pageSize at *
        omega
      exact hdiv ▸ hmapped 0 hlen
    have hbase : nextSegment len offset < len → ∀ i, (gfn + 1) * pageSize + 0 + i =
        gfn * pageSize + offset + (nextSegment len offset + i) := fun hlt i => by
      rw [next_base gfn hoffset hlt]
      omega
    have hrest : Mapped page ((gfn + 1) * pageSize + 0) (len - nextSegment len offset) := by
      intro i hi
      rw [hbase (by omega)]
      exact hmapped _ (by omega)
    obtain ⟨hok, hread, hwrite⟩ := @ih (gfn + 1) 0 (len - nextSegment len offset)
      (pos + nextSegment len offset) (by omega) (by decide) hrest
    rw [segments_of_pos hpos.ne', hpage]
    refine ⟨hok, fun bytes dst => ?_, fun src bytes => ?_⟩
    · rw [foldl_cons, hread, Segment.read, copy_again]
      exact copy_rest hle (fun _ => rfl) fun hlt i => congrArg bytes (hbase hlt i)
    · rw [foldl_cons, hwrite, Segment.write]
      exact copy_rest hle (hbase · 0) fun _ i => congrArg src (add_assoc _ _ _)

lemma mapped_of_segments (hfuel : len < fuel) (hoffset : offset < pageSize)
    (h : (segments page fuel gfn offset len pos).1 = true) :
    Mapped page (gfn * pageSize + offset) len := by
  induction fuel generalizing gfn offset len pos with
  | zero => exact absurd hfuel (not_lt_zero _)
  | succ fuel ih =>
    intro i hi
    have hpos := nextSegment_pos (zero_lt_of_lt hi) hoffset
    rw [segments_of_pos hpos.ne'] at h
    cases hpage : page gfn with
    | absent | faulting through =>
      rw [hpage] at h
      cases h
    | mapped =>
      rw [hpage] at h
      have hrest := ih (by omega) (by decide) h
      by_cases hfirst : i < nextSegment len offset
      · have hdiv : (gfn * pageSize + offset + i) / pageSize = gfn := by
          unfold nextSegment pageSize at *
          split at hfirst <;> omega
        rwa [hdiv]
      have hbase := next_base gfn hoffset ((Nat.le_of_not_lt hfirst).trans_lt hi)
      have hi' := hrest (i - nextSegment len offset) (by omega)
      rwa [hbase, add_zero, add_assoc _ (nextSegment len offset),
        Nat.add_sub_cancel' (not_lt.mp hfirst)] at hi'

lemma segmentsAt_base (gpa : Nat) : gpa / pageSize * pageSize + gpa % pageSize = gpa :=
  div_add_mod' gpa pageSize

variable {g : Guest} {gpa : Nat}

lemma kvmReadGuest_mapped (h : Mapped g.readable gpa len) (data : Region) :
    kvmReadGuest g gpa len data = (true, copy data 0 len fun i => g.bytes (gpa + i)) := by
  obtain ⟨hok, hread, _⟩ := @segments_mapped g.readable (len + 1) (gpa / pageSize)
    (gpa % pageSize) len 0 len.lt_succ_self (mod_lt _ (by decide))
    ((segmentsAt_base gpa).symm ▸ h)
  rw [segmentsAt_base gpa] at hread
  rw [kvmReadGuest, segmentsAt, hok, hread]

lemma kvmWriteGuest_mapped (h : Mapped g.writable gpa len) (data : Region) :
    kvmWriteGuest g gpa len data = (true, { g with bytes := copy g.bytes gpa len data }) := by
  obtain ⟨hok, _, hwrite⟩ := @segments_mapped g.writable (len + 1) (gpa / pageSize)
    (gpa % pageSize) len 0 len.lt_succ_self (mod_lt _ (by decide))
    ((segmentsAt_base gpa).symm ▸ h)
  rw [segmentsAt_base gpa] at hwrite
  simp only [zero_add] at hwrite
  rw [kvmWriteGuest, segmentsAt, hok, hwrite]

lemma kvmReadGuest_ok_iff {data : Region} :
    (kvmReadGuest g gpa len data).1 = true ↔ Mapped g.readable gpa len := by
  refine ⟨fun h => ?_, fun h => by rw [kvmReadGuest_mapped h]⟩
  have hmapped := mapped_of_segments len.lt_succ_self (mod_lt _ (by decide)) h
  rwa [segmentsAt_base] at hmapped
end

end QemuVmi.KvmCrypto
