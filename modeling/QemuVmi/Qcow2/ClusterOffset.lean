import QemuVmi.Lib.BitWords

/-!
# Runs of clusters

`qcow2_get_cluster_offset` finds the cluster of a guest offset, and how many sectors from there on can
be read in one go. No number leaves its C type: an L1 entry describes at most `2 ^ 30` sectors.

Results:
1. `follows_of_contiguous`: an entry that `count_contiguous_clusters` counts has the type of the
   first one, and its cluster is as far behind in the file.
2. `getClusterOffset_run`: the sectors of a run, looked up one by one.
-/

namespace QemuVmi.Qcow2

open BitVec

def oflagCompressed : BitVec 64 := 1#64 <<< 62
def oflagZero : BitVec 64 := 1#64 <<< 0

/-- `L1E_OFFSET_MASK` and `L2E_OFFSET_MASK`. -/
def offsetMask : BitVec 64 := 0x00fffffffffffe00#64
def compressedOffsetSizeMask : BitVec 64 := 0x3fffffffffffffff#64

inductive ClusterType
  | unallocated
  | normal
  | compressed
  | zero
deriving DecidableEq

/-- `qcow2_get_cluster_type`. -/
def getClusterType (entry : BitVec 64) : ClusterType :=
  if entry &&& oflagCompressed ≠ 0#64 then .compressed
  else if entry &&& oflagZero ≠ 0#64 then .zero
  else if entry &&& offsetMask = 0#64 then .unallocated
  else .normal

structure Mapping where
  clusterBits : Nat
  minClusterBits : 9 ≤ clusterBits
  maxClusterBits : clusterBits ≤ 21
  qcowVersion : Nat
  l1Size : Nat
  l1Table : Nat → BitVec 64
  l2Tables : BitVec 64 → Nat → BitVec 64

/-- The loops that count: the first `i` below `n` at which `p` fails. -/
def leading (p : Nat → Bool) (n : Nat) : Nat :=
  Nat.find (⟨n, .inl rfl⟩ : ∃ i, i = n ∨ p i = false)

/-- Why there is no result: `-EIO`, or the assertion of `count_contiguous_clusters`. -/
inductive LookupError
  | io
  | assertion

/-- `count_contiguous_clusters`. -/
def countContiguous (n clusterSize : Nat) (table : Nat → BitVec 64) (stopFlags : BitVec 64) :
    Except LookupError Nat :=
  let mask := stopFlags ||| offsetMask ||| oflagCompressed
  let offset := table 0 &&& mask
  if offset = 0#64 then .ok 0
  else if getClusterType (table 0) = .compressed then .error .assertion
  else .ok (leading (fun i => offset + BitVec.ofNat 64 (i * clusterSize) == table i &&& mask) n)

/-- `count_contiguous_free_clusters`. -/
def countContiguousFree (n : Nat) (table : Nat → BitVec 64) : Nat :=
  leading (fun i => getClusterType (table i) == .unallocated) n

namespace Mapping

variable (m : Mapping)

def clusterSize : Nat := 2 ^ m.clusterBits
def clusterSectors : Nat := 2 ^ (m.clusterBits - 9)
def l2Size : Nat := 2 ^ (m.clusterBits - 3)

def l1Bytes : Nat := 2 ^ (m.clusterBits - 3 + m.clusterBits)
def l1Sectors : Nat := m.clusterSectors * m.l2Size

def table (offset : Nat) : Option (Nat → BitVec 64) :=
  let l1Index := offset / m.l1Bytes
  if l1Index ≥ m.l1Size then none
  else
    let l2Offset := m.l1Table l1Index &&& offsetMask
    if l2Offset = 0#64 then none
    else some fun i => m.l2Tables l2Offset (offset / m.clusterSize % m.l2Size + i)

/-- `qcow2_get_cluster_offset`: the type, `*cluster_offset` and `*num`. -/
def getClusterOffset (offset num : Nat) : Except LookupError (ClusterType × BitVec 64 × Nat) :=
  let index := offset / 512 % m.clusterSectors
  let available := (m.l1Bytes - offset % m.l1Bytes) / 512 + index
  let needed := min (num + index) available
  match m.table offset with
  | none => .ok (.unallocated, 0#64, min available needed - index)
  | some table =>
    let n := (needed * 512 + m.clusterSize - 1) / m.clusterSize
    let out := fun c => min (c * m.clusterSectors) needed - index
    match getClusterType (table 0) with
    | .compressed => .ok (.compressed, table 0 &&& compressedOffsetSizeMask, out 1)
    | .zero =>
      if m.qcowVersion < 3 then .error .io
      else (countContiguous n m.clusterSize table oflagZero).map fun c => (.zero, 0#64, out c)
    | .unallocated => .ok (.unallocated, 0#64, out (countContiguousFree n table))
    | .normal =>
      (countContiguous n m.clusterSize table oflagZero).map fun c =>
        (.normal, table 0 &&& offsetMask, out c)

def own (sector : Nat) : ClusterType × BitVec 64 :=
  match m.table (512 * sector) with
  | none => (.unallocated, 0#64)
  | some table =>
    (getClusterType (table 0), match getClusterType (table 0) with
      | .compressed => table 0 &&& compressedOffsetSizeMask
      | .normal => table 0 &&& offsetMask
      | _ => 0#64)

end Mapping

section
variable {first entry : BitVec 64} {d : Nat}

/-- The entry of a cluster of the same type; a normal one is `d` bytes behind. -/
def Follows (first entry : BitVec 64) (d : Nat) : Prop :=
  getClusterType entry = getClusterType first ∧ (getClusterType first = .normal →
    (entry &&& offsetMask).toNat = (first &&& offsetMask).toNat + d)

def entryMask : BitVec 64 := oflagZero ||| offsetMask ||| oflagCompressed

lemma getClusterType_eq_zero : getClusterType entry = .zero ↔
    entry &&& oflagCompressed = 0#64 ∧ entry &&& oflagZero ≠ 0#64 := by
  unfold getClusterType
  split_ifs <;> simp_all

lemma getClusterType_eq_normal : getClusterType entry = .normal ↔
    entry &&& oflagCompressed = 0#64 ∧ entry &&& oflagZero = 0#64 ∧ entry &&& offsetMask ≠ 0#64 := by
  unfold getClusterType
  split_ifs <;> simp_all

lemma and_entryMask (h : entry &&& oflagCompressed = 0#64) :
    entry &&& entryMask = entry &&& oflagZero ||| entry &&& offsetMask := by
  rw [entryMask, and_or_distrib_left, h, or_zero, and_or_distrib_left]

lemma getLsbD_of_entryMask {k : Nat} (hk : entryMask.getLsbD k = true) :
    entry.getLsbD k = (entry &&& entryMask).toNat.testBit k := by
  rw [← getLsbD, getLsbD_and, hk, Bool.and_true]

lemma follows_of_contiguous (hd : 512 ∣ d) (hlt : d < 2 ^ 41)
    (htype : getClusterType first = .normal ∨ getClusterType first = .zero)
    (h : (first &&& entryMask) + BitVec.ofNat 64 d = entry &&& entryMask) :
    Follows first entry d := by
  have hfirst : first &&& oflagCompressed = 0#64 :=
    htype.elim (fun h => (getClusterType_eq_normal.mp h).1) fun h => (getClusterType_eq_zero.mp h).1
  have hle : (first &&& entryMask).toNat < 2 ^ 56 := by
    rw [and_entryMask hfirst, ← and_or_distrib_left, toNat_and]
    exact Nat.and_le_right.trans_lt (by decide)
  -- The sum does not reach the compressed flag, and does not change the zero flag.
  have hsum : (entry &&& entryMask).toNat = (first &&& entryMask).toNat + d := by
    rw [← h, toNat_add, toNat_ofNat]
    omega
  have hentry : entry &&& oflagCompressed = 0#64 := by
    refine not_not.mp (mt (BitWords.and_one_shiftLeft_ne_zero (by decide)).mp ?_)
    rw [getLsbD_of_entryMask (by decide), hsum, Nat.testBit_lt_two_pow (by omega)]
    decide
  have hzero : entry &&& oflagZero ≠ 0#64 ↔ first &&& oflagZero ≠ 0#64 := by
    rw [oflagZero, BitWords.and_one_shiftLeft_ne_zero (by decide),
      BitWords.and_one_shiftLeft_ne_zero (by decide), getLsbD_of_entryMask (by decide),
      getLsbD_of_entryMask (by decide), hsum, Nat.testBit_zero, Nat.testBit_zero,
      decide_eq_true_eq, decide_eq_true_eq]
    omega
  rcases htype with hnormal | hflag
  · obtain ⟨-, hflag, hoffset⟩ := getClusterType_eq_normal.mp hnormal
    have hplain := not_not.mp (mt hzero.mp (not_not.mpr hflag))
    rw [and_entryMask hfirst, and_entryMask hentry, hflag, hplain, zero_or, zero_or] at hsum
    refine ⟨?_, fun _ => hsum⟩
    rw [hnormal, getClusterType_eq_normal]
    refine ⟨hentry, hplain, fun hnone => hoffset (eq_of_toNat_eq ?_)⟩
    rw [hnone] at hsum
    exact (Nat.eq_zero_of_add_eq_zero hsum.symm).1
  · rw [Follows, hflag]
    exact ⟨getClusterType_eq_zero.mpr ⟨hentry, hzero.mpr (getClusterType_eq_zero.mp hflag).2⟩, nofun⟩
end

section
variable {p : Nat → Bool} {n i : Nat}

lemma of_lt_leading (h : i < leading p n) : p i = true :=
  Bool.of_not_eq_false fun hp => Nat.find_min _ h (.inr hp)

lemma leading_pos (hn : 0 < n) (h : p 0 = true) : 0 < leading p n :=
  (Nat.find_pos _).mpr (by simp [h, hn.ne])

lemma countContiguous_spec {table : Nat → BitVec 64} {size : Nat} (hn : 0 < n) (hsize : 512 ∣ size)
    (htype : getClusterType (table 0) = .normal ∨ getClusterType (table 0) = .zero) :
    ∃ c, countContiguous n size table oflagZero = .ok c ∧ 0 < c ∧
      ∀ i < c, i * size < 2 ^ 41 → Follows (table 0) (table i) (i * size) := by
  have hne : ¬ table 0 &&& entryMask = 0#64 := by
    intro hnone
    rcases htype with h | h
    · obtain ⟨hfirst, -, hoffset⟩ := getClusterType_eq_normal.mp h
      exact hoffset (or_eq_zero_iff.mp (and_entryMask hfirst ▸ hnone)).2
    · obtain ⟨hfirst, hflag⟩ := getClusterType_eq_zero.mp h
      exact hflag (or_eq_zero_iff.mp (and_entryMask hfirst ▸ hnone)).1
  have hcompressed : getClusterType (table 0) ≠ .compressed := by
    rcases htype with h | h <;> simp [h]
  refine ⟨_, (if_neg hne).trans (if_neg hcompressed), leading_pos hn (by simp), fun i hi hlt => ?_⟩
  exact follows_of_contiguous (Dvd.dvd.mul_left hsize i) hlt htype
    (beq_iff_eq.mp (of_lt_leading hi))
end

namespace Mapping

variable {m : Mapping} {o k num : Nat}

lemma clusterSize_eq : m.clusterSize = 512 * m.clusterSectors := by
  have hbits := m.minClusterBits
  rw [clusterSize, clusterSectors, show 512 = 2 ^ 9 from rfl, ← pow_add, Nat.add_sub_cancel' hbits]

lemma l1Bytes_eq : m.l1Bytes = 512 * m.l1Sectors := by
  rw [l1Bytes, add_comm, pow_add, ← clusterSize, ← l2Size, clusterSize_eq, mul_assoc]
  rfl

lemma clusterSectors_pos (m : Mapping) : 0 < m.clusterSectors := Nat.two_pow_pos _

lemma mod_l1Sectors_lt (m : Mapping) (o : Nat) : o % m.l1Sectors < m.l1Sectors :=
  Nat.mod_lt _ (Nat.mul_pos m.clusterSectors_pos (Nat.two_pow_pos _))

lemma index_add {S L : Nat} (hS : 0 < S) (h : o % (S * L) + k < S * L) :
    (o + k) / (S * L) = o / (S * L) ∧ (o + k) / S % L = o / S % L + (o % S + k) / S := by
  have hk : k < S * L := by omega
  have hdiv : (o + k) / S = o / S + (o % S + k) / S := by
    rw [← Nat.mul_add_div hS, ← add_assoc, Nat.div_add_mod]
  have hlt : o / S % L + (o % S + k) / S < L := by
    rw [← Nat.mul_add_div hS, Nat.div_lt_iff_lt_mul hS, mul_comm L]
    rw [Nat.mod_mul] at h
    omega
  have hmod := Nat.mod_eq_of_lt (lt_of_le_of_lt (Nat.le_add_left _ _) hlt)
  rw [Nat.add_div_eq_of_add_mod_lt (by rwa [Nat.mod_eq_of_lt hk]), Nat.div_eq_of_lt hk, hdiv,
    Nat.add_mod_of_add_mod_lt (by rwa [hmod]), hmod]
  exact ⟨rfl, rfl⟩

lemma table_add (h : o % m.l1Sectors + k < m.l1Sectors) :
    m.table (512 * (o + k)) = (m.table (512 * o)).map fun table i =>
      table ((o % m.clusterSectors + k) / m.clusterSectors + i) := by
  obtain ⟨hl1, hl2⟩ := index_add m.clusterSectors_pos h
  simp only [table, l1Bytes_eq, l1Sectors, clusterSize_eq,
    Nat.mul_div_mul_left _ _ (by decide : 0 < 512), hl1, hl2, add_assoc]
  split_ifs <;> rfl

lemma available_eq : (m.l1Bytes - 512 * o % m.l1Bytes) / 512 = m.l1Sectors - o % m.l1Sectors := by
  rw [l1Bytes_eq, Nat.mul_mod_mul_left, ← Nat.mul_sub, Nat.mul_div_cancel_left _ (by decide)]

lemma getClusterOffset_of_table {table : Nat → BitVec 64} (hnum : 0 < num)
    (htable : m.table (512 * o) = some table) (hversion : (m.own o).1 = .zero → 3 ≤ m.qcowVersion) :
    ∃ c, 0 < c ∧ m.getClusterOffset (512 * o) num = .ok ((m.own o).1, (m.own o).2,
        min (c * m.clusterSectors) (min (num + o % m.clusterSectors)
          (m.l1Sectors - o % m.l1Sectors + o % m.clusterSectors)) - o % m.clusterSectors) ∧
      ∀ i < c, i * m.clusterSize < 2 ^ 41 → Follows (table 0) (table i) (i * m.clusterSize) := by
  simp only [getClusterOffset, available_eq, own, htable,
    Nat.mul_div_cancel_left o (by decide : 0 < 512)] at hversion ⊢
  have hlt := m.mod_l1Sectors_lt o
  generalize hneeded : min (num + _) _ = needed
  have hn : 0 < (needed * 512 + m.clusterSize - 1) / m.clusterSize :=
    Nat.div_pos (by omega) (Nat.two_pow_pos _)
  generalize (needed * 512 + m.clusterSize - 1) / m.clusterSize = n at hn ⊢
  have hspec := @countContiguous_spec n table m.clusterSize hn ⟨_, clusterSize_eq⟩
  cases htype : getClusterType (table 0) with
  | compressed =>
    refine ⟨1, one_pos, rfl, fun i hi _ => ⟨?_, by simp [htype]⟩⟩
    rw [Nat.lt_one_iff.mp hi]
  | unallocated =>
    refine ⟨countContiguousFree n table, leading_pos hn (beq_iff_eq.mpr htype), rfl,
      fun i hi _ => ⟨?_, by simp [htype]⟩⟩
    rw [htype]
    exact beq_iff_eq.mp (of_lt_leading hi)
  | zero =>
    obtain ⟨c, hc, hpos, hrun⟩ := hspec (.inr htype)
    exact ⟨c, hpos, by simp [not_lt.mpr (hversion htype), hc, Except.map], hrun⟩
  | normal =>
    obtain ⟨c, hc, hpos, hrun⟩ := hspec (.inl htype)
    exact ⟨c, hpos, by simp [hc, Except.map], hrun⟩

lemma getClusterOffset_eq (hnum : 0 < num) (hversion : (m.own o).1 = .zero → 3 ≤ m.qcowVersion) :
    ∃ n, m.getClusterOffset (512 * o) num = .ok ((m.own o).1, (m.own o).2, n) ∧
      0 < n ∧ n ≤ num ∧ ∀ k < n, (m.own (o + k)).1 = (m.own o).1 ∧ ((m.own o).1 = .normal →
        (m.own (o + k)).2.toNat + 512 * ((o + k) % m.clusterSectors) =
          (m.own o).2.toNat + 512 * (o % m.clusterSectors + k)) := by
  have hlt := m.mod_l1Sectors_lt o
  have hindex := Nat.mod_lt o m.clusterSectors_pos
  cases htable : m.table (512 * o) with
  | none =>
    simp only [getClusterOffset, available_eq, own, htable,
      Nat.mul_div_cancel_left o (by decide : 0 < 512)]
    refine ⟨_, rfl, by omega, by omega, fun k hk => ?_⟩
    rw [table_add (by omega), htable]
    exact ⟨rfl, nofun⟩
  | some table =>
    obtain ⟨c, hpos, heq, hrun⟩ := getClusterOffset_of_table hnum htable hversion
    have hle := Nat.le_mul_of_pos_left m.clusterSectors hpos
    refine ⟨_, heq, by omega, by omega, fun k hk => ?_⟩
    have hin : o % m.l1Sectors + k < m.l1Sectors := by omega
    have hcount : (o % m.clusterSectors + k) / m.clusterSectors < c :=
      (Nat.div_lt_iff_lt_mul m.clusterSectors_pos).mpr (by omega)
    have hdiv := Nat.div_add_mod (o % m.clusterSectors + k) m.clusterSectors
    have hsmall : (o % m.clusterSectors + k) / m.clusterSectors * m.clusterSize < 2 ^ 41 := by
      have hbits := m.maxClusterBits
      have hbytes : m.l1Bytes ≤ 2 ^ 39 := Nat.pow_le_pow_right (by decide) (by omega)
      have hmod := @Nat.mod_mul m.clusterSectors m.l2Size o
      rw [l1Bytes_eq] at hbytes
      rw [clusterSize_eq, mul_left_comm, mul_comm _ m.clusterSectors]
      rw [← l1Sectors] at hmod
      omega
    obtain ⟨htype, hhost⟩ := hrun _ hcount hsmall
    simp only [own, table_add hin, htable, Option.map_some, add_zero, htype]
    refine ⟨trivial, fun hnormal => ?_⟩
    rw [clusterSize_eq] at hhost
    simp only [hnormal, hhost hnormal]
    rw [Nat.mod_add_mod] at hdiv
    rw [mul_left_comm, mul_comm _ m.clusterSectors]
    omega

variable (m) in
theorem getClusterOffset_run {offset : Nat} (haligned : 512 ∣ offset) (hnum : 1 ≤ num) :
    if (m.own (offset / 512)).1 = .zero ∧ m.qcowVersion < 3 then
      m.getClusterOffset offset num = .error .io
    else ∃ type host n, m.getClusterOffset offset num = .ok (type, host, n) ∧ 1 ≤ n ∧ n ≤ num ∧
      ∀ k < n, ∃ host', m.getClusterOffset (offset + 512 * k) 1 = .ok (type, host', 1) ∧
        (type = .normal → host'.toNat + (offset + 512 * k) % m.clusterSize =
          host.toNat + (offset % m.clusterSize + 512 * k)) := by
  obtain ⟨o, rfl⟩ := haligned
  rw [Nat.mul_div_cancel_left o (by decide)]
  split
  next hzero =>
    cases htable : m.table (512 * o) with
    | none => simp [own, htable] at hzero
    | some table =>
      simp only [own, htable] at hzero
      simp [getClusterOffset, htable, hzero]
  next hversion =>
    have hversion : (m.own o).1 = .zero → 3 ≤ m.qcowVersion := by simpa using hversion
    obtain ⟨n, heq, hpos, hle, hrun⟩ := getClusterOffset_eq hnum hversion
    refine ⟨_, _, n, heq, hpos, hle, fun k hk => ?_⟩
    obtain ⟨htype, hhost⟩ := hrun k hk
    rw [← Nat.mul_add, clusterSize_eq, Nat.mul_mod_mul_left, Nat.mul_mod_mul_left, ← Nat.mul_add]
    obtain ⟨_, heq, hpos, hle, -⟩ := getClusterOffset_eq one_pos (htype ▸ hversion)
    rw [heq, htype, le_antisymm hle hpos]
    exact ⟨_, rfl, hhost⟩

/-- An L2 table whose entries are all `entry`. -/
def constant (version : Nat) (entry : BitVec 64) : Mapping :=
  ⟨16, by decide, by decide, version, 1, fun _ => 0x10000, fun _ _ => entry⟩

theorem getClusterOffset_run_zero : ∃ type host n,
    (constant 3 1).getClusterOffset 1024 300 = .ok (type, host, n) ∧ 1 ≤ n ∧ n ≤ 300 := by
  have h := getClusterOffset_run (constant 3 1) (by decide : 512 ∣ 1024) (by decide : 1 ≤ 300)
  rw [if_neg (by decide)] at h
  obtain ⟨type, host, n, heq, hpos, hle, -⟩ := h
  exact ⟨type, host, n, heq, hpos, hle⟩

/-- The zero flag in an image of version 2. -/
theorem getClusterOffset_io : (constant 2 1).getClusterOffset 0 1 = .error .io := rfl

end Mapping

end QemuVmi.Qcow2
