import QemuVmi.Lib.UpdateSum
import QemuVmi.Qcow2.Snapshot

/-!
# References to clusters

The references to a cluster: from the header and the metadata tables, and along the paths through
the L1 tables. An image is `Consistent` if the counts are the numbers of references and
`QCOW_OFLAG_COPIED` stands where the count is 1. It is `Unshared` if no cluster has two uses in
the metadata and no pointer of an L1 table shares its cluster with the metadata or with another
reference from the same L1 table.

`Inv` is both while an operation is under way: clusters are held that no table points at yet, and
references are gone that are still counted.
-/

namespace QemuVmi.Qcow2

open Finset List

/-- The references of a range of `n` clusters. -/
def rangeRefs (start n c : Nat) : Nat := if start ≤ c ∧ c < start + n then 1 else 0

def L2Entry.cluster : L2Entry → Option Nat
  | .normal cluster _ | .zeroAlloc cluster _ => some cluster
  | .unallocated | .zeroPlain | .compressed _ _ => none

def L2Entry.copied : L2Entry → Bool
  | .normal _ copied | .zeroAlloc _ copied => copied
  | .unallocated | .zeroPlain | .compressed _ _ => false

structure L1Table where
  entries : Nat → Option L1Entry
  size : Nat

namespace Image

variable (img : Image)

def entryRefs : L2Entry → Nat → Nat
  | .unallocated, _ | .zeroPlain, _ => 0
  | .normal cluster _, c | .zeroAlloc cluster _, c => rangeRefs cluster 1 c
  | .compressed offset sectors, c =>
    rangeRefs (img.compressedRange offset sectors).1 (img.compressedRange offset sectors).2 c

def l2Refs (table c : Nat) : Nat :=
  ∑ j ∈ range img.l2Size, img.entryRefs (img.l2Tables table j) c

def l1EntryRefs : Option L1Entry → Nat → Nat
  | none, _ => 0
  | some e, c => rangeRefs e.table 1 c + img.l2Refs e.table c

def treeRefs (l1 : L1Table) (c : Nat) : Nat :=
  ∑ i ∈ range l1.size, img.l1EntryRefs (l1.entries i) c

def activeL1 : L1Table := ⟨img.l1Table, img.l1Size⟩

def snapshotL1 (sn : Snapshot) : L1Table := ⟨img.l1Disk sn.l1TableOffset, sn.l1Size⟩

def l1Tables : List L1Table := img.activeL1 :: img.snapshots.map img.snapshotL1

def blockRefs (c : Nat) : Nat := if c = 0 then 0 else img.refcountTable.count c

/-- The references from the header, the refcount table and the snapshot table, and the clusters
that these themselves are in. -/
def metaRefs (c : Nat) : Nat :=
  rangeRefs 0 1 c +
  rangeRefs img.refcountTableOffset (img.sizeToClusters (img.refcountTable.length * 8)) c +
  img.blockRefs c +
  rangeRefs img.snapshotsOffset (img.sizeToClusters img.snapshotsSize) c +
  rangeRefs img.l1TableOffset (img.l1Clusters img.l1Size) c +
  (img.snapshots.map fun sn => rangeRefs sn.l1TableOffset (img.l1Clusters sn.l1Size) c).sum

def refs (c : Nat) : Nat :=
  img.metaRefs c + (img.l1Tables.map fun l1 => img.treeRefs l1 c).sum

def Points (l1 : L1Table) (c : Nat) : Prop :=
  ∃ i < l1.size, ∃ e, l1.entries i = some e ∧
    (e.table = c ∨ ∃ j < img.l2Size, (img.l2Tables e.table j).cluster = some c)

/-- `QCOW_OFLAG_COPIED` is set in the entries whose cluster has a count of 1. -/
def Copied : Prop :=
  ∀ i < img.l1Size, ∀ e, img.l1Table i = some e → (e.copied = true ↔ img.getRefcount e.table = 1) ∧
    ∀ j < img.l2Size, ∀ c, (img.l2Tables e.table j).cluster = some c →
      ((img.l2Tables e.table j).copied = true ↔ img.getRefcount c = 1)

def Synced : Prop := ∀ i < img.l1Size, img.l1Disk img.l1TableOffset i = img.l1Table i

structure Consistent : Prop where
  counts : ∀ c, img.getRefcount c = img.refs c
  copied : img.Copied
  synced : img.Synced

/-- No cluster is used twice by the metadata, and the clusters that an L1 table and its L2 tables
point at are reached once from there and are no metadata. -/
structure Unshared : Prop where
  single : ∀ c, img.metaRefs c ≤ 1
  once : ∀ l1 ∈ img.l1Tables, ∀ c, img.Points l1 c → img.metaRefs c + img.treeRefs l1 c ≤ 1

/-- The invariant inside of an operation: `held` are allocated clusters that nothing refers to yet,
`freed` are references that are gone and still counted, and `extra` is counted besides. -/
structure Inv (extra held freed : Nat → Nat) : Prop where
  counts : ∀ c, img.getRefcount c = img.refs c + extra c + held c + freed c
  single : ∀ c, img.metaRefs c ≤ 1
  once : ∀ l1 ∈ img.l1Tables, ∀ c, img.Points l1 c → img.metaRefs c + img.treeRefs l1 c ≤ 1
  fresh : ∀ c, held c ≠ 0 → img.getRefcount c = 1
  gone : ∀ c, freed c ≠ 0 → ¬ img.Points img.activeL1 c
  copied : img.Copied
  synced : img.Synced

end Image

lemma rangeRefs_le_one (start n c : Nat) : rangeRefs start n c ≤ 1 := by
  unfold rangeRefs
  split <;> omega

variable {c i start : Nat}

lemma rangeRefs_self {n : Nat} (hn : 0 < n) : rangeRefs start n start = 1 :=
  if_pos ⟨le_refl start, Nat.lt_add_of_pos_right hn⟩

lemma rangeRefs_zero (start : Nat) : rangeRefs start 0 = 0 :=
  funext fun _ => if_neg fun h => absurd h.2 (not_lt.mpr h.1)

lemma rangeRefs_one_eq_zero (h : start ≠ c) : rangeRefs start 1 c = 0 :=
  if_neg fun hc => h (by omega)

lemma rangeRefs_succ (start n : Nat) :
    rangeRefs start (n + 1) = rangeRefs start 1 + rangeRefs (start + 1) n := by
  funext c
  rw [Pi.add_apply]
  unfold rangeRefs
  by_cases hc : start ≤ c ∧ c < start + (n + 1)
  · rw [if_pos hc]
    by_cases hfirst : c = start
    · rw [if_pos (by omega), if_neg (by omega)]
    · rw [if_neg (by omega), if_pos (by omega)]
  · rw [if_neg hc, if_neg (by omega), if_neg (by omega)]

namespace Image

variable {img img' : Image} {extra held freed held' freed' : Nat → Nat} {l1 : L1Table} {c : Nat}

lemma entryRefs_of_cluster {e : L2Entry} (h : e.cluster = some c) (d : Nat) :
    img.entryRefs e d = rangeRefs c 1 d := by
  cases e <;> cases h <;> rfl

lemma entryRefs_congr (h : img'.clusterBits = img.clusterBits) (e : L2Entry) (c : Nat) :
    img'.entryRefs e c = img.entryRefs e c := by
  cases e with
  | compressed offset sectors => simp only [entryRefs, compressedRange, clusterSize, h]
  | unallocated | zeroPlain | normal cluster copied | zeroAlloc cluster copied => rfl

lemma l1EntryRefs_le (hi : i < l1.size) (c : Nat) :
    img.l1EntryRefs (l1.entries i) c ≤ img.treeRefs l1 c :=
  UpdateSum.le_sum hi fun i => img.l1EntryRefs (l1.entries i) c

lemma Points.treeRefs_pos (h : img.Points l1 c) : 1 ≤ img.treeRefs l1 c := by
  obtain ⟨i, hi, e, he, hc⟩ := h
  have hle : img.l1EntryRefs (l1.entries i) c ≤ img.treeRefs l1 c := l1EntryRefs_le hi c
  rw [he] at hle
  simp only [l1EntryRefs] at hle
  rcases hc with rfl | ⟨j, hj, hc⟩
  · rw [rangeRefs_self one_pos] at hle
    omega
  have hentry : img.entryRefs (img.l2Tables e.table j) c ≤ img.l2Refs e.table c :=
    UpdateSum.le_sum hj fun j => img.entryRefs (img.l2Tables e.table j) c
  rw [entryRefs_of_cluster hc, rangeRefs_self one_pos] at hentry
  omega

lemma refs_eq (c : Nat) : img.refs c = img.metaRefs c + img.treeRefs img.activeL1 c +
    (img.snapshots.map fun sn => img.treeRefs (img.snapshotL1 sn) c).sum := by
  rw [refs, l1Tables, List.map_cons, List.sum_cons, List.map_map]
  exact (Nat.add_assoc _ _ _).symm

structure SameTree (img : Image) (l1 : L1Table) (img' : Image) (l1' : L1Table) : Prop where
  refs : ∀ c, img'.treeRefs l1' c = img.treeRefs l1 c
  points : ∀ c, img'.Points l1' c → img.Points l1 c

lemma SameTree.trans {img'' : Image} {l1' l1'' : L1Table} (h : SameTree img l1 img' l1')
    (h' : SameTree img' l1' img'' l1'') : SameTree img l1 img'' l1'' :=
  ⟨fun c => (h'.refs c).trans (h.refs c), fun c hc => h.points c (h'.points c hc)⟩

lemma SameTree.of_entries {l1' : L1Table} (hbits : img'.clusterBits = img.clusterBits)
    (hl2 : img'.l2Tables = img.l2Tables) (hsize : l1'.size = l1.size)
    (hentries : ∀ i < l1.size, l1'.entries i = l1.entries i) : SameTree img l1 img' l1' := by
  have hl2Size : img'.l2Size = img.l2Size := by rw [l2Size, l2Size, hbits]
  constructor
  · intro c
    rw [treeRefs, treeRefs, hsize]
    refine sum_congr rfl fun i hi => ?_
    rw [hentries i (Finset.mem_range.mp hi)]
    cases l1.entries i with
    | none => rfl
    | some e =>
      rw [l1EntryRefs, l1EntryRefs, l2Refs, l2Refs, hl2Size, hl2]
      exact congrArg _ (sum_congr rfl fun j _ => entryRefs_congr hbits _ c)
  · rintro c ⟨i, hi, e, he, hc⟩
    rw [hsize] at hi
    rw [hentries i hi] at he
    rw [hl2, hl2Size] at hc
    exact ⟨i, hi, e, he, hc⟩

lemma sum_snapshotL1
    (h : ∀ sn ∈ img.snapshots, SameTree img (img.snapshotL1 sn) img' (img'.snapshotL1 sn)) (c : Nat) :
    (img.snapshots.map fun sn => img'.treeRefs (img'.snapshotL1 sn) c).sum =
      (img.snapshots.map fun sn => img.treeRefs (img.snapshotL1 sn) c).sum :=
  congrArg sum (map_congr_left fun sn hsn => (h sn hsn).refs c)

lemma treeRefs_le_refs {sn : Snapshot} (hsn : sn ∈ img.snapshots) (c : Nat) :
    img.metaRefs c + img.treeRefs img.activeL1 c + img.treeRefs (img.snapshotL1 sn) c ≤
      img.refs c := by
  rw [refs_eq]
  refine Nat.add_le_add_left ?_ _
  exact le_sum_of_mem (mem_map_of_mem (f := fun sn => img.treeRefs (img.snapshotL1 sn) c) hsn)

lemma treeRefs_eq_zero_of_refs (h : img.refs c = 0) (hl1 : l1 ∈ img.l1Tables) :
    img.treeRefs l1 c = 0 := by
  have hle := le_sum_of_mem (mem_map_of_mem (f := fun l1 => img.treeRefs l1 c) hl1)
  rw [refs] at h
  omega

lemma inv_zero_iff : img.Inv 0 0 0 ↔ img.Consistent ∧ img.Unshared := by
  constructor
  · intro h
    exact ⟨⟨h.counts, h.copied, h.synced⟩, ⟨h.single, h.once⟩⟩
  · rintro ⟨hcon, hun⟩
    exact ⟨hcon.counts, hun.single, hun.once, fun c hc => absurd rfl hc, fun c hc => absurd rfl hc,
      hcon.copied, hcon.synced⟩

lemma not_points_of_refs (h : img.refs c = 0) (hl1 : l1 ∈ img.l1Tables) : ¬ img.Points l1 c := by
  intro hc
  have hzero := treeRefs_eq_zero_of_refs h hl1
  have hpos := hc.treeRefs_pos
  omega

variable (h : img.Inv extra held freed)

include h in
lemma Inv.of_free (hc : img.getRefcount c = 0) : img.refs c = 0 := by
  have hcounts := h.counts c
  omega

include h in
lemma Inv.of_held (hc : held c ≠ 0) : img.refs c = 0 ∧ held c = 1 ∧ freed c = 0 := by
  have hcounts := h.counts c
  have hfresh := h.fresh c hc
  omega

include h in
/-- An edit of the metadata and of the active L1 table. The trees of the snapshots stay; what the
metadata uses in addition had no reference; what the active L1 table points at stays unshared. -/
lemma Inv.step (hcounts : ∀ c, img'.getRefcount c +
        (img.metaRefs c + img.treeRefs img.activeL1 c + held c + freed c) =
      img.getRefcount c + (img'.metaRefs c + img'.treeRefs img'.activeL1 c + held' c + freed' c))
    (hsnapshots : img'.snapshots = img.snapshots)
    (htrees : ∀ sn ∈ img.snapshots, SameTree img (img.snapshotL1 sn) img' (img'.snapshotL1 sn))
    (hmeta : ∀ c, img'.metaRefs c ≤ img.metaRefs c ∨ img'.metaRefs c ≤ 1 ∧ img.refs c = 0)
    (honce : ∀ c, img'.Points img'.activeL1 c → img'.metaRefs c + img'.treeRefs img'.activeL1 c ≤ 1)
    (hfresh : ∀ c, held' c ≠ 0 → img'.getRefcount c = 1)
    (hgone : ∀ c, freed' c ≠ 0 → ¬ img'.Points img'.activeL1 c)
    (hcopied : img'.Copied) (hsynced : img'.Synced) : img'.Inv extra held' freed' where
  counts c := by
    have hold := h.counts c
    have hnew := hcounts c
    rw [refs_eq] at hold
    rw [refs_eq, hsnapshots, sum_snapshotL1 htrees]
    omega
  single c := by
    have hsingle := h.single c
    rcases hmeta c with hle | ⟨hle, _⟩ <;> omega
  once l1 hl1 c hc := by
    rw [l1Tables, hsnapshots] at hl1
    rcases mem_cons.mp hl1 with rfl | hl1
    · exact honce c hc
    obtain ⟨sn, hsn, rfl⟩ := mem_map.mp hl1
    have hmem : img.snapshotL1 sn ∈ img.l1Tables :=
      mem_cons_of_mem _ (mem_map_of_mem hsn)
    have hpoints := (htrees sn hsn).points c hc
    rw [(htrees sn hsn).refs c]
    rcases hmeta c with hle | ⟨_, hrefs⟩
    · have honce := h.once _ hmem c hpoints
      omega
    · exact absurd hpoints (not_points_of_refs hrefs hmem)
  fresh := hfresh
  gone := hgone
  copied := hcopied
  synced := hsynced

include h in
lemma Inv.step_same (hactive : SameTree img img.activeL1 img' img'.activeL1)
    (hsnapshots : img'.snapshots = img.snapshots)
    (htrees : ∀ sn ∈ img.snapshots, SameTree img (img.snapshotL1 sn) img' (img'.snapshotL1 sn))
    (hcounts : ∀ c, img'.getRefcount c + (img.metaRefs c + held c + freed c) =
      img.getRefcount c + (img'.metaRefs c + held' c + freed' c))
    (hmeta : ∀ c, img'.metaRefs c ≤ img.metaRefs c ∨ img'.metaRefs c ≤ 1 ∧ img.refs c = 0)
    (hfresh : ∀ c, held' c ≠ 0 → img'.getRefcount c = 1)
    (hgone : ∀ c, freed' c ≠ 0 → ¬ img.Points img.activeL1 c)
    (hcopied : img'.Copied) (hsynced : img'.Synced) : img'.Inv extra held' freed' := by
  refine h.step ?_ hsnapshots htrees hmeta ?_ hfresh
    (fun c hc hpoints => hgone c hc (hactive.points c hpoints)) hcopied hsynced
  · intro c
    have hc := hcounts c
    rw [hactive.refs c]
    omega
  intro c hpoints
  have hpoints := hactive.points c hpoints
  rw [hactive.refs c]
  rcases hmeta c with hle | ⟨_, hrefs⟩
  · have honce := h.once _ mem_cons_self c hpoints
    omega
  · exact absurd hpoints (not_points_of_refs hrefs mem_cons_self)

lemma Copied.of_counts (h : img.Copied) (hl1 : img'.activeL1 = img.activeL1)
    (hl2 : img'.l2Tables = img.l2Tables) (hbits : img'.clusterBits = img.clusterBits)
    (hcounts : ∀ c, img.Points img.activeL1 c →
      (img'.getRefcount c = 1 ↔ img.getRefcount c = 1)) : img'.Copied := by
  obtain ⟨htable, hsize⟩ := L1Table.mk.injEq .. ▸ hl1
  have hl2Size : img'.l2Size = img.l2Size := by rw [l2Size, l2Size, hbits]
  intro i hi e he
  rw [hsize] at hi
  rw [htable] at he
  rw [hl2, hl2Size]
  obtain ⟨hflag, hflags⟩ := h i hi e he
  refine ⟨hflag.trans (hcounts _ ⟨i, hi, e, he, .inl rfl⟩).symm, ?_⟩
  intro j hj c hc
  exact (hflags j hj c hc).trans (hcounts c ⟨i, hi, e, he, .inr ⟨j, hj, hc⟩⟩).symm

include h in
lemma Inv.sole {e : L1Entry} (hi : i < img.l1Size)
    (he : img.l1Table i = some e) (hcopied : e.copied = true) :
    img.treeRefs img.activeL1 e.table = 1 ∧
      ∀ sn ∈ img.snapshots, img.treeRefs (img.snapshotL1 sn) e.table = 0 := by
  have hcount := (h.copied i hi e he).1.mp hcopied
  have hpos : 1 ≤ img.treeRefs img.activeL1 e.table :=
    Points.treeRefs_pos ⟨i, hi, e, he, .inl rfl⟩
  have hcounts := h.counts e.table
  constructor
  · rw [refs_eq] at hcounts
    omega
  · intro sn hsn
    have hle := treeRefs_le_refs hsn e.table
    omega

lemma eq_of_table {i' : Nat} {e e' : L1Entry} (honce : img.treeRefs l1 e.table ≤ 1)
    (hi : i < l1.size) (he : l1.entries i = some e) (hi' : i' < l1.size)
    (he' : l1.entries i' = some e') (htable : e'.table = e.table) : i' = i := by
  by_contra hne
  have hle : img.l1EntryRefs (l1.entries i) e.table + img.l1EntryRefs (l1.entries i') e.table ≤
      img.treeRefs l1 e.table :=
    add_le_sum (f := fun i => img.l1EntryRefs (l1.entries i) e.table) (fun _ _ => Nat.zero_le _)
      (Finset.mem_range.mpr hi) (Finset.mem_range.mpr hi') (Ne.symm hne)
  rw [he, he', l1EntryRefs, l1EntryRefs, htable, rangeRefs_self one_pos] at hle
  omega

lemma SameTree.of_l2Tables {t : Nat} (hbits : img'.clusterBits = img.clusterBits)
    (hl2 : ∀ table, table ≠ t → img'.l2Tables table = img.l2Tables table)
    (hzero : img.treeRefs l1 t = 0) : SameTree img l1 img' l1 := by
  have hne : ∀ i < l1.size, ∀ e, l1.entries i = some e → e.table ≠ t := by
    rintro i hi e he rfl
    have hpos : 1 ≤ img.treeRefs l1 e.table := Points.treeRefs_pos ⟨i, hi, e, he, .inl rfl⟩
    omega
  have hl2Size : img'.l2Size = img.l2Size := by rw [l2Size, l2Size, hbits]
  constructor
  · intro c
    refine sum_congr rfl fun i hi => ?_
    cases he : l1.entries i with
    | none => rfl
    | some e =>
      rw [l1EntryRefs, l1EntryRefs, l2Refs, l2Refs, hl2Size,
        hl2 e.table (hne i (Finset.mem_range.mp hi) e he)]
      refine congrArg _ (sum_congr rfl fun j _ => ?_)
      exact entryRefs_congr hbits _ c
  · rintro c ⟨i, hi, e, he, hc⟩
    rw [hl2Size, hl2 e.table (hne i hi e he)] at hc
    exact ⟨i, hi, e, he, hc⟩

end Image

end QemuVmi.Qcow2
