import QemuVmi.Qcow2.SnapshotPass

/-!
# Snapshots keep the counts

Creating, applying and deleting a snapshot. The passes over the L1 tables go through states where
flags are stale, so the invariant is established again at the end of each operation, from the
trees that the tables have.

Results:
1. `snapshotCreate_inv`, `snapshotGoto_inv`, `snapshotDelete_inv`.
2. `serve_inv`, `run_inv`: every request keeps the invariant.
3. `run_consistent`: every sequence of requests keeps an image consistent.
-/

namespace QemuVmi.Qcow2.Image

open List

variable {img img' img'' : Image} {extra held freed : Nat → Nat} {c : Nat}

lemma Reflagged.trans (h : Reflagged img img') (h' : Reflagged img' img'') :
    Reflagged img img'' where
  clusterBits := h'.clusterBits.trans h.clusterBits
  refcountTableOffset := h'.refcountTableOffset.trans h.refcountTableOffset
  refcountTable := h'.refcountTable.trans h.refcountTable
  l1TableOffset := h'.l1TableOffset.trans h.l1TableOffset
  l1Size := h'.l1Size.trans h.l1Size
  snapshotsOffset := h'.snapshotsOffset.trans h.snapshotsOffset
  snapshotsSize := h'.snapshotsSize.trans h.snapshotsSize
  snapshots := h'.snapshots.trans h.snapshots
  l1Table i := (h'.l1Table i).trans (h.l1Table i)
  l1Disk offset hoffset i := by
    refine (h'.l1Disk offset ?_ i).trans (h.l1Disk offset hoffset i)
    rwa [h.l1Size, h.l1TableOffset]
  l2Tables t j := (h'.l2Tables t j).trans (h.l2Tables t j)

variable (h : img.Inv extra held freed)

include h in
/-- The invariant holds if each L1 table has the tree of a table of another image, the counts are
right and no metadata is where that image has references. -/
lemma Inv.rebuild (hcounts : ∀ c, img'.getRefcount c = img'.refs c)
    (hmeta : ∀ c, img'.metaRefs c ≤ img.metaRefs c ∨ img'.metaRefs c ≤ 1 ∧ img.refs c = 0)
    (htrees : ∀ l1' ∈ img'.l1Tables, ∃ l1 ∈ img.l1Tables, SameTree img l1 img' l1')
    (hcopied : img'.Copied) (hsynced : img'.Synced) : img'.Inv 0 0 0 where
  counts := hcounts
  single c := by
    have hsingle := h.single c
    rcases hmeta c with hle | ⟨hle, _⟩ <;> omega
  once l1' hl1' c hc := by
    obtain ⟨l1, hl1, htree⟩ := htrees l1' hl1'
    have hpoints := htree.points c hc
    rw [htree.refs c]
    rcases hmeta c with hle | ⟨_, hrefs⟩
    · have honce := h.once l1 hl1 c hpoints
      omega
    · exact absurd hpoints (not_points_of_refs hrefs hl1)
  fresh c hc := absurd rfl hc
  gone c hc := absurd rfl hc
  copied := hcopied
  synced := hsynced

lemma writeSnapshots_inv (hrun : img.writeSnapshots = some img') (h : img.Inv extra held freed) :
    img'.Inv extra held freed ∧ ∃ r f blocks offset size, img' = { img with
      refcounts := r, freeClusterIndex := f, refcountTable := blocks
      snapshotsOffset := offset, snapshotsSize := size } := by
  obtain ⟨size, _, hrun⟩ := Option.bind_eq_some_iff.mp hrun
  obtain ⟨⟨offset, next⟩, halloc, hrun⟩ := Option.bind_eq_some_iff.mp hrun
  obtain ⟨hinv, ⟨r, f, blocks, _, rfl⟩, _⟩ := allocClusters_inv halloc h
  cases hrun
  have hmoved : Inv { img with
      refcounts := r, freeClusterIndex := f, refcountTable := blocks
      snapshotsOffset := offset, snapshotsSize := size } extra held
      (freed + rangeRefs img.snapshotsOffset (img.sizeToClusters img.snapshotsSize)) := by
    refine hinv.exchange (rangeRefs_le_one _ _) (fun c => ?_) (fun c => ?_) rfl
      (.of_entries rfl rfl rfl fun _ _ => rfl) rfl
      (fun sn _ => .of_entries rfl rfl rfl fun _ _ => rfl) hinv.copied hinv.synced
    · simp only [metaRefs, blockRefs, l1Clusters, sizeToClusters, clusterSize]
      omega
    · simp only [metaRefs, blockRefs, l1Clusters, sizeToClusters, clusterSize]
      omega
  obtain ⟨hfree, r', f', blocks', _, heq⟩ := freeClusters_inv hmoved
  exact ⟨hfree, r', f', blocks', offset, size, heq⟩

/-! ## `qcow2_snapshot_create` -/

lemma l1_ne_of_refs (hc : img.refs c = 0) (hsize : 0 < img.l1Size) : c ≠ img.l1TableOffset := by
  rintro rfl
  rw [refs_eq, metaRefs, rangeRefs_self (img.l1Clusters_pos hsize)] at hc
  omega

variable {snapshots : List Snapshot} {sn : Snapshot} {addend : Int}

lemma metaRefs_of_perm (img : Image) (h : snapshots.Perm (sn :: img.snapshots)) (c : Nat) :
    metaRefs { img with snapshots := snapshots } c =
      img.metaRefs c + rangeRefs sn.l1TableOffset (img.l1Clusters sn.l1Size) c := by
  have hsum := (h.map fun sn => rangeRefs sn.l1TableOffset (img.l1Clusters sn.l1Size) c).sum_eq
  rw [map_cons, sum_cons] at hsum
  simp only [metaRefs, blockRefs, l1Clusters, sizeToClusters, clusterSize] at hsum ⊢
  omega

lemma refs_of_perm (img : Image) (h : snapshots.Perm (sn :: img.snapshots)) (c : Nat) :
    refs { img with snapshots := snapshots } c =
      img.refs c + rangeRefs sn.l1TableOffset (img.l1Clusters sn.l1Size) c +
        img.treeRefs (img.snapshotL1 sn) c := by
  have hsum := (h.map fun sn => img.treeRefs (img.snapshotL1 sn) c).sum_eq
  rw [map_cons, sum_cons] at hsum
  rw [refs_eq, refs_eq, metaRefs_of_perm img h]
  change _ + img.treeRefs img.activeL1 c +
    (snapshots.map fun sn => img.treeRefs (img.snapshotL1 sn) c).sum = _
  omega

lemma Inv.writeL1Copy {offset : Nat}
    (h : img.Inv extra (held + rangeRefs offset (img.l1Clusters img.l1Size)) freed) :
    (img.writeL1Table offset img.l1Size img.l1Table).Inv extra
      (held + rangeRefs offset (img.l1Clusters img.l1Size)) freed := by
  obtain ⟨disk, heq, hdisk⟩ := writeL1Table_eq img offset img.l1Size img.l1Table
  rw [heq]
  refine h.step_same (.of_entries rfl rfl rfl fun _ _ => rfl) rfl (fun sn hsn => ?_)
    (fun _ => rfl) (fun _ => .inl (le_refl _)) h.fresh h.gone h.copied fun i hi => ?_
  · refine .of_entries rfl rfl rfl fun i hi => (hdisk _ _).trans (if_neg ?_)
    rintro ⟨heq, hlt⟩
    have hunused : img.refs offset = 0 := by
      refine (h.of_held ?_).1
      rw [Pi.add_apply, rangeRefs_self (img.l1Clusters_pos (Nat.zero_lt_of_lt hlt))]
      omega
    exact snapshot_ne_of_refs hsn (Nat.zero_lt_of_lt hi) hunused heq
  · refine (hdisk _ _).trans ?_
    split
    · rfl
    · exact h.synced i hi

lemma Reflagged.refs (h : Reflagged img img') (hinv : img.Inv extra held freed) (c : Nat) :
    img'.refs c = img.refs c := by
  rw [refs_eq, refs_eq, h.metaRefs, h.active.refs, h.snapshots,
    sum_snapshotL1 fun sn hsn => h.snapshot (hinv.snapshot_ne hsn)]

lemma Reflagged.trees (h : Reflagged img img') (hinv : img.Inv extra held freed) {l1' : L1Table}
    (hl1' : l1' ∈ img'.l1Tables) : ∃ l1 ∈ img.l1Tables, SameTree img l1 img' l1' := by
  rcases mem_cons.mp hl1' with rfl | hl1'
  · exact ⟨_, mem_cons_self, h.active⟩
  · obtain ⟨sn, hsn, rfl⟩ := mem_map.mp hl1'
    rw [h.snapshots] at hsn
    exact ⟨_, mem_cons_of_mem _ (mem_map_of_mem hsn), h.snapshot (hinv.snapshot_ne hsn)⟩

lemma SameTree.with_snapshots {l1 l1' : L1Table} (h : SameTree img l1 img' l1')
    (snapshots : List Snapshot) : SameTree img l1 { img' with snapshots := snapshots } l1' :=
  h.trans (.of_entries rfl rfl rfl fun _ _ => rfl)

lemma Inv.addSnapshot (h : img.Inv 0 (rangeRefs sn.l1TableOffset (img.l1Clusters img.l1Size)) 0)
    (hsize : sn.l1Size = img.l1Size)
    (hcopy : ∀ i < img.l1Size, img.l1Disk sn.l1TableOffset i = img.l1Table i)
    (hpass : img.updateSnapshotRefcount img.l1TableOffset img.l1Size 1 = some img') :
    Inv { img' with snapshots := img'.snapshots ++ [sn] } 0 0 0 := by
  obtain ⟨hflag, hcounts⟩ := snapshotPass_counts hpass
  have hcounted : ∀ c, img.Points img.activeL1 c → 1 ≤ img.getRefcount c := by
    intro c hc
    have hpos := hc.treeRefs_pos
    rw [h.counts c, refs_eq]
    omega
  obtain ⟨hcopied, hsynced⟩ := snapshotPass_copied 1 hpass hcounted h.synced
  have hheld : ∀ c, rangeRefs sn.l1TableOffset (img.l1Clusters img.l1Size) c ≠ 0 →
      img.refs c = 0 := fun c hc => (h.of_held hc).1
  have hnew : SameTree img img.activeL1 img' (img'.snapshotL1 sn) := by
    refine hflag.sameTree hsize fun i hi => ?_
    have hpos : 0 < img.l1Size := Nat.zero_lt_of_lt hi
    refine (hflag.l1Disk _ (l1_ne_of_refs (hheld _ ?_)) i).trans (congrArg _ (hcopy i hi))
    rw [rangeRefs_self (img.l1Clusters_pos hpos)]
    exact one_ne_zero
  have hclusters : img'.l1Clusters sn.l1Size = img.l1Clusters img.l1Size := by
    simp only [l1Clusters, sizeToClusters, clusterSize, hflag.clusterBits, hsize]
  refine h.rebuild (fun c => ?_) (fun c => ?_) (fun l1' hl1' => ?_) hcopied hsynced
  · have hbefore := h.counts c
    have hpassed := hcounts c
    rw [passL1, if_pos rfl] at hpassed
    rw [refs_of_perm _ (perm_append_singleton sn _), hflag.refs h, hnew.refs, hclusters]
    simp only [Pi.zero_apply] at hbefore
    change img'.getRefcount c = _
    omega
  · rw [metaRefs_of_perm _ (perm_append_singleton sn _), hflag.metaRefs, hclusters]
    by_cases hc : rangeRefs sn.l1TableOffset (img.l1Clusters img.l1Size) c = 0
    · exact .inl (by omega)
    have hrefs := hheld c hc
    have hle := rangeRefs_le_one sn.l1TableOffset (img.l1Clusters img.l1Size) c
    refine .inr ⟨?_, hrefs⟩
    rw [refs_eq] at hrefs
    omega
  · have hmem : l1' ∈ img'.l1Tables ∨ l1' = img'.snapshotL1 sn := by
      simpa [l1Tables, activeL1, snapshotL1, or_assoc, eq_comm] using hl1'
    rcases hmem with hmem | rfl
    · obtain ⟨l1, hl1, htree⟩ := hflag.trees h hmem
      exact ⟨l1, hl1, htree.with_snapshots _⟩
    · exact ⟨_, mem_cons_self, hnew.with_snapshots _⟩

lemma snapshotCreate_inv {id name : List UInt8} {vmStateSize : Nat}
    (hrun : img.snapshotCreate id name vmStateSize = some img') (h : img.Inv 0 0 0) :
    img'.Inv 0 0 0 := by
  unfold snapshotCreate at hrun
  split at hrun
  · cases hrun
  obtain ⟨⟨offset, next⟩, halloc, hrun⟩ := Option.bind_eq_some_iff.mp hrun
  obtain ⟨passed, hpass, hrun⟩ := Option.bind_eq_some_iff.mp hrun
  obtain ⟨written, hwrite, hdiscard⟩ := Option.bind_eq_some_iff.mp hrun
  obtain ⟨hheld, hext⟩ := allocClusters_inv halloc h
  have hsize := hext.tables.l1Size
  have hclusters : img.l1Clusters img.l1Size = next.l1Clusters next.l1Size := by
    simp only [l1Clusters, sizeToClusters, clusterSize, hext.tables.keeps.clusterBits, hsize]
  rw [hclusters] at hheld
  have hcopy := hheld.writeL1Copy
  rw [zero_add] at hcopy
  have hadded : Inv { passed with snapshots := passed.snapshots ++
      [⟨offset, img.l1Size, id, name, img.diskSize, vmStateSize⟩] } 0 0 0 := by
    refine Inv.addSnapshot hcopy hsize.symm (fun i hi => ?_) hpass
    exact (congrFun (Function.update_self ..) i).trans (if_pos hi)
  exact discardClusters_inv hdiscard (writeSnapshots_inv hwrite hadded).1

/-! ## `qcow2_snapshot_delete` -/

lemma Reflagged.of_counts (h : ∃ r f, img' = { img with refcounts := r, freeClusterIndex := f }) :
    Reflagged img img' := by
  obtain ⟨r, f, rfl⟩ := h
  exact ⟨rfl, rfl, rfl, rfl, rfl, rfl, rfl, rfl, fun _ => rfl, fun _ _ _ => rfl, fun _ _ => rfl⟩

variable (hrun : img.updateSnapshotRefcount sn.l1TableOffset sn.l1Size addend = some img')
  (hne : 0 < sn.l1Size → 0 < img.l1Size → sn.l1TableOffset ≠ img.l1TableOffset)

include hrun hne in
lemma snapshotPass_tree (c : Nat) : (img'.getRefcount c : Int) =
      img.getRefcount c + addend * img.treeRefs (img.snapshotL1 sn) c := by
  rw [(snapshotPass_counts hrun).2 c]
  have hsize := (snapshotPass_eq hrun).1
  unfold passL1 at hsize ⊢
  by_cases hactive : sn.l1TableOffset = img.l1TableOffset
  · -- both tables are empty
    rw [if_pos hactive] at hsize ⊢
    have hempty : sn.l1Size = 0 := by
      by_contra hpos
      exact hne (pos_of_ne_zero hpos) (by change img.l1Size = _ at hsize; omega) hactive
    rw [treeRefs, treeRefs, hsize, snapshotL1, hempty, Finset.sum_range_zero, Finset.sum_range_zero]
  · rw [if_neg hactive, snapshotL1]

lemma Synced.pass {offset size : Nat} (h : img.Synced)
    (hrun : img.updateSnapshotRefcount offset size addend = some img')
    (hne : 0 < img.l1Size → offset ≠ img.l1TableOffset) : img'.Synced := by
  have hflag := (snapshotPass_counts hrun).1
  obtain ⟨htable, hdisk⟩ := snapshotPass_frame hrun
  intro i hi
  rw [hflag.l1Size] at hi
  have hoffset := hne (Nat.zero_lt_of_lt hi)
  rw [hflag.l1TableOffset, htable hoffset, hdisk _ (.inr hoffset.symm)]
  exact h i hi

include h in
lemma Inv.settle (hflag : Reflagged img img')
    (hcounts : ∀ c, img'.getRefcount c = img.refs c) (hcopied : img'.Copied)
    (hsynced : img'.Synced) : img'.Inv 0 0 0 := by
  refine h.rebuild (fun c => ?_) (fun c => .inl ?_) (fun l1' => hflag.trees h) hcopied hsynced
  · rw [hcounts c, hflag.refs h]
  · exact (hflag.metaRefs c).le

lemma Inv.eraseSnapshot (h : img.Inv 0 0 0) (hperm : img.snapshots.Perm (sn :: snapshots)) :
    Inv { img with snapshots := snapshots }
      (rangeRefs sn.l1TableOffset (img.l1Clusters sn.l1Size) + img.treeRefs (img.snapshotL1 sn))
      0 0 where
  counts c := by
    have hcounts : img.getRefcount c = img.refs c := h.counts c
    rw [show img.refs c = _ from refs_of_perm { img with snapshots := snapshots } hperm c] at hcounts
    exact hcounts.trans (add_assoc _ _ _)
  single c := by
    have hsingle := h.single c
    have hmeta : img.metaRefs c = _ :=
      metaRefs_of_perm { img with snapshots := snapshots } hperm c
    omega
  once l1 hl1 c hc := by
    have hmem : l1 ∈ img.l1Tables := by
      refine mem_cons.mpr ((mem_cons.mp hl1).imp_right fun hl1 => ?_)
      obtain ⟨s, hs, rfl⟩ := mem_map.mp hl1
      exact mem_map_of_mem (hperm.mem_iff.mpr (mem_cons_of_mem _ hs))
    have honce : img.metaRefs c + img.treeRefs l1 c ≤ 1 := h.once l1 hmem c hc
    have hmeta : img.metaRefs c = _ :=
      metaRefs_of_perm { img with snapshots := snapshots } hperm c
    change _ + img.treeRefs l1 c ≤ 1
    omega
  fresh c hc := absurd rfl hc
  gone c hc := absurd rfl hc
  copied := h.copied
  synced := h.synced

include hrun hne in
lemma snapshotPass_ne (hpos : 0 < img.l1Size) : sn.l1TableOffset ≠ img.l1TableOffset := by
  intro hactive
  have hsize := (snapshotPass_eq hrun).1
  rw [passL1, if_pos hactive] at hsize
  exact hne (hsize ▸ hpos) hpos hactive

include h in
lemma Inv.lastPass {next : Image} (hflag : Reflagged img next)
    (hcounts : ∀ c, next.getRefcount c = img.refs c) (hsynced : next.Synced)
    (hlast : next.updateSnapshotRefcount next.l1TableOffset next.l1Size 0 = some img') :
    img'.Inv 0 0 0 := by
  have hcounted : ∀ c, next.Points next.activeL1 c → 1 ≤ next.getRefcount c := by
    intro c hc
    have hpos := (hflag.active.points c hc).treeRefs_pos
    rw [hcounts c, refs_eq]
    omega
  obtain ⟨hcopied, hsynced⟩ := snapshotPass_copied 0 hlast hcounted hsynced
  obtain ⟨hflag', hcounts'⟩ := snapshotPass_counts hlast
  refine h.settle (hflag.trans hflag') (fun c => ?_) hcopied hsynced
  have hc := hcounts' c
  rw [Int.zero_mul, add_zero, hcounts c] at hc
  exact Int.ofNat_inj.mp hc

lemma Inv.dropSnapshot {passed freed : Image}
    (h : img.Inv (rangeRefs sn.l1TableOffset (img.l1Clusters sn.l1Size) + img.treeRefs (img.snapshotL1 sn)) 0 0)
    (hne : 0 < sn.l1Size → 0 < img.l1Size → sn.l1TableOffset ≠ img.l1TableOffset)
    (hpass : img.updateSnapshotRefcount sn.l1TableOffset sn.l1Size (-1) = some passed)
    (hfree : passed.freeClusters sn.l1TableOffset (passed.l1Clusters sn.l1Size) = freed)
    (hlast : freed.updateSnapshotRefcount freed.l1TableOffset freed.l1Size 0 = some img') :
    img'.Inv 0 0 0 := by
  have hflag := (snapshotPass_counts hpass).1
  have hclusters : passed.l1Clusters sn.l1Size = img.l1Clusters sn.l1Size := by
    simp only [l1Clusters, sizeToClusters, clusterSize, hflag.clusterBits]
  rw [hclusters] at hfree
  have hpassed : ∀ c, passed.getRefcount c =
      img.refs c + rangeRefs sn.l1TableOffset (img.l1Clusters sn.l1Size) c := by
    intro c
    have hcounts := h.counts c
    have htree := snapshotPass_tree hpass hne c
    simp only [Pi.add_apply, Pi.zero_apply] at hcounts
    omega
  have hcounted : ∀ x, sn.l1TableOffset ≤ x →
      x < sn.l1TableOffset + img.l1Clusters sn.l1Size → passed.getRefcount x ≠ 0 := by
    intro x hlow hhigh
    rw [hpassed x, rangeRefs, if_pos ⟨hlow, hhigh⟩]
    omega
  obtain ⟨hsame, hfreed⟩ := freeClusters_counts hcounted
  rw [hfree] at hsame hfreed
  have hsynced : passed.Synced := h.synced.pass hpass (snapshotPass_ne hpass hne)
  refine h.lastPass (hflag.trans (.of_counts hsame)) (fun c => ?_) ?_ hlast
  · have hc := hfreed c
    rw [hpassed c] at hc
    omega
  · obtain ⟨r, f, rfl⟩ := hsame
    exact hsynced

lemma snapshotDelete_inv {id name : Option (List UInt8)}
    (hrun : img.snapshotDelete id name = some img') (h : img.Inv 0 0 0) : img'.Inv 0 0 0 := by
  obtain ⟨index, _, hrun⟩ := Option.bind_eq_some_iff.mp hrun
  obtain ⟨sn, hsn, hrun⟩ := Option.bind_eq_some_iff.mp hrun
  obtain ⟨written, hwrite, hrun⟩ := Option.bind_eq_some_iff.mp hrun
  obtain ⟨passed, hpass, hlast⟩ := Option.bind_eq_some_iff.mp hrun
  obtain ⟨hindex, hsn⟩ := List.getElem?_eq_some_iff.mp hsn
  have hperm : img.snapshots.Perm (sn :: img.snapshots.eraseIdx index) := by
    rw [← hsn]
    exact (getElem_cons_eraseIdx_perm hindex).symm
  have hmem : sn ∈ img.snapshots := hperm.mem_iff.mpr mem_cons_self
  obtain ⟨hinv, r, f, blocks, offset, size, rfl⟩ := writeSnapshots_inv hwrite (h.eraseSnapshot hperm)
  exact hinv.dropSnapshot (h.snapshot_ne hmem) hpass rfl hlast

/-! ## `qcow2_snapshot_goto` -/

lemma Reflagged.writeL1Table (img : Image) (entries : Nat → Option L1Entry) :
    Reflagged img (img.writeL1Table img.l1TableOffset img.l1Size entries) := by
  obtain ⟨disk, heq, hdisk⟩ := writeL1Table_eq img img.l1TableOffset img.l1Size entries
  rw [heq]
  refine ⟨rfl, rfl, rfl, rfl, rfl, rfl, rfl, rfl, fun _ => rfl, fun offset hne i => ?_,
    fun _ _ => rfl⟩
  refine congrArg _ ((hdisk offset i).trans (if_neg ?_))
  rintro ⟨hoffset, hi⟩
  exact hne (Nat.zero_lt_of_lt hi) hoffset

/-- The tree of a snapshot is counted once more, that of the active L1 table once less, and the
L1 table of the snapshot becomes the active one. -/
lemma Inv.applySnapshot {passed written dropped applied : Image} {snL1 : Nat → Option L1Entry}
    (h : img.Inv 0 0 0) (hsn : sn ∈ img.snapshots) (hsize : sn.l1Size ≤ img.l1Size)
    (hsnL1 : snL1 = fun i => if i < sn.l1Size then img.l1Disk sn.l1TableOffset i else none)
    (hup : img.updateSnapshotRefcount sn.l1TableOffset sn.l1Size 1 = some passed)
    (hwrite : passed.writeL1Table passed.l1TableOffset passed.l1Size snL1 = written)
    (hdown : written.updateSnapshotRefcount written.l1TableOffset written.l1Size (-1) = some dropped)
    (happlied : applied = { dropped with l1Table := snL1 })
    (hlast : applied.updateSnapshotRefcount applied.l1TableOffset applied.l1Size 0 = some img') :
    img'.Inv 0 0 0 := by
  have hflagUp := (snapshotPass_counts hup).1
  obtain ⟨hflagDown, hcountsDown⟩ := snapshotPass_counts hdown
  have hwritten : Reflagged img written := by
    rw [← hwrite]
    exact hflagUp.trans (.writeL1Table passed snL1)
  have hflag : Reflagged img dropped := hwritten.trans hflagDown
  -- the trees before the last pass
  have hactive : SameTree img (img.snapshotL1 sn) applied applied.activeL1 := by
    have hextend : SameTree img (img.snapshotL1 sn) img ⟨snL1, img.l1Size⟩ := by
      rw [hsnL1]
      exact SameTree.extend hsize
    have hdropped : SameTree img ⟨snL1, img.l1Size⟩ dropped ⟨snL1, dropped.l1Size⟩ :=
      hflag.sameTree hflag.l1Size fun _ _ => rfl
    rw [happlied]
    exact (hextend.trans hdropped).trans (.of_entries rfl rfl rfl fun _ _ => rfl)
  have hothers : ∀ s ∈ img.snapshots,
      SameTree img (img.snapshotL1 s) applied (applied.snapshotL1 s) := by
    intro s hs
    rw [happlied]
    exact (hflag.snapshot (h.snapshot_ne hs)).trans (.of_entries rfl rfl rfl fun _ _ => rfl)
  have hcounts : ∀ c, applied.getRefcount c + img.treeRefs img.activeL1 c =
      img.getRefcount c + img.treeRefs (img.snapshotL1 sn) c := by
    intro c
    have htree := snapshotPass_tree hup (h.snapshot_ne hsn) c
    have hdropped := hcountsDown c
    rw [passL1, if_pos rfl, hwritten.active.refs c,
      show written.getRefcount c = passed.getRefcount c from hwrite ▸ rfl] at hdropped
    have hrecord : applied.getRefcount c = dropped.getRefcount c := happlied ▸ rfl
    omega
  have hbounds : applied.l1Size = img.l1Size ∧ applied.l1TableOffset = img.l1TableOffset := by
    rw [happlied]
    exact ⟨hflag.l1Size, hflag.l1TableOffset⟩
  have hsynced : applied.Synced := by
    intro i hi
    rw [hbounds.1, ← hflagUp.l1Size] at hi
    rw [hbounds.2, ← hflagUp.l1TableOffset, happlied]
    rw [(snapshotPass_frame hdown).2 _ (.inl (by decide)), ← hwrite]
    exact (congrFun (Function.update_self ..) i).trans (if_pos hi)
  have hcounted : ∀ c, applied.Points applied.activeL1 c → 1 ≤ applied.getRefcount c := by
    intro c hc
    have hpos := (hactive.points c hc).treeRefs_pos
    have hbefore : img.getRefcount c = img.refs c := h.counts c
    have hle := treeRefs_le_refs hsn c
    have hafter := hcounts c
    omega
  obtain ⟨hcopied', hsynced'⟩ := snapshotPass_copied 0 hlast hcounted hsynced
  obtain ⟨hflagLast, hcountsLast⟩ := snapshotPass_counts hlast
  have hmeta : ∀ c, img'.metaRefs c = img.metaRefs c := by
    intro c
    rw [hflagLast.metaRefs, ← hflag.metaRefs, happlied]
    rfl
  have hsnapshots : img'.snapshots = img.snapshots := by
    rw [hflagLast.snapshots, ← hflag.snapshots, happlied]
  have hactive' := hactive.trans hflagLast.active
  have hothers' : ∀ s ∈ img.snapshots,
      SameTree img (img.snapshotL1 s) img' (img'.snapshotL1 s) := by
    intro s hs
    refine (hothers s hs).trans (hflagLast.snapshot ?_)
    rw [hbounds.1, hbounds.2]
    exact h.snapshot_ne hs
  refine h.rebuild (fun c => ?_) (fun c => .inl (hmeta c).le) (fun l1' hl1' => ?_)
    hcopied' hsynced'
  · have hbefore : img.getRefcount c = img.refs c := h.counts c
    have hmid := hcounts c
    have hafter := hcountsLast c
    rw [Int.zero_mul, add_zero] at hafter
    rw [refs_eq] at hbefore
    rw [refs_eq, hmeta c, hactive'.refs c, hsnapshots, sum_snapshotL1 hothers']
    omega
  · rcases mem_cons.mp hl1' with rfl | hl1'
    · exact ⟨_, mem_cons_of_mem _ (mem_map_of_mem hsn), hactive'⟩
    · obtain ⟨s, hs, rfl⟩ := mem_map.mp hl1'
      rw [hsnapshots] at hs
      exact ⟨_, mem_cons_of_mem _ (mem_map_of_mem hs), hothers' s hs⟩

lemma snapshotGoto_inv {id : List UInt8} (hrun : img.snapshotGoto id = some img')
    (h : img.Inv 0 0 0) : img'.Inv 0 0 0 := by
  obtain ⟨index, _, hrun⟩ := Option.bind_eq_some_iff.mp hrun
  obtain ⟨sn, hsn, hrun⟩ := Option.bind_eq_some_iff.mp hrun
  split at hrun
  · cases hrun
  obtain ⟨grown, hgrow, hrun⟩ := Option.bind_eq_some_iff.mp hrun
  obtain ⟨passed, hup, hrun⟩ := Option.bind_eq_some_iff.mp hrun
  obtain ⟨dropped, hdown, hlast⟩ := Option.bind_eq_some_iff.mp hrun
  obtain ⟨hinv, hkeeps, hsize⟩ := growL1Table_inv hgrow h
  have hmem : sn ∈ grown.snapshots := by
    rw [hkeeps.snapshots]
    exact mem_of_getElem? hsn
  exact hinv.applySnapshot hmem hsize rfl hup rfl hdown rfl hlast

lemma serve_inv {request : Request} (hrun : img.serve request = some img') (h : img.Inv 0 0 0) :
    img'.Inv 0 0 0 := by
  cases request with
  | write offset num => exact write_inv hrun h
  | zeroClusters offset nbSectors => exact zeroClusters_inv hrun h
  | snapshotCreate id name vmStateSize => exact snapshotCreate_inv hrun h
  | snapshotGoto id => exact snapshotGoto_inv hrun h
  | snapshotDelete id name => exact snapshotDelete_inv hrun h

lemma run_inv {requests : List Request} (hrun : requests.foldlM serve img = some img')
    (h : img.Inv 0 0 0) : img'.Inv 0 0 0 := by
  induction requests generalizing img with
  | nil =>
    cases hrun
    exact h
  | cons request requests ih =>
    obtain ⟨next, hserve, hrest⟩ := OptionFold.foldlM_cons_eq_some.mp hrun
    exact ih hrest (serve_inv hserve h)

/-- From a consistent image in which the active L1 table and the snapshots share clusters only with
each other, every sequence of requests leads to such an image. -/
theorem run_consistent {requests : List Request} (hcon : img.Consistent) (hun : img.Unshared)
    (hrun : requests.foldlM serve img = some img') : img'.Consistent ∧ img'.Unshared :=
  inv_zero_iff.mp (run_inv hrun (inv_zero_iff.mpr ⟨hcon, hun⟩))

def emptyImage : Image where
  clusterBits := 9
  qcowVersion := 3
  hasBackingFile := false
  diskSize := 1024
  l1VmStateIndex := 1
  refcountTableOffset := 1
  refcountTable := [2]
  refcounts c := if c < 4 then 1 else 0
  freeClusterIndex := 0
  l1TableOffset := 3
  l1Size := 1
  l1Table _ := none
  l1Disk _ _ := none
  l2Tables _ _ := .unallocated
  snapshotsOffset := 0
  snapshotsSize := 0
  snapshots := []

lemma metaRefs_emptyImage (c : Nat) : emptyImage.metaRefs c = if c < 4 then 1 else 0 := by
  by_cases hc : c < 4
  · revert c
    decide
  change rangeRefs 0 1 c + rangeRefs 1 1 c + (if c = 0 then 0 else [2].count c) +
    rangeRefs 0 0 c + rangeRefs 3 1 c + 0 = _
  rw [rangeRefs_zero, Pi.zero_apply, rangeRefs_one_eq_zero (by omega),
    rangeRefs_one_eq_zero (by omega), rangeRefs_one_eq_zero (by omega), if_neg hc,
    if_neg (by omega), count_eq_zero_of_not_mem (by simp; omega)]
  rfl

lemma inv_emptyImage : emptyImage.Inv 0 0 0 where
  counts c := by
    rw [refs_eq, metaRefs_emptyImage]
    change (if [2].getD (c / 256) 0 != 0 then (if c < 4 then (1 : UInt16) else 0).toNat else 0) = _
    by_cases hc : c < 4
    · rw [if_pos hc, if_pos hc, Nat.div_eq_of_lt (by omega)]
      rfl
    · rw [if_neg hc, if_neg hc]
      split <;> rfl
  single c := by
    rw [metaRefs_emptyImage]
    split <;> omega
  once l1 hl1 c hc := by
    obtain ⟨i, _, e, he, _⟩ := mem_singleton.mp hl1 ▸ hc
    cases he
  fresh c hc := absurd rfl hc
  gone c hc := absurd rfl hc
  copied i _ e he := by cases he
  synced i _ := rfl

theorem run_consistent_emptyImage :
    ∃ img', [.write 0 1, .snapshotCreate [1] [2] 0, .write 0 1, .snapshotGoto [1],
        .snapshotDelete (some [1]) none].foldlM serve emptyImage = some img' ∧
      img'.Consistent ∧ img'.Unshared := by
  have hsome : ([.write 0 1, .snapshotCreate [1] [2] 0, .write 0 1, .snapshotGoto [1],
      .snapshotDelete (some [1]) none].foldlM serve emptyImage).isSome := by decide +kernel
  obtain ⟨img', hrun⟩ := Option.isSome_iff_exists.mp hsome
  obtain ⟨hcon, hun⟩ := inv_zero_iff.mp inv_emptyImage
  exact ⟨img', hrun, run_consistent hcon hun hrun⟩

def sharedImage : Image :=
  { emptyImage with
    refcounts := fun c => if c < 5 then 1 else if c = 5 then 2 else 0
    l1Table := fun i => if i = 0 then some ⟨4, true⟩ else none
    l1Disk := fun offset i => if offset = 3 ∧ i = 0 then some ⟨4, true⟩ else none
    l2Tables := fun t j => if t = 4 ∧ j < 2 then .normal 5 false else .unallocated }

lemma consistent_sharedImage : sharedImage.Consistent where
  counts c := by
    by_cases hc : c < 6
    · revert c
      decide +kernel
    have hcount : sharedImage.getRefcount c = 0 := by
      unfold getRefcount
      split
      · exact congrArg UInt16.toNat ((if_neg (by omega)).trans (if_neg (by omega)))
      · rfl
    have hmeta : sharedImage.metaRefs c = 0 := (metaRefs_emptyImage c).trans (if_neg (by omega))
    have hentries : sharedImage.l2Refs 4 c = 0 := by
      refine Finset.sum_eq_zero fun j _ => ?_
      change entryRefs _ (if 4 = 4 ∧ j < 2 then .normal 5 false else .unallocated) c = 0
      split
      · exact rangeRefs_one_eq_zero (by omega)
      · rfl
    have htree : sharedImage.treeRefs sharedImage.activeL1 c =
        rangeRefs 4 1 c + sharedImage.l2Refs 4 c :=
      Finset.sum_range_one fun i => sharedImage.l1EntryRefs (sharedImage.l1Table i) c
    rw [refs_eq, hcount, hmeta, htree, hentries, rangeRefs_one_eq_zero (by omega)]
    rfl
  copied i hi e he := by
    obtain rfl : i = 0 := Nat.lt_one_iff.mp hi
    cases he
    refine ⟨by decide, fun j _ c hc => ?_⟩
    have hentry : sharedImage.l2Tables 4 j = if 4 = 4 ∧ j < 2 then .normal 5 false else .unallocated :=
      rfl
    rw [hentry] at hc ⊢
    split at hc
    next hfirst =>
      cases hc
      rw [if_pos hfirst]
      decide
    · cases hc
  synced i hi := by
    obtain rfl : i = 0 := Nat.lt_one_iff.mp hi
    rfl

/-- A write to one of the two entries gives cluster 5 back once, and the other entry is left
without `QCOW_OFLAG_COPIED`. -/
theorem write_sharedImage : sharedImage.Consistent ∧
    ∃ img', sharedImage.serve (.write 0 1) = some img' ∧ ¬ img'.Consistent := by
  refine ⟨consistent_sharedImage, ?_⟩
  have hserved : (sharedImage.serve (.write 0 1)).map (fun img =>
      (img.l1Size, img.l2Size, img.l1Table 0, img.l2Tables 4 1, img.getRefcount 5)) =
        some (1, 64, some ⟨4, true⟩, .normal 5 false, 1) := by decide +kernel
  obtain ⟨img', hrun, hsees⟩ := Option.map_eq_some_iff.mp hserved
  simp only [Prod.mk.injEq] at hsees
  obtain ⟨hsize, hl2Size, hentry, hcluster, hcount⟩ := hsees
  refine ⟨img', hrun, fun hcon => ?_⟩
  have hflag := (hcon.copied 0 (by omega) _ hentry).2 1 (by omega) 5 (by rw [hcluster]; rfl)
  rw [hcluster, hcount] at hflag
  exact absurd (hflag.mpr rfl) (by decide)

end QemuVmi.Qcow2.Image
