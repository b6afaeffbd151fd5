import QemuVmi.Qcow2.Allocation

/-!
# Counts after an allocation

What an allocation does to the counts of an image that need not be consistent: the clusters that it
returns were free and are counted once more, and so are the refcount blocks that it had to allocate.

Results: `allocClusters_counts`, `allocClusters_outside_snapshots`.
-/

namespace QemuVmi.Qcow2.Image

variable {img img' : Image} {c n start fuel : Nat}

lemma allocClustersLoop_counts {offset : Nat} (hheader : img.getRefcount 0 ≠ 0)
    (hrun : allocClustersLoop n fuel img = some (offset, img')) :
    img.Free offset n ∧ ∃ mid, GainsBlocks img mid ∧
      (∃ r f, img' = { mid with refcounts := r, freeClusterIndex := f }) ∧
      ∀ x, img'.getRefcount x = mid.getRefcount x + rangeRefs offset n x := by
  induction fuel generalizing img with
  | zero => cases hrun
  | succ fuel ih =>
    obtain ⟨⟨found, next⟩, hnoref, hrun⟩ := Option.bind_eq_some_iff.mp hrun
    obtain ⟨hfree, f, rfl⟩ := allocClustersNoref_spec hnoref
    have hmove := GainsBlocks.with_freeClusterIndex img f
    dsimp only at hrun
    cases hupdate : updateRefcount found n 1 { img with freeClusterIndex := f } with
    | fail next =>
      rw [hupdate] at hrun
      cases hrun
    | ok next =>
      rw [hupdate] at hrun
      cases hrun
      obtain ⟨hsame, hcounts⟩ := updateRefcount_counts hupdate
      refine ⟨hfree, _, hmove, hsame, fun x => ?_⟩
      have hx := hcounts x
      omega
    | again next =>
      rw [hupdate] at hrun
      have hgains := hmove.trans (updateRefcount_again hheader hupdate)
      have hlow := hgains.le_getRefcount
      obtain ⟨hfree, mid, hgains', hrest⟩ := ih (fun hzero => hheader (by have := hlow 0; omega)) hrun
      refine ⟨fun x hx hx' => ?_, mid, hgains.trans hgains', hrest⟩
      have hle := hlow x
      have hzero := hfree x hx hx'
      omega

/-- The clusters of a range were free; they and new refcount blocks are all that is counted more. -/
structure Allocated (img img' : Image) (offset n : Nat) : Prop where
  free : img.Free offset n
  clusterBits : img'.clusterBits = img.clusterBits
  counts : ∀ x, img'.getRefcount x + img.blockRefs x =
    img.getRefcount x + img'.blockRefs x + rangeRefs offset n x
  blocks : ∀ x, img.blockRefs x ≤ img'.blockRefs x
  hasBlock : ∀ x, img.hasBlock x = true → img'.hasBlock x = true
  kept : ∀ x, img.getRefcount x ≠ 0 → img'.getRefcount x = img.getRefcount x

/-- `qcow2_alloc_clusters`. -/
lemma allocClusters_counts {offset : Nat} (hheader : img.getRefcount 0 ≠ 0)
    (hrun : img.allocClusters n = some (offset, img')) : Allocated img img' offset n := by
  obtain ⟨hfree, mid, hgains, hsame, hcounts⟩ := allocClustersLoop_counts hheader hrun
  obtain ⟨htables, hblocks, hhas⟩ := sameBlocks hsame
  refine ⟨hfree, ?_, fun x => ?_, fun x => ?_, fun x hx => ?_, fun x hx => ?_⟩
  · obtain ⟨_, _, _, _, heq⟩ := hgains.tables.trans htables
    rw [heq]
  · have hx := hgains.counts x
    rw [hcounts x, hblocks]
    omega
  · rw [hblocks]
    exact hgains.blocks x
  · rw [hhas]
    exact hgains.hasBlock x hx
  · have hout : rangeRefs offset n x = 0 := if_neg fun hin => hx (hfree x hin.1 hin.2)
    rw [hcounts x, hout, hgains.kept x hx, Nat.add_zero]

/-- In a consistent image, what is allocated lies outside of the snapshot table. -/
lemma allocClusters_outside_snapshots {offset : Nat} (hcon : img.Consistent)
    (hrun : img.allocClusters n = some (offset, img')) (hc : offset ≤ c ∧ c < offset + n) :
    ¬ (img.snapshotsOffset ≤ c ∧
      c < img.snapshotsOffset + img.sizeToClusters img.snapshotsSize) := by
  intro htable
  have hheader : img.getRefcount 0 ≠ 0 := by
    rw [hcon.counts, refs_eq, metaRefs, rangeRefs_self one_pos]
    omega
  have hfree := (allocClusters_counts hheader hrun).free c hc.1 hc.2
  rw [hcon.counts, refs_eq, metaRefs, rangeRefs, rangeRefs, rangeRefs, if_pos htable] at hfree
  omega

end QemuVmi.Qcow2.Image
